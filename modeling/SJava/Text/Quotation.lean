import SJava.Text.Blank

/-!
# Quoted parts of a line

Double quotes pair up from left to right: the first with the second, the third
with the fourth, and so on. A last quote without a partner is an ordinary
character.
-/

namespace SJava.Text

/-- Joins the pieces around the quotes of a line: every second piece stands
between paired quotes and is dropped, except one that no quote follows. -/
def joinUnquoted : List Text → Text
  | [] => []
  | [outside] => outside
  | [outside, unclosed] => outside ++ '"' :: unclosed
  | outside :: _ :: pieces => outside ++ joinUnquoted pieces

/-- The line without its quoted parts, the paired quotes included. -/
def unquoted (line : Text) : Text := joinUnquoted (line.splitOn '"')

end SJava.Text
