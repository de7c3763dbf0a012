import SJava.Fault
import SJava.Text.Cut

/-!
# Parentheses on a line

A call and the header of a block hold what stands between the first `(` and the
last `)` of the line.
-/

namespace SJava.Text

/-- The text before the first `(`, and that from there to the last `)`. -/
def parenthesized (line : Text) : Except Fault (Text × Text) :=
  match cut? '(' line with
  | none => .error .invalidLineFormat
  | some (front, back) =>
    match beforeLast? ')' back with
    | none => .error .invalidLineFormat
    | some inside => .ok (front, inside)

end SJava.Text
