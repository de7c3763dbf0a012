import SJava.Text.Blank
import SJava.Text.Extender
import SJava.Text.Printable

/-!
# Quoting a text inside a message

A quoted text stands between double quotes on one line and shows every
character: quotes and backslashes get a backslash, tabs, line ends and NUL their
letter, and all else that would not be seen on its own its code point in hex.
-/

namespace SJava.Text

/-- The halfwidth sound marks of Katakana. They extend the character in front of
them, but have a shape of their own. -/
def isHalfwidthMark (c : Char) : Bool := c == '\uff9e' || c == '\uff9f'

/-- The Hangul fillers, which are letters, but are drawn as nothing. -/
def isFiller (c : Char) : Bool :=
  c == '\u115f' || c == '\u1160' || c == '\u3164' || c == '\uffa0'

/-- Whether a character would not be seen on its own. -/
def isUnseen (c : Char) : Bool :=
  isExtender c && !isHalfwidthMark c || isFiller c || !isPrintable c

/-- The written form of one character of a quoted text. -/
def escapeChar (c : Char) : Text :=
  match c with
  | '"' => ['\\', '"']
  | '\\' => ['\\', '\\']
  | '\t' => ['\\', 't']
  | '\n' => ['\\', 'n']
  | '\r' => ['\\', 'r']
  | '\x00' => ['\\', '0']
  | _ =>
    if isUnseen c then
      ['\\', 'u', '\x7b'] ++ Nat.toDigits 16 c.toNat ++ ['\x7d']
    else [c]

/-- The text between double quotes, with its special characters escaped. -/
def quoted (s : Text) : Text := '"' :: s.flatMap escapeChar ++ ['"']

end SJava.Text
