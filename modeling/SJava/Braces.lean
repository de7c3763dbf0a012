import SJava.Text.Quotation

/-!
# Braces on a line

A line opens a block when it ends in `{`, and closes one when it is a lone `}`.
Braces between quotes count for nothing.
-/

namespace SJava.Braces

/-- Whether the line opens a block. -/
def opens (line : Text) : Bool := (Text.trimEnd (Text.unquoted line)).getLast? == some '{'

/-- Whether the line closes a block. -/
def closes (line : Text) : Bool := Text.trim line == ['}']

/-- What a character adds to the balance of braces. -/
def weight (c : Char) : Int :=
  if c = '{' then 1 else if c = '}' then -1 else 0

/-- The number of opening braces minus that of closing ones. -/
def balance (line : Text) : Int := (Text.unquoted line).foldl (fun n c => n + weight c) 0

end SJava.Braces
