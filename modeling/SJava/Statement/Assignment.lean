import SJava.Statement.Declaration

/-!
# Assignments

An assignment line, `name = value, ...;`, taken apart.
-/

namespace SJava

/-- A value to be given to a variable, both as they are written. -/
structure Assignment where
  target : Text
  value : Text
  deriving DecidableEq, Repr

namespace Assignment

/-- The assignment `target = value`. -/
def ofText (piece : Text) : Except Fault Assignment :=
  match piece.splitOn '=' with
  | [target, value] => .ok ⟨Text.trim target, Text.trim value⟩
  | _ => .error .invalidAssignment

/-- The assignments of a line, from left to right. -/
def allOfLine (line : Text) : Except Fault (List Assignment) :=
  ((Text.statementBody line).splitOn ',').mapM ofText

end Assignment

end SJava
