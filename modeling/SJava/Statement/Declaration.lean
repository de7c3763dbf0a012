import SJava.Fault
import SJava.Keyword
import SJava.Text.Cut

/-!
# Declarations

A declaration line, `[final] type name [= value], ...;`, taken apart.
-/

namespace SJava

/-- One declared name, with its first value if it has one. -/
structure Clause where
  name : Text
  value : Option Text
  deriving DecidableEq, Repr

/-- The clause `name` or `name = value`. -/
def Clause.ofText (piece : Text) : Except Fault Clause :=
  match piece.splitOn '=' with
  | [name] => .ok ⟨Text.trim name, none⟩
  | [name, value] => .ok ⟨Text.trim name, some (Text.trim value)⟩
  | _ => .error .invalidLineFormat

/-- A declaration: the type as a word, and the names with their first values. -/
structure Declaration where
  isFinal : Bool
  typeToken : Text
  clauses : List Clause
  deriving DecidableEq, Repr

namespace Declaration

/-- The text behind a leading `final`, or all of it when there is none, and
which of the two. -/
def takeFinal (line : Text) : Bool × Text :=
  match Text.afterWord? Keyword.finalWord line with
  | some rest => (true, rest)
  | none => (false, line)

/-- A declaration line taken apart: the type is the first word, the rest is cut
at the commas. -/
def ofLine (line : Text) : Except Fault Declaration := do
  let (isFinal, rest) := takeFinal (Text.trim line)
  let typeToken := rest.takeWhile (!Text.isBlank ·)
  if typeToken.isEmpty then throw .invalidLineFormat
  let body := Text.statementBody (rest.dropWhile (!Text.isBlank ·))
  let clauses ← (body.splitOn ',').mapM Clause.ofText
  return { isFinal, typeToken, clauses }

end Declaration

end SJava
