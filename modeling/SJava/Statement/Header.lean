import SJava.Fault
import SJava.Keyword
import SJava.Text.Cut

/-!
# Method headers

A header line, `void name([final] type name, ...) {`, taken apart.
-/

namespace SJava

/-- A parameter as it is written. -/
structure Parameter where
  isFinal : Bool
  typeToken : Text
  name : Text
  deriving DecidableEq, Repr

/-- The parameter `[final] type name`. -/
def Parameter.ofText (piece : Text) : Except Fault Parameter :=
  match Text.words piece with
  | [typeToken, name] => .ok ⟨false, typeToken, name⟩
  | [modifier, typeToken, name] =>
    if modifier = Keyword.finalWord then .ok ⟨true, typeToken, name⟩
    else .error .invalidParameters
  | _ => .error .invalidParameters

/-- The header of a method, with its parameters from left to right. -/
structure Header where
  name : Text
  parameters : List Parameter
  deriving DecidableEq, Repr

namespace Header

/-- The text before the first `(`, and that from there to the first `)` of the
line. -/
def parts? (line : Text) : Option (Text × Text) := do
  let (front, back) ← Text.cut? '(' line
  if ')' ∈ front then none
  let (inside, _) ← Text.cut? ')' back
  return (front, inside)

/-- A header line taken apart. -/
def ofLine (line : Text) : Except Fault Header := do
  let some signature := Keyword.voidWord.isPrefixOf? (Text.trim line)
    | throw .invalidMethodDeclaration
  let some (name, inside) := parts? signature
    | throw .invalidLineFormat
  let inside := Text.trim inside
  let parameters ← if inside.isEmpty then pure [] else (inside.splitOn ',').mapM Parameter.ofText
  return { name := Text.trim name, parameters }

end Header

end SJava
