import SJava.Name
import SJava.Ty

/-!
# Variables

A variable keeps the text of the literal it was last given; a literal is checked
against the type and never evaluated. A final variable takes one value only.

* `new_eq_ok_iff`: which variables can be made;
* `setInitial_eq_ok`, `reassign_eq_ok`: the two ways to give a value change
  nothing else.
-/

namespace SJava

/-- A declared variable and the value it was last given. -/
structure Variable where
  name : Text
  ty : Ty
  isFinal : Bool
  /-- The literal the variable holds; `none` before it is given one. -/
  value : Option Text
  deriving DecidableEq, Repr

namespace Variable

/-- A variable without a value. -/
def new (name : Text) (ty : Ty) (isFinal : Bool) : Except Fault Variable := do
  Name.checkVariable name
  return { name, ty, isFinal, value := none }

/-- A variable whose type is still a word. The name is checked before the
type. -/
def ofTokens (name typeToken : Text) (isFinal : Bool) : Except Fault Variable := do
  Name.checkVariable name
  let ty ← Ty.ofKeyword typeToken
  return { name, ty, isFinal, value := none }

/-- Whether the variable has been given a value. -/
def isInitialized (v : Variable) : Bool := v.value.isSome

/-- Gives the variable its first value. -/
def setInitial (v : Variable) (literal : Text) : Except Fault Variable :=
  if v.isFinal && v.isInitialized then .error (.finalReassignment v.name)
  else (v.ty.checkValue literal).map fun _ => { v with value := some literal }

/-- Gives the variable another value. -/
def reassign (v : Variable) (literal : Text) : Except Fault Variable :=
  if v.isFinal then .error (.finalReassignment v.name)
  else (v.ty.checkValue literal).map fun _ => { v with value := some literal }

/-- Gives the variable the default value of its type. -/
def setDefault (v : Variable) : Variable := { v with value := some v.ty.defaultValue }

/-- What the text `raw` stands for where a value of the type `target` is needed:
the value of the variable it names, whose type must widen to `target`, or else
itself, unless it can only be read as a variable. -/
def resolve (lookup : Text → Option Variable) (target : Ty) (raw : Text) : Except Fault Text :=
  match lookup raw with
  | some source =>
    match source.value with
    | none => .error (.variableNotInitialized raw)
    | some value =>
      if Ty.Widens source.ty target then .ok value
      else .error (.incompatibleTypes target.keyword source.ty.keyword)
  | none => if Name.isNameLike raw then .error (.variableNotDeclared raw) else .ok raw

theorem new_eq_ok_iff {name : Text} {ty : Ty} {isFinal : Bool} {v : Variable} :
    new name ty isFinal = .ok v ↔ Name.checkVariable name = .ok () ∧ v = ⟨name, ty, isFinal, none⟩ := by
  cases h : Name.checkVariable name <;> simp [new, h, bind, Except.bind, pure, Except.pure, eq_comm]

theorem setInitial_eq_ok {v w : Variable} {literal : Text} (h : v.setInitial literal = .ok w) :
    w = { v with value := some literal } ∧ v.ty.holds literal = true := by
  simp only [setInitial, Ty.checkValue] at h
  grind [Except.map]

theorem reassign_eq_ok {v w : Variable} {literal : Text} (h : v.reassign literal = .ok w) :
    w = { v with value := some literal } ∧ v.ty.holds literal = true ∧ v.isFinal = false := by
  simp only [reassign, Ty.checkValue] at h
  grind [Except.map]

end Variable

end SJava
