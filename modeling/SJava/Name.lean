import SJava.Fault
import SJava.Keyword
import SJava.Pattern

/-!
# Names

The names that variables and methods may have, and the texts that can only be
read as a variable.
-/

namespace SJava.Name

open Pattern

/-- A letter, then letters, digits and underscores. -/
def methodPattern : Pattern := one .letter ++ many .namePart

/-- As for a method, or an underscore with a letter or digit behind it. -/
def variablePattern : Pattern :=
  methodPattern ||| char '_' ++ one (.letter ∪ .digit) ++ many .namePart

/-- A letter or an underscore, then letters, digits and underscores. -/
def wordPattern : Pattern := one (.letter ∪ .char '_') ++ many .namePart

/-- Whether the name is a keyword. -/
def isReserved (name : Text) : Bool := Keyword.reserved.contains name

/-- Text that can only be read as a variable, never as a literal. -/
def isNameLike (s : Text) : Bool :=
  wordPattern.accepts s && s != Keyword.trueWord && s != Keyword.falseWord

/-- A name is refused when it is reserved, and otherwise when it has not the
shape `p`. -/
def check (p : Pattern) (name : Text) : Except Fault Unit :=
  if isReserved name then .error (.reservedName name)
  else if p.accepts name then .ok ()
  else .error (.invalidName name)

/-- Refuses what cannot be the name of a variable or parameter. -/
def checkVariable : Text → Except Fault Unit := check variablePattern

/-- Refuses what cannot be the name of a method. -/
def checkMethod : Text → Except Fault Unit := check methodPattern

theorem check_eq_ok_iff {p : Pattern} {name : Text} :
    check p name = .ok () ↔ name ∉ Keyword.reserved ∧ p.Matches name := by
  rw [← accepts_iff]
  by_cases hr : isReserved name = true <;> by_cases hp : p.accepts name = true <;>
    simp_all [check, isReserved]

end SJava.Name
