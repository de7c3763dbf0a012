import SJava.Check.Bodies

/-!
# Checking a program

A script is legal when its braces balance, its outline is in order and so are
the bodies of its methods. The first failure decides.
-/

namespace SJava

namespace Script

/-- The braces of all lines together have to balance. -/
def checkBalance (script : Script) : Except Failure Unit :=
  if script.lines.foldl (fun n l => n + Braces.balance l.text) 0 = 0 then .ok ()
  else .error ⟨.unclosedScope, script.length⟩

/-- Checks a script; a legal one gives its globals and methods. -/
def verify (script : Script) : Except Failure State := do
  script.checkBalance
  let outline ← script.outline
  script.bodies outline

end Script

/-- Why a line cannot be read. -/
def invalidUtf8 : Fault := .io "stream did not contain valid UTF-8".toList

/-- Checks what a source holds. A line that cannot be read comes before all
else that is wrong. -/
def Content.verify (marker : Text) (c : Content) : Except Failure State :=
  match c.script marker with
  | .ok script => script.verify
  | .error before => .error ⟨invalidUtf8, before⟩

end SJava
