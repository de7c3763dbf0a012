import SJava.Check.Statement
import SJava.Kind
import SJava.Source

/-!
# The outline of a program

The first walk over the lines registers every method and carries out the
declarations and assignments outside of all methods. Of the lines inside, it
checks no more than their form.
-/

namespace SJava

/-- A fault, and the number of the line that has it. -/
structure Failure where
  fault : Fault
  line : Nat
  deriving DecidableEq, Repr

/-- Takes some lines one after the other. The first of them that the step refuses ends the
walk, which fails at its number. -/
def walk {σ : Type} (step : σ → Text → Except Fault σ) (s : σ) (ls : List Line) : Except Failure σ :=
  ls.foldlM (fun s l => (step s l.text).mapError fun fault => ⟨fault, l.number⟩) s

/-- What is known of a program so far. -/
structure State where
  stack : Stack := {}
  methods : Registry := ∅

namespace State

/-- Opens or closes a block where the line does, and tells the kind of the
line. -/
def track (s : State) (line : Text) : Except Fault (State × Kind) := do
  let stack ← s.stack.track line
  let kind ← Kind.of line
  return ({ s with stack }, kind)

/-- Registers the method that a header line declares. -/
def register (s : State) (line : Text) : Except Fault State := do
  let m ← Method.ofLine line
  if m.name ∈ s.methods then throw (.methodAlreadyDeclared m.name)
  return { s with methods := s.methods.insert m.name m }

/-- Does what a line of that kind does to the outline. The block of a condition
is open already. -/
def outlineKind (s : State) (kind : Kind) (line : Text) : Except Fault State :=
  match kind with
  | .condition => if s.stack.depth = 2 then .error .conditionInGlobalScope else .ok s
  | .call | .returnStatement => if s.stack.isGlobal then .error .statementInGlobalScope else .ok s
  | .methodHeader => s.register line
  | .declaration =>
    if s.stack.isGlobal then (s.stack.declareLine line).map fun stack => { s with stack } else .ok s
  | .assignment =>
    if s.stack.isGlobal then (s.stack.assignLine line).map fun stack => { s with stack } else .ok s
  | .scopeEnd => .ok s

/-- One line of the first walk. -/
def outlineLine (s : State) (line : Text) : Except Fault State := do
  let (s, kind) ← s.track line
  s.outlineKind kind line

/-- The first walk over some lines. -/
def outlineLines (s : State) (ls : List Line) : Except Failure State := walk outlineLine s ls

end State

/-- The outline of a script, in which every block must be closed. -/
def Script.outline (script : Script) : Except Failure State := do
  let s ← State.outlineLines {} script.lines
  if s.stack.isGlobal then return s else throw ⟨.unclosedScope, script.length⟩

end SJava
