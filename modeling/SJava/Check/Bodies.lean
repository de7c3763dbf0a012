import SJava.Check.Outline

/-!
# The bodies of methods

The second walk over the lines checks every statement inside a method against
the globals and methods of the outline. A method is checked within a window that
opens at its header and closes with its block; the last statement in it must be
a return. What the body assigns to globals is forgotten when the window closes.
-/

namespace SJava

/-- A method being checked: the globals to go back to afterwards, and the kinds
of the last two lines in its body. -/
structure Window where
  method : Method
  globals : Scope
  previous : Option Kind := none
  beforePrevious : Option Kind := none

/-- The window after one more line. -/
def Window.push (w : Window) (kind : Kind) : Window :=
  { w with previous := some kind, beforePrevious := w.previous }

/-- One line inside a method. -/
def State.bodyLine (s : State) (line : Text) : Except Fault (State × Kind) := do
  let (s, kind) ← s.track line
  match kind with
  | .methodHeader => throw .nestedMethod
  | .condition => s.stack.checkCondition line; return (s, kind)
  | .call => s.stack.checkCall s.methods line; return (s, kind)
  | .declaration => return ({ s with stack := ← s.stack.declareLine line }, kind)
  | .assignment => return ({ s with stack := ← s.stack.assignLine line }, kind)
  | .returnStatement | .scopeEnd => return (s, kind)

/-- How far the second walk has come. -/
structure Progress where
  state : State
  window : Option Window := none

namespace Progress

/-- One line outside of all windows; a method header opens one. -/
def outerLine (s : State) (line : Text) : Except Fault Progress := do
  let (s, kind) ← s.track line
  if kind = .methodHeader then
    let method ← Method.ofLine line
    match s.stack.enterMethod method with
    | (stack, none) =>
      return { state := { s with stack }, window := some { method, globals := stack.globals } }
    | (_, some fault) => throw fault
  else return { state := s }

/-- Closes a window. The closing brace is its last line, a return has to be the
one before. -/
def close (s : State) (w : Window) : Except Fault Progress :=
  if w.beforePrevious = some .returnStatement then
    .ok { state := { s with stack := { s.stack with globals := w.globals } } }
  else .error (.missingReturn w.method.name)

/-- One line inside a window, which closes with the block of the method. -/
def innerLine (s : State) (w : Window) (line : Text) : Except Fault Progress := do
  let (s, kind) ← s.bodyLine line
  let w := w.push kind
  if s.stack.isInsideMethod then return { state := s, window := some w } else close s w

/-- One line of the second walk. -/
def step (p : Progress) (line : Text) : Except Fault Progress :=
  match p.window with
  | none => outerLine p.state line
  | some w => innerLine p.state w line

/-- The second walk over some lines. -/
def steps (p : Progress) (ls : List Line) : Except Failure Progress := walk step p ls

/-- The end of the lines, which closes a window that is still open. -/
def finish (p : Progress) : Except Fault State :=
  match p.window with
  | none => .ok p.state
  | some w => (close p.state w).map (·.state)

end Progress

/-- Checks the bodies of all methods in a script whose outline is known. -/
def Script.bodies (script : Script) (outline : State) : Except Failure State := do
  let p ← Progress.steps { state := outline } script.lines
  p.finish.mapError fun fault => ⟨fault, script.length⟩

end SJava
