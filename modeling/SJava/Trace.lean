import SJava.Check.Program

/-!
# The trace of a run

What a run tells about itself while it checks a script. The events of a walk are
read off the states that the walk goes through, so tracing changes no answer.
-/

namespace SJava

/-- Something that happens during a run. -/
inductive Event where
  | verifying (source : Text)
  | outline (source : Text)
  | entered (depth : Nat)
  | exited (depth : Nat)
  | outlineLine (depth : Nat) (kind : Kind) (line : Text)
  | registered (m : Method)
  | bodies (source : Text)
  | enteringMethod (name : Text)
  | bodyLine (place : Place) (depth : Nat) (kind : Kind) (line : Text)
  | leftMethod (name : Text)
  | verified (source : Text) (methods : Nat)
  deriving DecidableEq, Repr

/-- How much detail an event is. -/
inductive Level where
  | debug
  | trace
  deriving DecidableEq, Repr

/-- The level as it stands in front of an event. -/
def Level.name : Level → String
  | debug => "DEBUG"
  | trace => "TRACE"

/-- The place as it stands in an event. -/
def Place.name : Place → String
  | global => "Global"
  | block => "Block"
  | methodBody => "MethodBody"

namespace Event

/-- The level of an event: single lines and blocks are for tracing. -/
def level : Event → Level
  | entered _ | exited _ | outlineLine .. | bodyLine .. => .trace
  | _ => .debug

/-- A text as it stands in an event, unquoted. -/
private def bare (s : Text) : String := String.ofList s

/-- The event in words. -/
def message : Event → String
  | verifying source => s!"verifying {bare source}"
  | outline source => s!"pass 1: global scan of {bare source}"
  | entered depth => s!"entered scope, depth {depth}"
  | exited depth => s!"exited scope, depth {depth}"
  | outlineLine depth kind line => s!"pass 1, depth {depth}: {kind.name} `{bare line}`"
  | registered m => s!"registered method {bare m.name} ({m.parameters.length} parameters)"
  | bodies source => s!"pass 2: method scan of {bare source}"
  | enteringMethod name => s!"entering method {bare name}"
  | bodyLine place depth kind line =>
    s!"pass 2, {place.name} at depth {depth}: {kind.name} `{bare line}`"
  | leftMethod name => s!"left method {bare name}"
  | verified source methods => s!"{bare source} verified, {methods} methods"

/-- The events of a walk, up to the line that is refused, if there is one. -/
def ofWalk {σ : Type} (events : σ → Text → List Event) (step : σ → Text → Except Fault σ) (s : σ) :
    List Line → List Event
  | [] => []
  | l :: rest =>
    events s l.text ++
      match step s l.text with
      | .ok s => ofWalk events step s rest
      | .error _ => []

/-- The blocks a line opens and closes. -/
def ofTrack (s : Stack) (line : Text) : List Event :=
  let opened := if Braces.opens line then s.enter else s
  (if Braces.opens line then [entered opened.depth] else []) ++
    if Braces.closes line then
      match opened.exit with
      | .ok closed => [exited closed.depth]
      | .error _ => []
    else []

/-- The events of a line in the first walk. -/
def ofOutlineLine (s : State) (line : Text) : List Event :=
  ofTrack s.stack line ++
    match s.track line with
    | .error _ => []
    | .ok (s, kind) =>
      outlineLine s.stack.depth kind line ::
        match kind, Method.ofLine line, s.outlineKind kind line with
        | .methodHeader, .ok m, .ok _ => [registered m]
        | _, _, _ => []

/-- The events of a line in the second walk. -/
def ofStep (p : Progress) (line : Text) : List Event :=
  ofTrack p.state.stack line ++
    match p.window with
    | none =>
      match p.step line with
      | .ok { window := some w, .. } => [enteringMethod w.method.name]
      | _ => []
    | some w =>
      (match p.state.track line with
        | .ok (s, kind) => [bodyLine s.stack.place s.stack.depth kind line]
        | .error _ => []) ++
      match p.step line with
      | .ok { window := none, .. } => [leftMethod w.method.name]
      | _ => []

/-- The event of the end of the lines, where a window is left that is still open. -/
def ofFinish (p : Progress) : List Event :=
  match p.window, p.finish with
  | some w, .ok _ => [leftMethod w.method.name]
  | _, _ => []

/-- The events after the outline of a script is known. -/
def ofBodies (source : Text) (script : Script) (outline : State) : List Event :=
  let start : Progress := { state := outline }
  bodies source :: ofWalk ofStep Progress.step start script.lines ++
    (match start.steps script.lines with
      | .ok p => ofFinish p
      | .error _ => []) ++
    match script.bodies outline with
    | .ok s => [verified source s.methods.size]
    | .error _ => []

/-- The events of checking a script. -/
def ofScript (source : Text) (script : Script) : List Event :=
  match script.checkBalance with
  | .error _ => []
  | .ok _ =>
    outline source :: ofWalk ofOutlineLine State.outlineLine {} script.lines ++
      match script.outline with
      | .ok s => ofBodies source script s
      | .error _ => []

/-- The events of a whole run over what a source holds. -/
def ofRun (marker source : Text) (c : Content) : List Event :=
  verifying source ::
    match c.script marker with
    | .ok script => ofScript source script
    | .error _ => []

end Event

end SJava
