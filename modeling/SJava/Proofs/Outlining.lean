import SJava.Proofs.Depth
import SJava.Proofs.Structured.Refinement

/-!
# The outline, part by part

The first walk does three things at once that have nothing to do with each other:
it sees whether every line has a form and may stand at its depth (`PlacedAll`), it
carries out the lines behind which the depth is 1 (`globalLines`, `applyLine`), and
it registers the methods (`registerLine`).

* `Tree.outlined_within_iff`: the walk is these three;
* `PlacedAll_append`, `globalLines_append`: each of them over lines put together.
-/

namespace SJava

/-! ## Place -/

/-- A line that has a form, closes no more than is open, and may stand at depth
`d`. -/
def Placed (d : Nat) (line : Text) : Prop :=
  ∃ kind, Kind.of line = .ok kind ∧ 0 < Braces.shift line d ∧
    (kind = .condition → Braces.shift line d ≠ 2) ∧
    (kind = .call ∨ kind = .returnStatement → Braces.shift line d ≠ 1)

theorem Placed.shift_pos {d : Nat} {line : Text} (h : Placed d line) : 0 < Braces.shift line d := by
  obtain ⟨_, -, hshift, -⟩ := h
  exact hshift

/-- Lines that are placed, the first of them at depth `d`. -/
def PlacedAll (d : Nat) : List Text → Prop
  | [] => True
  | line :: rest => Placed d line ∧ PlacedAll (Braces.shift line d) rest

theorem PlacedAll_append {d : Nat} {xs ys : List Text} :
    PlacedAll d (xs ++ ys) ↔ PlacedAll d xs ∧ PlacedAll (depthAfter d xs) ys := by
  induction xs generalizing d with
  | nil => simp [PlacedAll]
  | cons line xs ih => simp [PlacedAll, ih, and_assoc]

/-- The lines behind which the depth is 1, if it is `d` in front of all. -/
def globalLines (d : Nat) : List Text → List Text
  | [] => []
  | line :: rest =>
    let behind := globalLines (Braces.shift line d) rest
    if Braces.shift line d = 1 then line :: behind else behind

theorem globalLines_append (d : Nat) (xs ys : List Text) :
    globalLines d (xs ++ ys) = globalLines d xs ++ globalLines (depthAfter d xs) ys := by
  induction xs generalizing d with
  | nil => rfl
  | cons line xs ih =>
    simp only [List.cons_append, globalLines, ih, depthAfter_cons]
    split <;> rfl

/-! ## Effects -/

variable {globals : Scope} {methods : Registry} {line : Text}

/-- What a line of that kind, outside of all methods, does to the global
variables. -/
def applyKind (globals : Scope) (line : Text) : Kind → Option Scope
  | .declaration => (Stack.declareLine { globals } line).toOption.map (·.globals)
  | .assignment => (Stack.assignLine { globals } line).toOption.map (·.globals)
  | _ => some globals

/-- What a line outside of all methods does to the global variables. -/
def applyLine (globals : Scope) (line : Text) : Option Scope :=
  match Kind.of line with
  | .ok kind => applyKind globals line kind
  | .error _ => some globals

/-- Enters a method under its own name, which must be free. -/
def register? (methods : Registry) (m : Method) : Option Registry :=
  if m.name ∈ methods then none else some (methods.insert m.name m)

/-- What a line of that kind does to the methods. -/
def registerKind (methods : Registry) (line : Text) (kind : Kind) : Option Registry :=
  if kind = .methodHeader then (Method.ofLine line).toOption.bind (register? methods)
  else some methods

/-- What a line does to the methods. -/
def registerLine (methods : Registry) (line : Text) : Option Registry :=
  match Kind.of line with
  | .ok kind => registerKind methods line kind
  | .error _ => some methods

/-- A line declares globals, or assigns to them, or leaves them alone. -/
theorem applyLine_cases (line : Text) :
    (∀ globals, applyLine globals line = some globals) ∨
      (∀ globals, applyLine globals line =
        (Stack.declareLine { globals } line).toOption.map (·.globals)) ∨
        ∀ globals, applyLine globals line =
          (Stack.assignLine { globals } line).toOption.map (·.globals) := by
  unfold applyLine
  cases Kind.of line with
  | error fault => exact .inl fun _ => rfl
  | ok kind =>
    cases kind with
    | declaration => exact .inr (.inl fun _ => rfl)
    | assignment => exact .inr (.inr fun _ => rfl)
    | _ => exact .inl fun _ => rfl

/-- A line registers a method, or none, or cannot. -/
theorem registerLine_cases (line : Text) :
    (∀ methods, registerLine methods line = some methods) ∨
      (∀ methods, registerLine methods line = none) ∨
        ∃ m, ∀ methods, registerLine methods line = register? methods m := by
  unfold registerLine registerKind
  cases Kind.of line with
  | error fault => exact .inl fun _ => rfl
  | ok kind =>
    by_cases hkind : kind = .methodHeader
    · simp only [if_pos hkind]
      cases Method.ofLine line with
      | error fault => exact .inr (.inl fun _ => rfl)
      | ok m => exact .inr (.inr ⟨m, fun _ => rfl⟩)
    · exact .inl fun _ => if_neg hkind

theorem foldlM_globalLines_cons (d : Nat) (line : Text) (rest : List Text) (globals : Scope) :
    (globalLines d (line :: rest)).foldlM applyLine globals =
      (if Braces.shift line d = 1 then applyLine globals line else some globals).bind
        ((globalLines (Braces.shift line d) rest).foldlM applyLine) := by
  rw [globalLines]
  split <;> rfl

theorem toOption_register (s : State) (line : Text) :
    (s.register line).toOption = ((Method.ofLine line).toOption.bind (register? s.methods)).map
      fun methods => { s with methods } := by
  rw [State.register, toOption_bind]
  cases Method.ofLine line with
  | error fault => rfl
  | ok m =>
    show (if m.name ∈ s.methods then (throw _ : Except Fault State) else _).toOption =
      (register? s.methods m).map _
    rw [register?]
    split <;> rfl

/-- Outside of all blocks a stack is its table of globals. -/
theorem Stack.eq_globals {s : Stack} (hdepth : s.depth = 1) (hactive : s.active = none) :
    s = { globals := s.globals } := by
  obtain ⟨globals, blocks, active⟩ := s
  obtain rfl : blocks = [] := List.length_eq_zero_iff.1 (Nat.succ_injective hdepth)
  obtain rfl : active = none := hactive
  rfl

theorem Stack.declareLine_globals {t : Stack}
    (h : Stack.declareLine { globals } line = .ok t) : t = { globals := t.globals } :=
  Stack.eq_globals (Stack.declareLine_keeps h).1 (Stack.declareLine_keeps h).2

theorem Stack.assignLine_globals {t : Stack}
    (h : Stack.assignLine { globals } line = .ok t) : t = { globals := t.globals } :=
  Stack.eq_globals (Stack.assignLine_keeps h).1 (Stack.assignLine_keeps h).2

theorem Stack.globals_declareLine {globals' : Scope} :
    (Stack.declareLine { globals } line).toOption.map (·.globals) = some globals' ↔
      Stack.declareLine { globals } line = .ok { globals := globals' } := by
  cases h : Stack.declareLine { globals } line with
  | error fault => simp [Except.toOption]
  | ok t =>
    rw [Stack.declareLine_globals h]
    simp [Except.toOption]

theorem Stack.globals_assignLine {globals' : Scope} :
    (Stack.assignLine { globals } line).toOption.map (·.globals) = some globals' ↔
      Stack.assignLine { globals } line = .ok { globals := globals' } := by
  cases h : Stack.assignLine { globals } line with
  | error fault => simp [Except.toOption]
  | ok t =>
    rw [Stack.assignLine_globals h]
    simp [Except.toOption]

/-! ## The walk -/

namespace Tree

/-- What is known of a program within `d - 1` blocks that declare nothing. -/
def within (d : Nat) (known : Scope × Registry) : State :=
  { stack := { globals := known.1, blocks := List.replicate (d - 1) ∅ }, methods := known.2 }

variable {d : Nat} {known : Scope × Registry} {line : Text} {lines : List Text} {t : State}

theorem within_one (known : Scope × Registry) : within 1 known = outside known := rfl

theorem depth_within (hd : 0 < d) : (within d known).stack.depth = d := by
  simp only [within, Stack.depth, List.length_replicate]
  omega

theorem track_within (hd : 0 < d) : (within d known).stack.track line =
    if 0 < Braces.shift line d then .ok (within (Braces.shift line d) known).stack
    else .error .noScopeToExit := by
  obtain ⟨n, rfl⟩ := Nat.exists_eq_add_of_lt hd
  cases hopens : Braces.opens line <;> cases hcloses : Braces.closes line <;>
    simp only [Stack.track, Braces.shift, hopens, hcloses]
  case false.true => cases n <;> rfl
  all_goals rfl

theorem isGlobal_within (hd : 0 < d) : (within d known).stack.isGlobal = decide (d = 1) := by
  rw [Bool.eq_iff_iff, Stack.isGlobal_iff, depth_within hd, decide_eq_true_iff]

/-- A statement that the first walk carries out at depth 1 only. -/
theorem toOption_atGlobal (known : Scope × Registry) (hd : 0 < d) (act : Stack → Except Fault Stack)
    (hact : ∀ t, act { globals := known.1 } = .ok t → t = { globals := t.globals }) :
    (if (within d known).stack.isGlobal then
        (act (within d known).stack).map fun stack => { within d known with stack }
      else .ok (within d known)).toOption =
      (if d = 1 then (act { globals := known.1 }).toOption.map (·.globals) else some known.1).map
        fun globals => within d (globals, known.2) := by
  rw [isGlobal_within hd]
  by_cases h1 : d = 1
  · subst h1
    show ((act { globals := known.1 }).map fun stack => { within 1 known with stack }).toOption = _
    rw [toOption_map, if_pos rfl]
    cases h : act { globals := known.1 } with
    | error fault => rfl
    | ok u =>
      show some { within 1 known with stack := u } = some _
      rw [hact u h]
      rfl
  · rw [if_neg h1, if_neg (by simpa using h1)]
    rfl

/-- What the first walk does to a line of a kind, where the depth behind its
braces is `d`. -/
theorem toOption_outlineKind_iff {kind : Kind} (hd : 0 < d) :
    ((within d known).outlineKind kind line).toOption = some t ↔
      ((kind = .condition → d ≠ 2) ∧ (kind = .call ∨ kind = .returnStatement → d ≠ 1)) ∧
        ∃ globals methods,
          (if d = 1 then applyKind known.1 line kind else some known.1) = some globals ∧
          registerKind known.2 line kind = some methods ∧ t = within d (globals, methods) := by
  cases kind with
  | declaration =>
    have h := toOption_atGlobal known hd (·.declareLine line) fun _ => Stack.declareLine_globals
    rw [show ((within d known).outlineKind .declaration line).toOption = _ from h, Option.map_eq_some_iff]
    simp [applyKind, registerKind, eq_comm (a := t)]
  | assignment =>
    have h := toOption_atGlobal known hd (·.assignLine line) fun _ => Stack.assignLine_globals
    rw [show ((within d known).outlineKind .assignment line).toOption = _ from h, Option.map_eq_some_iff]
    simp [applyKind, registerKind, eq_comm (a := t)]
  | methodHeader =>
    rw [show ((within d known).outlineKind .methodHeader line).toOption = _ from toOption_register _ line,
      Option.map_eq_some_iff]
    simp [applyKind, registerKind, eq_comm (a := t), within]
  | condition =>
    rw [State.outlineKind, depth_within hd]
    by_cases h2 : d = 2 <;> simp [h2, applyKind, registerKind, eq_comm, Except.toOption]
  | call | returnStatement =>
    rw [State.outlineKind, isGlobal_within hd]
    by_cases h1 : d = 1 <;> simp [h1, applyKind, registerKind, eq_comm, Except.toOption]
  | scopeEnd => simp [State.outlineKind, applyKind, registerKind, eq_comm, Except.toOption]

/-- One line of the first walk, part by part. -/
theorem toOption_outlineLine_iff (hd : 0 < d) :
    ((within d known).outlineLine line).toOption = some t ↔
      Placed d line ∧ ∃ globals methods,
        (if Braces.shift line d = 1 then applyLine known.1 line else some known.1) = some globals ∧
        registerLine known.2 line = some methods ∧
        t = within (Braces.shift line d) (globals, methods) := by
  have hline : ((within d known).outlineLine line).toOption =
      ((within d known).track line).toOption.bind fun p => (p.1.outlineKind p.2 line).toOption :=
    toOption_bind _ _
  rw [hline, State.track, track_within hd, Placed, applyLine, registerLine]
  by_cases hshift : 0 < Braces.shift line d
  · rw [if_pos hshift]
    cases Kind.of line with
    | error fault => simp [Except.toOption, bind, Except.bind]
    | ok kind =>
      refine (toOption_outlineKind_iff hshift).trans ?_
      simp [hshift, and_assoc]
  · simp [hshift, Except.toOption, bind, Except.bind]

/-- The first walk, part by part. -/
theorem outlined_within_iff (hd : 0 < d) :
    walked State.outlineLine (within d known) lines = some t ↔
      PlacedAll d lines ∧ ∃ globals methods,
        (globalLines d lines).foldlM applyLine known.1 = some globals ∧
        lines.foldlM registerLine known.2 = some methods ∧
        t = within (depthAfter d lines) (globals, methods) := by
  induction lines generalizing d known with
  | nil => simp [walked, PlacedAll, globalLines, eq_comm]
  | cons line lines ih =>
    rw [walked_cons, Option.bind_eq_bind, Option.bind_eq_some_iff]
    constructor
    · rintro ⟨s, hs, h⟩
      obtain ⟨hplaced, g, r, hg, hr, rfl⟩ := (toOption_outlineLine_iff hd).1 hs
      obtain ⟨hall, g', r', hg', hr', rfl⟩ := (ih hplaced.shift_pos).1 h
      refine ⟨⟨hplaced, hall⟩, g', r', ?_, ?_, rfl⟩
      · rw [foldlM_globalLines_cons, hg]
        exact hg'
      · rw [List.foldlM_cons, hr]
        exact hr'
    · rintro ⟨⟨hplaced, hall⟩, g', r', hg', hr', rfl⟩
      rw [foldlM_globalLines_cons, Option.bind_eq_some_iff] at hg'
      rw [List.foldlM_cons, Option.bind_eq_bind, Option.bind_eq_some_iff] at hr'
      obtain ⟨g, hg, hg'⟩ := hg'
      obtain ⟨r, hr, hr'⟩ := hr'
      exact ⟨_, (toOption_outlineLine_iff hd).2 ⟨hplaced, g, r, hg, hr, rfl⟩,
        (ih hplaced.shift_pos).2 ⟨hall, g', r', hg', hr', rfl⟩⟩

end Tree

end SJava
