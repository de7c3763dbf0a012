import SJava.Check.Program
import SJava.Proofs.Effects
import SJava.Proofs.Walking

/-!
# The two walks, line by line

What one line can do in each of the two walks, as one relation for each walk with
one case for every outcome, so that nothing else has to take a walk apart:

* `State.outlineLine_eq_ok`: a line of the first walk (`State.Outlined`);
* `Progress.step_eq_ok`: a line of the second walk (`Progress.Stepped`), with
  `Stack.Checked` for the statement on a line inside a method, and back
  (`Progress.Stepped.step_eq`).
-/

namespace SJava

/-! ## The first walk -/

namespace State

theorem track_eq_ok_iff {s t : State} {line : Text} {kind : Kind} :
    s.track line = .ok (t, kind) ↔
      ∃ u, s.stack.track line = .ok u ∧ Kind.of line = .ok kind ∧ t = { s with stack := u } := by
  unfold track
  simp only [bind_eq_ok_iff, pure_eq_ok_iff, Prod.mk.injEq]
  constructor
  · rintro ⟨u, hu, k, hk, rfl, rfl⟩
    exact ⟨u, hu, hk, rfl⟩
  · rintro ⟨u, hu, hk, rfl⟩
    exact ⟨u, hu, kind, hk, rfl, rfl⟩

/-- What a line of the first walk does. `u` is the stack behind its braces. -/
inductive Outlined (s : State) (line : Text) : Kind → State → Prop
  | header {u : Stack} {m : Method} (tracked : s.stack.track line = .ok u)
      (parsed : Method.ofLine line = .ok m) (fresh : m.name ∉ s.methods) :
      Outlined s line .methodHeader { stack := u, methods := s.methods.insert m.name m }
  | declared {u t : Stack} (tracked : s.stack.track line = .ok u) (atGlobal : u.depth = 1)
      (done : u.declareLine line = .ok t) : Outlined s line .declaration { s with stack := t }
  | assigned {u t : Stack} (tracked : s.stack.track line = .ok u) (atGlobal : u.depth = 1)
      (done : u.assignLine line = .ok t) : Outlined s line .assignment { s with stack := t }
  | passed {u : Stack} {kind : Kind} (tracked : s.stack.track line = .ok u)
      (notHeader : kind ≠ .methodHeader)
      (inside : kind ≠ .condition → kind ≠ .scopeEnd → u.depth ≠ 1)
      (placed : kind = .condition → u.depth ≠ 2) : Outlined s line kind { s with stack := u }

theorem outlineLine_eq_ok {s t : State} {line : Text} (h : s.outlineLine line = .ok t) :
    ∃ kind, Kind.of line = .ok kind ∧ s.Outlined line kind t := by
  obtain ⟨⟨s', kind⟩, htrack, h⟩ := bind_eq_ok_iff.1 h
  obtain ⟨u, hu, hkind, rfl⟩ := track_eq_ok_iff.1 htrack
  have hglobal : u.isGlobal = true ↔ u.depth = 1 := Stack.isGlobal_iff
  refine ⟨kind, hkind, ?_⟩
  cases kind with
  | methodHeader =>
    obtain ⟨m, hm, h⟩ := bind_eq_ok_iff.1 h
    dsimp only at h
    split at h
    · exact absurd h throw_ne_ok
    · next hfresh =>
      cases h
      exact .header hu hm hfresh
  | condition =>
    simp only [outlineKind] at h
    split at h
    · cases h
    · next hd =>
      cases h
      exact .passed hu (by decide) (fun h => absurd rfl h) fun _ => hd
  | returnStatement | call =>
    simp only [outlineKind] at h
    split at h
    · cases h
    · next hg =>
      cases h
      exact .passed hu (by decide) (fun _ _ => hg ∘ hglobal.2) Kind.noConfusion
  | declaration =>
    simp only [outlineKind] at h
    split at h
    · next hg =>
      obtain ⟨stack, hstack, rfl⟩ := map_eq_ok_iff.1 h
      exact .declared hu (hglobal.1 hg) hstack
    · next hg =>
      cases h
      exact .passed hu (by decide) (fun _ _ => hg ∘ hglobal.2) Kind.noConfusion
  | assignment =>
    simp only [outlineKind] at h
    split at h
    · next hg =>
      obtain ⟨stack, hstack, rfl⟩ := map_eq_ok_iff.1 h
      exact .assigned hu (hglobal.1 hg) hstack
    · next hg =>
      cases h
      exact .passed hu (by decide) (fun _ _ => hg ∘ hglobal.2) Kind.noConfusion
  | scopeEnd =>
    cases h
    exact .passed hu (by decide) (fun _ h => absurd rfl h) Kind.noConfusion

end State

theorem Script.outline_eq_ok_iff {script : Script} {outline : State} :
    script.outline = .ok outline ↔
      State.outlineLines {} script.lines = .ok outline ∧ outline.stack.depth = 1 := by
  unfold Script.outline
  rw [bind_eq_ok_iff, ← Stack.isGlobal_iff]
  constructor
  · rintro ⟨s, hs, h⟩
    split at h
    · next hg =>
      cases h
      exact ⟨hs, hg⟩
    · exact absurd h throw_ne_ok
  · rintro ⟨hs, hg⟩
    exact ⟨outline, hs, by rw [if_pos hg]; rfl⟩

/-! ## The second walk -/

/-- A window remembers the last of the kinds it has met. -/
theorem Window.foldl_push (kinds : List Kind) (w : Window) :
    (kinds.foldl Window.push w).globals = w.globals ∧
      (kinds.foldl Window.push w).previous = kinds.getLast?.or w.previous := by
  induction kinds generalizing w with
  | nil => exact ⟨rfl, rfl⟩
  | cons kind kinds ih =>
    obtain ⟨hglobals, hprevious⟩ := ih (w.push kind)
    refine ⟨hglobals, hprevious.trans ?_⟩
    rw [List.getLast?_cons]
    cases kinds.getLast? <;> rfl

/-- The check of a statement inside a method, and what it does to the stack. -/
inductive Stack.Checked (methods : Registry) (line : Text) (u : Stack) : Kind → Stack → Prop
  | condition (done : u.checkCondition line = .ok ()) : Checked methods line u .condition u
  | call (done : u.checkCall methods line = .ok ()) : Checked methods line u .call u
  | declaration {t : Stack} (done : u.declareLine line = .ok t) :
      Checked methods line u .declaration t
  | assignment {t : Stack} (done : u.assignLine line = .ok t) :
      Checked methods line u .assignment t
  | returnStatement : Checked methods line u .returnStatement u
  | scopeEnd : Checked methods line u .scopeEnd u

theorem State.bodyLine_eq_ok {s t : State} {line : Text} {kind : Kind}
    (h : s.bodyLine line = .ok (t, kind)) :
    ∃ u stack, Kind.of line = .ok kind ∧ s.stack.track line = .ok u ∧
      u.Checked s.methods line kind stack ∧ t = { s with stack } := by
  obtain ⟨⟨s', k⟩, htrack, h⟩ := bind_eq_ok_iff.1 h
  obtain ⟨u, hu, hkind, rfl⟩ := State.track_eq_ok_iff.1 htrack
  cases k with
  | methodHeader => exact absurd h throw_ne_ok
  | condition | call =>
    obtain ⟨_, hdone, h⟩ := bind_eq_ok_iff.1 h
    cases h
    first
      | exact ⟨u, u, hkind, hu, .condition hdone, rfl⟩
      | exact ⟨u, u, hkind, hu, .call hdone, rfl⟩
  | declaration =>
    obtain ⟨stack, hdone, h⟩ := bind_eq_ok_iff.1 h
    cases h
    exact ⟨u, stack, hkind, hu, .declaration hdone, rfl⟩
  | assignment =>
    obtain ⟨stack, hdone, h⟩ := bind_eq_ok_iff.1 h
    cases h
    exact ⟨u, stack, hkind, hu, .assignment hdone, rfl⟩
  | returnStatement =>
    cases h
    exact ⟨u, u, hkind, hu, .returnStatement, rfl⟩
  | scopeEnd =>
    cases h
    exact ⟨u, u, hkind, hu, .scopeEnd, rfl⟩

/-- A statement in order is a line in order. -/
theorem State.bodyLine_of_checked {s : State} {u t : Stack} {line : Text} {kind : Kind}
    (hkind : Kind.of line = .ok kind) (htrack : s.stack.track line = .ok u)
    (h : u.Checked s.methods line kind t) : s.bodyLine line = .ok ({ s with stack := t }, kind) := by
  have htracked := State.track_eq_ok_iff.2 ⟨u, htrack, hkind, rfl⟩
  rw [bodyLine, htracked, ok_bind]
  cases h with
  | condition done | call done | declaration done | assignment done =>
    simp only [done]
    rfl
  | returnStatement | scopeEnd => rfl

namespace Progress

/-- What a line of the second walk does. `u` is the stack behind its braces. -/
inductive Stepped (p : Progress) (line : Text) : Kind → Progress → Prop
  | enter {u t : Stack} {m : Method} (outside : p.window = none)
      (tracked : p.state.stack.track line = .ok u) (parsed : Method.ofLine line = .ok m)
      (entered : u.enterMethod m = (t, none)) :
      Stepped p line .methodHeader
        { state := { p.state with stack := t }
          window := some { method := m, globals := t.globals } }
  | skip {u : Stack} {kind : Kind} (outside : p.window = none)
      (tracked : p.state.stack.track line = .ok u) (notHeader : kind ≠ .methodHeader) :
      Stepped p line kind { state := { p.state with stack := u } }
  | stay {w : Window} {u t : Stack} {kind : Kind} (inside : p.window = some w)
      (tracked : p.state.stack.track line = .ok u)
      (checked : u.Checked p.state.methods line kind t) (goesOn : t.isInsideMethod = true) :
      Stepped p line kind
        { state := { p.state with stack := t }, window := some (w.push kind) }
  | leave {w : Window} {u t : Stack} {kind : Kind} (inside : p.window = some w)
      (tracked : p.state.stack.track line = .ok u)
      (checked : u.Checked p.state.methods line kind t) (ends : t.isInsideMethod = false)
      (returned : w.previous = some .returnStatement) :
      Stepped p line kind
        { state := { p.state with stack := { t with globals := w.globals } } }

theorem close_eq_ok_iff {s : State} {w : Window} {q : Progress} :
    close s w = .ok q ↔ w.beforePrevious = some .returnStatement ∧
      q = { state := { s with stack := { s.stack with globals := w.globals } } } := by
  unfold close
  split <;> simp_all [eq_comm]

theorem step_eq_ok {p q : Progress} {line : Text} (h : p.step line = .ok q) :
    ∃ kind, Kind.of line = .ok kind ∧ p.Stepped line kind q := by
  cases hw : p.window with
  | none =>
    simp only [step, hw] at h
    obtain ⟨⟨s', kind⟩, htrack, h⟩ := bind_eq_ok_iff.1 h
    obtain ⟨u, hu, hkind, rfl⟩ := State.track_eq_ok_iff.1 htrack
    refine ⟨kind, hkind, ?_⟩
    dsimp only at h
    split at h
    · next hheader =>
      subst hheader
      obtain ⟨m, hm, h⟩ := bind_eq_ok_iff.1 h
      split at h
      · next t ht =>
        cases h
        exact .enter hw hu hm ht
      · exact absurd h throw_ne_ok
    · next hheader =>
      cases h
      exact .skip hw hu hheader
  | some w =>
    simp only [step, hw] at h
    obtain ⟨⟨s', kind⟩, hbody, h⟩ := bind_eq_ok_iff.1 h
    obtain ⟨u, t, hkind, hu, hchecked, rfl⟩ := State.bodyLine_eq_ok hbody
    refine ⟨kind, hkind, ?_⟩
    dsimp only at h
    split at h
    · next hinside =>
      cases h
      exact .stay hw hu hchecked hinside
    · next hinside =>
      obtain ⟨hreturned, rfl⟩ := close_eq_ok_iff.1 h
      exact .leave (w := w) hw hu hchecked (Bool.eq_false_iff.2 hinside) hreturned

/-- A line that can do what the relation says does it. -/
theorem Stepped.step_eq {p q : Progress} {line : Text} {kind : Kind} (hkind : Kind.of line = .ok kind)
    (h : p.Stepped line kind q) : p.step line = .ok q := by
  cases h with
  | enter outside tracked parsed entered =>
    have htracked := State.track_eq_ok_iff.2 ⟨_, tracked, hkind, rfl⟩
    simp only [step, outside, outerLine, htracked, ok_bind, if_true, parsed, entered]
    rfl
  | skip outside tracked notHeader =>
    have htracked := State.track_eq_ok_iff.2 ⟨_, tracked, hkind, rfl⟩
    simp only [step, outside, outerLine, htracked, ok_bind, if_neg notHeader]
    rfl
  | stay inside tracked checked goesOn =>
    simp only [step, inside, innerLine, State.bodyLine_of_checked hkind tracked checked, ok_bind, goesOn,
      if_true]
    rfl
  | leave inside tracked checked ends returned =>
    simp only [step, inside, innerLine, State.bodyLine_of_checked hkind tracked checked, ok_bind, ends]
    exact close_eq_ok_iff.2 ⟨returned, rfl⟩

end Progress

theorem Script.bodies_eq_ok_iff {script : Script} {outline s : State} :
    script.bodies outline = .ok s ↔
      ∃ p, Progress.steps { state := outline } script.lines = .ok p ∧ p.finish = .ok s := by
  unfold Script.bodies
  rw [bind_eq_ok_iff]
  refine exists_congr fun p => and_congr_right fun _ => ?_
  cases p.finish <;> simp [Except.mapError]

theorem Script.verify_eq_ok_iff {script : Script} {s : State} :
    script.verify = .ok s ↔
      script.checkBalance = .ok () ∧
        ∃ outline, script.outline = .ok outline ∧ script.bodies outline = .ok s := by
  unfold Script.verify
  simp only [bind_eq_ok_iff, exists_const_unit]

end SJava
