import SJava.Proofs.Values

/-!
# Initializing more variables

A variable that has a value can be used wherever one without can. So of two states that
differ in what their variables hold, the second with more of them initialized, the
second goes through all lines that the first goes through, and stays ahead of it:

* `State.outlineKinds_eq_ok_iff`: the kinds of lines are a matter of the lines alone;
* `Progress.steps_alike`: lines of the second walk, with the windows they open and
  close;
* `State.more_initialized_accepts`: all three runs.
-/

namespace SJava

/-- What the first of two runs reaches, the second reaches too. -/
theorem Outcomes.exists_of_ok {α β ε : Type} {c : Comparison} {R : α → β → Prop} {x : Except ε α}
    {y : Except ε β} (h : Outcomes c R x y) {a : α} (hx : x = .ok a) : ∃ b, y = .ok b ∧ R a b := by
  cases h with
  | ok related =>
    cases hx
    exact ⟨_, rfl, related⟩
  | error | mended => cases hx

/-! ## Kinds in the first walk -/

namespace State

/-- One line of the first walk, with its kind. -/
def outlineWithKind (s : State) (line : Text) : Except Fault (State × Kind) := do
  let (s, kind) ← s.track line
  return (← s.outlineKind kind line, kind)

/-- Lines of the first walk, with the kinds of all of them. -/
def outlineKinds (s : State) (ls : List Line) : Except Failure (State × List Kind) :=
  walkWith outlineWithKind s ls

theorem outlineLine_eq_map (s : State) (line : Text) :
    s.outlineLine line = (s.outlineWithKind line).map Prod.fst := by
  rw [outlineLine, outlineWithKind]
  cases s.track line with
  | error fault => rfl
  | ok p =>
    show p.1.outlineKind p.2 line = _
    simp only [ok_bind]
    cases p.1.outlineKind p.2 line <;> rfl

theorem kind_of_outlineWithKind {s t : State} {line : Text} {kind : Kind}
    (h : s.outlineWithKind line = .ok (t, kind)) : Kind.of line = .ok kind := by
  obtain ⟨⟨u, k⟩, htrack, h⟩ := bind_eq_ok_iff.1 h
  obtain ⟨_, -, h⟩ := bind_eq_ok_iff.1 h
  cases h
  obtain ⟨-, -, hkind, -⟩ := track_eq_ok_iff.1 htrack
  exact hkind

/-- The first walk tells the kinds of the lines, wherever it starts. -/
theorem outlineKinds_eq_ok_iff {s t : State} {ls : List Line} {kinds : List Kind} :
    s.outlineKinds ls = .ok (t, kinds) ↔
      s.outlineLines ls = .ok t ∧ List.Forall₂ (fun l kind => Kind.of l.text = .ok kind) ls kinds := by
  induction ls generalizing s kinds with
  | nil =>
    show Except.ok (s, []) = .ok (t, kinds) ↔ Except.ok s = .ok t ∧ _
    cases kinds <;> simp
  | cons l rest ih =>
    constructor
    · intro h
      obtain ⟨u, kind, ks, hline, hrest, rfl⟩ := walkWith_cons_eq_ok.1 h
      obtain ⟨hlines, hkinds⟩ := ih.1 hrest
      have hfirst : s.outlineLine l.text = .ok u := by
        rw [outlineLine_eq_map, hline]
        rfl
      exact ⟨walk_cons_eq_ok.2 ⟨u, hfirst, hlines⟩, .cons (kind_of_outlineWithKind hline) hkinds⟩
    · intro h
      obtain ⟨u, hfirst, hlines⟩ := walk_cons_eq_ok.1 h.1
      obtain ⟨kind, ks, hkind, hks, rfl⟩ := List.forall₂_cons_left_iff.1 h.2
      rw [outlineLine_eq_map] at hfirst
      obtain ⟨⟨v, kind'⟩, hline, rfl⟩ := map_eq_ok_iff.1 hfirst
      cases Except.ok.inj (hkind.symm.trans (kind_of_outlineWithKind hline))
      exact walkWith_cons_eq_ok.2 ⟨v, kind, ks, hline, ih.2 ⟨hlines, hks⟩, rfl⟩

end State

/-! ## The second walk -/

/-- Two windows on one method, at one place of it, that go back to globals which differ
in their values. -/
structure Window.Alike (c : Comparison) (w w' : Window) : Prop where
  method_eq : w.method = w'.method
  globals : w.globals.Alike c w'.globals
  previous_eq : w.previous = w'.previous
  beforePrevious_eq : w.beforePrevious = w'.beforePrevious

namespace Progress

/-- Two walks that have come equally far, over states that differ in the values of their
variables. -/
structure Alike (c : Comparison) (p q : Progress) : Prop where
  state : p.state.Alike c q.state
  window : Option.Rel (Window.Alike c) p.window q.window

variable {c : Comparison} {p q : Progress} {s t : State} {w w' : Window}

theorem outerLine_alike (h : s.Alike c t) (line : Text) :
    Outcomes c (Alike c) (outerLine s line) (outerLine t line) := by
  refine (State.track_alike h line).bind ?_
  rintro ⟨u, kind⟩ ⟨v, _⟩ ⟨huv, rfl⟩
  dsimp only
  split
  · refine .bind_same fun m => ?_
    have hentered := huv.stack.enterMethodWith (m := m) (fun v _ => Ty.holds_defaultValue v.ty)
      fun v _ => Ty.holds_defaultValue v.ty
    rw [← Stack.enterMethod_eq, ← Stack.enterMethod_eq] at hentered
    generalize u.stack.enterMethod m = x at hentered ⊢
    generalize v.stack.enterMethod m = y at hentered ⊢
    obtain ⟨stack, fault⟩ := x
    obtain ⟨stack', fault'⟩ := y
    obtain ⟨hstacks, rfl : fault = fault'⟩ := hentered
    cases fault with
    | none =>
      exact .ok ⟨huv.withStacks hstacks, .some
        { method_eq := rfl, globals := hstacks.globals, previous_eq := rfl, beforePrevious_eq := rfl }⟩
    | some fault => exact .error fun _ => rfl
  · exact .ok ⟨huv, .none⟩

theorem close_alike (h : s.Alike c t) (hw : w.Alike c w') :
    Outcomes c (Alike c) (close s w) (close t w') := by
  rw [close, close, hw.beforePrevious_eq, hw.method_eq]
  split
  · refine .ok ⟨h.withStacks ?_, .none⟩
    exact { globals := hw.globals, blocks := h.stack.blocks, active_eq := h.stack.active_eq }
  · exact .error fun _ => rfl

theorem innerLine_alike (h : s.Alike c t) (hw : w.Alike c w') (line : Text) :
    Outcomes c (Alike c) (innerLine s w line) (innerLine t w' line) := by
  refine (State.bodyLine_alike h line).bind ?_
  rintro ⟨u, kind⟩ ⟨v, _⟩ ⟨huv, rfl⟩
  have hpush : (w.push kind).Alike c (w'.push kind) :=
    { method_eq := hw.method_eq, globals := hw.globals, previous_eq := rfl
      beforePrevious_eq := hw.previous_eq }
  have hinside : u.stack.isInsideMethod = v.stack.isInsideMethod := by
    rw [Stack.isInsideMethod, huv.stack.active_eq, Stack.isInsideMethod]
  dsimp only
  rw [hinside]
  split
  · exact .ok ⟨huv, .some hpush⟩
  · exact close_alike huv hpush

/-- One line of the second walk, from two alike walks. -/
theorem step_alike (h : p.Alike c q) (line : Text) :
    Outcomes c (Alike c) (p.step line) (q.step line) := by
  rw [step, step]
  rcases option_rel_iff.1 h.window with ⟨hp, hq⟩ | ⟨w, w', hp, hq, hw⟩
  · rw [hp, hq]
    exact outerLine_alike h.state line
  · rw [hp, hq]
    exact innerLine_alike h.state hw line

theorem steps_alike (h : p.Alike c q) (ls : List Line) :
    Outcomes c (Alike c) (p.steps ls) (q.steps ls) :=
  walk_outcomes (fun line hpq => step_alike hpq line) h ls

end Progress

namespace State

/-- Where more variables are initialized, no more is refused: whatever lines a state
accepts, inside a method, in the first walk or from header to header in the second, a
state that differs in having more of its variables initialized accepts too, with the
same kinds of lines, and still has more of them initialized afterwards. -/
theorem more_initialized_accepts {s t : State} (h : s.Alike .more t) (ls : List Line) :
    (∀ s' kinds, s.bodyLines ls = .ok (s', kinds) →
        ∃ t', t.bodyLines ls = .ok (t', kinds) ∧ s'.Alike .more t') ∧
      (∀ s' kinds, s.outlineKinds ls = .ok (s', kinds) →
        ∃ t', t.outlineKinds ls = .ok (t', kinds) ∧ s'.Alike .more t') ∧
      ∀ p, Progress.steps { state := s } ls = .ok p →
        ∃ q, Progress.steps { state := t } ls = .ok q ∧ p.Alike .more q := by
  refine ⟨fun s' kinds hs => ?_, fun s' kinds hs => ?_, fun p hp => ?_⟩
  · obtain ⟨⟨t', kinds'⟩, ht, halike, hkinds⟩ := (bodyLines_alike h ls).exists_of_ok hs
    obtain rfl : kinds = kinds' := hkinds
    exact ⟨t', ht, halike⟩
  · obtain ⟨hlines, hkinds⟩ := outlineKinds_eq_ok_iff.1 hs
    obtain ⟨t', ht, halike⟩ := (outlineLines_alike h ls).exists_of_ok hlines
    exact ⟨t', outlineKinds_eq_ok_iff.2 ⟨ht, hkinds⟩, halike⟩
  · exact (Progress.steps_alike ⟨h, .none⟩ ls).exists_of_ok hp

/-- Whether a global has a value already makes no difference to a body and a method that
assign it first. -/
theorem more_initialized_accepts_unset :
    let s : State := { stack := { globals := (∅ : Scope).insert ['x'] ⟨['x'], .int, false, none⟩ } }
    let body : List Line := [⟨1, "x = 2;".toList⟩, ⟨2, "boolean y = x;".toList⟩]
    let method : List Line := [⟨1, "void f(final int a) \x7b".toList⟩, ⟨2, "x = a;".toList⟩,
      ⟨3, "return;".toList⟩, ⟨4, "\x7d".toList⟩]
    s.Alike .more (oneGlobal ['1']) ∧
      (∃ s' t' kinds, s.bodyLines body = .ok (s', kinds) ∧
        (oneGlobal ['1']).bodyLines body = .ok (t', kinds) ∧ s'.Alike .more t') ∧
      ∃ p q, Progress.steps { state := s } method = .ok p ∧
        Progress.steps { state := oneGlobal ['1'] } method = .ok q ∧ p.Alike .more q := by
  intro s body method
  have hvar : Variable.Alike .more ⟨['x'], .int, false, none⟩ ⟨['x'], .int, false, some ['1']⟩ :=
    { name_eq := rfl, ty_eq := rfl, isFinal_eq := rfl, initialized := nofun
      valid_left := nofun, valid_right := by rintro _ ⟨⟩; decide }
  have halike : s.Alike .more (oneGlobal ['1']) :=
    { methods_eq := rfl
      stack := { globals := Scope.alike_empty.insert hvar _, blocks := .nil, active_eq := rfl } }
  have hbody : (s.bodyLines body).toOption.isSome = true := by decide +kernel
  have hmethod : (Progress.steps { state := s } method).toOption.isSome = true := by decide +kernel
  obtain ⟨⟨s', kinds⟩, hs⟩ := exists_eq_ok_iff.2 hbody
  obtain ⟨p, hp⟩ := exists_eq_ok_iff.2 hmethod
  obtain ⟨t', ht, hst⟩ := (more_initialized_accepts halike body).1 s' kinds hs
  obtain ⟨q, hq, hpq⟩ := (more_initialized_accepts halike method).2.2 p hp
  exact ⟨halike, ⟨s', t', kinds, hs, ht, hst⟩, p, q, hp, hq, hpq⟩

end State

end SJava
