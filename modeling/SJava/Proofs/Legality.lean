import SJava.Proofs.Agreement
import SJava.Proofs.Outlining

/-!
# What makes a source legal

The second walk leaves nothing behind: wherever the depth is 1 again, it is where it
started, outside of all methods and with the globals of the outline. So whether a
script is legal is a matter of the texts of its lines, in four parts (`Legal`): their
braces balance, the outline is in order, every block is closed, and so is every body.

* `Progress.Restores`: the invariant of the second walk: it knows the globals to go
  back to;
* `Tree.stepped_outside`: back at depth 1, the second walk is where it started;
* `Script.verify_eq_ok_iff_legal`: when a script is legal, and with which globals and
  methods.
-/

namespace SJava

open SJava.Tree

/-! ## Globals under blocks -/

namespace Stack

variable {s t : Stack}

theorem exit_globals (h : s.exit = .ok t) : t.globals = s.globals := by
  cases hb : s.blocks <;> simp only [exit, hb, reduceCtorEq, Except.ok.injEq] at h
  rw [← h]

theorem track_globals {line : Text} (h : s.track line = .ok t) : t.globals = s.globals := by
  simp only [track] at h
  have hopened : (if Braces.opens line then s.enter else s).globals = s.globals := by split <;> rfl
  split at h
  · rw [exit_globals h, hopened]
  · rw [← Except.ok.inj h, hopened]

/-- Within a block, declaring adds nothing to the globals. -/
theorem insert_globals {v : Variable} (hd : s.depth ≠ 1) : (s.insert v).globals = s.globals := by
  obtain ⟨globals, blocks, active⟩ := s
  cases blocks with
  | nil => exact absurd rfl hd
  | cons table outer => rfl

theorem declareAll_globals {vs : List Variable} (hd : s.depth ≠ 1) :
    (s.declareAll vs).1.globals = s.globals := by
  induction vs generalizing s with
  | nil => rfl
  | cons v vs ih =>
    rw [declareAll, declare]
    split
    · next u hu =>
      split at hu
      · cases hu
      · rw [← Except.ok.inj hu, ih (by rwa [depth_insert]), insert_globals hd]
    · rfl

theorem enterMethod_globals {m : Method} (hd : s.depth ≠ 1) (h : s.enterMethod m = (t, none)) :
    t.globals = s.globals := by
  have hall : ({ s with active := some ⟨m, s.depth⟩ }.declareAll
      (m.parameters.map Variable.setDefault)).1.globals = s.globals := declareAll_globals hd
  rw [enterMethod] at h
  rwa [h] at hall

end Stack

/-! ## Back at depth 1 -/

namespace Progress

variable {p q : Progress} {known : Scope × Registry}

/-- The second walk knows what it goes back to: outside of all windows it has the
globals of the outline, and an open window keeps them. -/
structure Restores (p : Progress) (known : Scope × Registry) : Prop where
  coherent : p.Coherent
  methods : p.state.methods = known.2
  outside : p.window = none → p.state.stack.globals = known.1
  inside : ∀ w, p.window = some w → w.globals = known.1

theorem Restores.step {line : Text} {kind : Kind} (hp : p.Restores known)
    (hkind : Kind.of line = .ok kind) (h : p.Stepped line kind q) : q.Restores known where
  coherent := hp.coherent.step hkind h
  methods := by cases h <;> exact hp.methods
  outside hq := by
    cases h with
    | enter | stay => cases hq
    | skip outside tracked => exact (Stack.track_globals tracked).trans (hp.outside outside)
    | leave inside => exact hp.inside _ inside
  inside w hq := by
    cases h with
    | skip | leave => cases hq
    | @stay w' _ _ _ inside =>
      cases hq
      exact hp.inside w' inside
    | @enter u t m outside tracked parsed entered =>
      cases hq
      have hdepth : u.depth ≠ 1 := by
        have hpos := p.state.stack.depth_pos
        rw [(Stack.track_eq_ok tracked).1, Braces.shift_of_ending hkind rfl]
        omega
      show t.globals = known.1
      rw [Stack.enterMethod_globals hdepth entered, Stack.track_globals tracked, hp.outside outside]

theorem Restores.steps {ls : List Line} (hp : p.Restores known) (h : p.steps ls = .ok q) :
    q.Restores known := by
  refine walk_keep (P := (Restores · known)) (fun hp hline => ?_) h hp
  obtain ⟨_, hkind, hstep⟩ := step_eq_ok hline
  exact hp.step hkind hstep

theorem restores_outside (known : Scope × Registry) :
    Restores ⟨Tree.outside known, none⟩ known where
  coherent := { outside := fun _ => rfl, inside := fun _ => nofun }
  methods := rfl
  outside := fun _ => rfl
  inside := fun _ => nofun

/-- At depth 1 no window is open. -/
theorem Restores.eq_outside (hp : p.Restores known) (hdepth : p.state.stack.depth = 1) :
    p = ⟨Tree.outside known, none⟩ := by
  have hwindow : p.window = none := by
    cases hw : p.window with
    | none => rfl
    | some w =>
      obtain ⟨d, htwo, hblock⟩ := hp.coherent.inside w hw
      have hle := hblock.le_depth
      omega
  have hstack := Stack.eq_globals hdepth (hp.coherent.outside hwindow)
  rw [hp.outside hwindow] at hstack
  obtain ⟨⟨stack, methods⟩, window⟩ := p
  obtain rfl : methods = known.2 := hp.methods
  obtain rfl : window = none := hwindow
  obtain rfl : stack = { globals := known.1 } := hstack
  rfl

end Progress

namespace Tree

variable {p q : Progress} {known : Scope × Registry} {lines : List Text}

theorem texts_mk (lines : List Text) : (lines.map (Line.mk 0)).map (·.text) = lines := by
  rw [List.map_map]
  exact List.map_id lines

theorem stepped_eq_some_iff :
    walked Progress.step p lines = some q ↔ p.steps (lines.map (Line.mk 0)) = .ok q := by
  rw [Progress.steps, walk_eq_ok_iff_walked, texts_mk]

/-- Back at depth 1, the second walk is where it started. -/
theorem stepped_outside (h : walked Progress.step ⟨outside known, none⟩ lines = some q)
    (hdepth : depthAfter 1 lines = 1) : q = ⟨outside known, none⟩ := by
  rw [stepped_eq_some_iff] at h
  refine ((Progress.restores_outside known).steps h).eq_outside ?_
  rw [Progress.depth_steps h, depthBehind, texts_mk]
  exact hdepth

theorem stepped_outside_append {xs ys : List Text} (hxs : depthAfter 1 xs = 1) :
    walked Progress.step ⟨outside known, none⟩ (xs ++ ys) = some ⟨outside known, none⟩ ↔
      walked Progress.step ⟨outside known, none⟩ xs = some ⟨outside known, none⟩ ∧
        walked Progress.step ⟨outside known, none⟩ ys = some ⟨outside known, none⟩ := by
  rw [walked_append, Option.bind_eq_bind, Option.bind_eq_some_iff]
  constructor
  · rintro ⟨q, hq, h⟩
    obtain rfl := stepped_outside hq hxs
    exact ⟨hq, h⟩
  · rintro ⟨hx, hy⟩
    exact ⟨_, hx, hy⟩

end Tree

/-! ## Legal texts -/

/-- The lines of a legal source, which has these globals and methods. -/
structure Legal (lines : List Text) (known : Scope × Registry) : Prop where
  balanced : balanceBehind 0 lines = 0
  placed : PlacedAll 1 lines
  closed : depthAfter 1 lines = 1
  globals : (globalLines 1 lines).foldlM applyLine ∅ = some known.1
  methods : lines.foldlM registerLine ∅ = some known.2
  bodies : walked Progress.step ⟨outside known, none⟩ lines = some ⟨outside known, none⟩

theorem PlacedAll.depthAfter_pos {d : Nat} {lines : List Text} (h : PlacedAll d lines) (hd : 0 < d) :
    0 < depthAfter d lines := by
  induction lines generalizing d with
  | nil => exact hd
  | cons line lines ih => exact ih h.2 h.1.shift_pos

namespace Script

variable {script : Script} {s : State}

theorem checkBalance_eq_ok_iff :
    script.checkBalance = .ok () ↔ balanceBehind 0 (script.lines.map (·.text)) = 0 := by
  rw [checkBalance, balanceBehind, List.foldl_map]
  split <;> simp [*]

/-- The outline of a script, part by part. -/
theorem outline_eq_ok_iff_parts {outline : State} :
    script.outline = .ok outline ↔
      ∃ known, outline = outside known ∧ PlacedAll 1 (script.lines.map (·.text)) ∧
        depthAfter 1 (script.lines.map (·.text)) = 1 ∧
        (globalLines 1 (script.lines.map (·.text))).foldlM applyLine ∅ = some known.1 ∧
        (script.lines.map (·.text)).foldlM registerLine ∅ = some known.2 := by
  have hwalk : State.outlineLines {} script.lines = .ok outline ↔
      walked State.outlineLine (within 1 (∅, ∅)) (script.lines.map (·.text)) = some outline :=
    walk_eq_ok_iff_walked
  rw [outline_eq_ok_iff, hwalk, outlined_within_iff Nat.one_pos]
  constructor
  · rintro ⟨⟨hplaced, globals, methods, hglobals, hmethods, rfl⟩, hdepth⟩
    rw [depth_within (hplaced.depthAfter_pos Nat.one_pos)] at hdepth
    exact ⟨(globals, methods), by rw [hdepth, within_one], hplaced, hdepth, hglobals, hmethods⟩
  · rintro ⟨known, rfl, hplaced, hdepth, hglobals, hmethods⟩
    exact ⟨⟨hplaced, known.1, known.2, hglobals, hmethods, by rw [hdepth, within_one]⟩, rfl⟩

theorem bodies_eq_ok_iff_stepped {known : Scope × Registry}
    (hclosed : depthAfter 1 (script.lines.map (·.text)) = 1) :
    script.bodies (outside known) = .ok s ↔ s = outside known ∧
      walked Progress.step ⟨outside known, none⟩ (script.lines.map (·.text)) =
        some ⟨outside known, none⟩ := by
  have hwalk (p : Progress) : Progress.steps { state := outside known } script.lines = .ok p ↔
      walked Progress.step ⟨outside known, none⟩ (script.lines.map (·.text)) = some p :=
    walk_eq_ok_iff_walked
  simp only [bodies_eq_ok_iff, hwalk]
  constructor
  · rintro ⟨p, hp, hfinish⟩
    obtain rfl := stepped_outside hp hclosed
    exact ⟨(Except.ok.inj hfinish).symm, hp⟩
  · rintro ⟨rfl, hp⟩
    exact ⟨_, hp, rfl⟩

/-- Which scripts are legal, and what their globals and methods are, is told by the
texts of their lines. -/
theorem verify_eq_ok_iff_legal :
    script.verify = .ok s ↔ ∃ known, s = outside known ∧ Legal (script.lines.map (·.text)) known := by
  simp only [verify_eq_ok_iff, checkBalance_eq_ok_iff, outline_eq_ok_iff_parts]
  constructor
  · rintro ⟨hbalance, _, ⟨known, rfl, hplaced, hclosed, hglobals, hmethods⟩, hbodies⟩
    obtain ⟨rfl, hstepped⟩ := (bodies_eq_ok_iff_stepped hclosed).1 hbodies
    exact ⟨known, rfl, hbalance, hplaced, hclosed, hglobals, hmethods, hstepped⟩
  · rintro ⟨known, rfl, h⟩
    exact ⟨h.balanced, _, ⟨known, rfl, h.placed, h.closed, h.globals, h.methods⟩,
      (bodies_eq_ok_iff_stepped h.closed).2 ⟨rfl, h.bodies⟩⟩

end Script

end SJava
