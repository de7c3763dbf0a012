import SJava.Proofs.Agreement
import SJava.Proofs.Bindings
import SJava.Proofs.Literals
import SJava.Proofs.Outlining

/-!
# More globals and more methods

Statements that are in order stay so when there are more global variables and methods:
they see their own first. `extend` adds to a state what is not its own; every step of
either walk leads from one extended state to another.

* `Stack.Checked.extend`, `Progress.Stepped.extend`: a statement, and a line of the
  second walk;
* `applyLine_extend`, `registerLine_extend`: a line of the first walk, which must not
  declare what is there already;
* `Progress.steps_extend`, `foldlM_extend`: runs.
-/

namespace SJava

/-! ## Tables -/

section Tables

variable {α : Type} {extra t : Std.ExtTreeMap Text α compare}

theorem union_insert (extra t : Std.ExtTreeMap Text α compare) (x : Text) (v : α) :
    (extra ∪ t).insert x v = extra ∪ t.insert x v := by
  refine Std.ExtTreeMap.ext_getElem? fun y => ?_
  simp only [Std.ExtTreeMap.getElem?_insert, Std.ExtTreeMap.getElem?_union]
  split <;> simp

theorem union_empty (t : Std.ExtTreeMap Text α compare) : t ∪ ∅ = t :=
  Std.ExtTreeMap.ext_getElem? fun y => by simp [Std.ExtTreeMap.getElem?_union]

theorem union_comm_of_disjoint {s t : Std.ExtTreeMap Text α compare} (h : ∀ x, x ∈ s → x ∉ t) :
    s ∪ t = t ∪ s := by
  refine Std.ExtTreeMap.ext_getElem? fun y => ?_
  simp only [Std.ExtTreeMap.getElem?_union]
  by_cases hy : y ∈ s
  · simp [h y hy]
  · simp [hy]

end Tables

namespace Stack

/-- The stack with more globals, where its own come first. -/
def extend (extra : Scope) (s : Stack) : Stack := { s with globals := extra ∪ s.globals }

variable {extra : Scope} {s t u : Stack}

@[simp] theorem blocks_extend : (s.extend extra).blocks = s.blocks := rfl
@[simp] theorem depth_extend : (s.extend extra).depth = s.depth := rfl

theorem lookup_extend (name : Text) : (s.extend extra).lookup name = (s.lookup name).or extra[name]? := by
  simp only [lookup, tables, Scope.lookup_append, Scope.lookup_cons, Scope.lookup_nil, extend,
    Std.ExtTreeMap.getElem?_union, Option.or_none, Option.or_assoc]

theorem entry_extend (d : Nat) (name : Text) : (s.extend extra).entry d name =
    if d = 1 then (extra ∪ s.globals)[name]? else s.entry d name :=
  entry_setGlobals s (extra ∪ s.globals) d name

theorem insert_extend (v : Variable) : (s.extend extra).insert v = (s.insert v).extend extra := by
  obtain ⟨globals, blocks, active⟩ := s
  cases blocks with
  | nil => simp only [insert, extend, union_insert]
  | cons table outer => rfl

theorem enter_extend : (s.extend extra).enter = s.enter.extend extra := rfl

theorem track_extend {line : Text} (h : s.track line = .ok t) :
    (s.extend extra).track line = .ok (t.extend extra) := by
  have hopened : (if Braces.opens line then (s.extend extra).enter else s.extend extra) =
      (if Braces.opens line then s.enter else s).extend extra := by
    rw [enter_extend]
    split <;> rfl
  simp only [track] at h ⊢
  rw [hopened]
  generalize (if Braces.opens line then s.enter else s) = opened at h ⊢
  split
  · next hcloses =>
    rw [if_pos hcloses] at h
    obtain ⟨globals, blocks, active⟩ := opened
    cases blocks with
    | nil => cases h
    | cons table outer =>
      cases h
      rfl
  · next hcloses =>
    rw [if_neg hcloses] at h
    cases h
    rfl

theorem update?_extend {f : Variable → Except Fault Variable} {name : Text}
    (h : s.update? f name = some (.ok t)) :
    (s.extend extra).update? f name = some (.ok (t.extend extra)) := by
  unfold update? at h ⊢
  rw [blocks_extend]
  cases hblocks : Scope.update? f name s.blocks with
  | some result =>
    rw [hblocks] at h
    obtain ⟨blocks, rfl, rfl⟩ := map_eq_ok_iff.1 (Option.some.inj h)
    rfl
  | none =>
    simp only [hblocks, Option.map_eq_some_iff] at h
    obtain ⟨v, hv, h⟩ := h
    obtain ⟨w, hw, rfl⟩ := map_eq_ok_iff.1 h
    simp only [extend, Std.ExtTreeMap.getElem?_union, hv, Option.some_or, Option.map_some, hw, Except.map,
      union_insert]

/-- Within a block anything can be declared that could be; outside of all, what is
not there already. -/
theorem declareAll_extend {vs : List Variable} (h : s.declareAll vs = (t, none))
    (hfree : s.depth = 1 → ∀ v ∈ vs, v.name ∉ extra) :
    (s.extend extra).declareAll vs = (t.extend extra, none) := by
  induction vs generalizing s with
  | nil =>
    obtain ⟨rfl, -⟩ := Prod.mk.inj h
    rfl
  | cons v vs ih =>
    rw [declareAll] at h ⊢
    cases hd : s.declare v with
    | error fault =>
      rw [hd] at h
      cases h
    | ok u =>
      rw [hd] at h
      obtain ⟨hfresh, rfl⟩ := declare_eq_ok_iff.1 hd
      have hentry : (s.extend extra).entry (s.extend extra).depth v.name = none := by
        rw [depth_extend, entry_extend]
        split
        · next hdepth =>
          rw [hdepth, entry_globals] at hfresh
          have hfree' := hfree hdepth v List.mem_cons_self
          rw [Std.ExtTreeMap.getElem?_union, hfresh, Std.ExtTreeMap.getElem?_eq_none hfree']
          rfl
        · exact hfresh
      rw [declare_eq_ok_iff.2 ⟨hentry, rfl⟩, insert_extend]
      refine ih h fun hdepth w hw => hfree ?_ w (List.mem_cons_of_mem v hw)
      rwa [depth_insert] at hdepth

theorem enterMethod_extend {m : Method} (h : s.enterMethod m = (t, none)) (hdepth : s.depth ≠ 1) :
    (s.extend extra).enterMethod m = (t.extend extra, none) :=
  declareAll_extend (s := { s with active := some ⟨m, s.depth⟩ }) h fun h => absurd h hdepth

/-! ## Statements -/

section Statements

variable (hextra : ∀ x ∈ extra, Name.isNameLike x = true)
include hextra

/-- A literal is no name, so it stands for no variable that is added. -/
theorem resolve_extend {target : Ty} {raw value : Text}
    (h : Variable.resolve s.lookup target raw = .ok value) :
    Variable.resolve (s.extend extra).lookup target raw = .ok value := by
  unfold Variable.resolve at h ⊢
  rw [lookup_extend]
  cases hlook : s.lookup raw with
  | some v =>
    rw [hlook] at h
    exact h
  | none =>
    simp only [hlook] at h
    split at h
    · cases h
    · next hlike =>
      have hnone : extra[raw]? = none :=
        Std.ExtTreeMap.getElem?_eq_none fun hmem => hlike (hextra raw hmem)
      simp only [hnone, Option.or_none, if_neg hlike]
      exact h

theorem clauseVariable_extend {ty : Ty} {isFinal : Bool} {c : Clause} {v : Variable}
    (h : s.clauseVariable ty isFinal c = .ok v) : (s.extend extra).clauseVariable ty isFinal c = .ok v := by
  obtain ⟨u, hu, h⟩ := bind_eq_ok_iff.1 h
  refine bind_eq_ok_iff.2 ⟨u, hu, ?_⟩
  cases hc : c.value with
  | none =>
    rw [hc] at h
    exact h
  | some raw =>
    rw [hc] at h
    obtain ⟨value, hvalue, h⟩ := bind_eq_ok_iff.1 h
    exact bind_eq_ok_iff.2 ⟨value, resolve_extend hextra hvalue, h⟩

/-- A declaration goes through with more globals, unless it is one of a global that is
there already. -/
theorem declareLine_extend {line : Text} (h : s.declareLine line = .ok t)
    (hfree : s.depth = 1 → ∀ x ∈ t.globals, x ∉ extra) :
    (s.extend extra).declareLine line = .ok (t.extend extra) := by
  obtain ⟨d, hd, h⟩ := bind_eq_ok_iff.1 h
  obtain ⟨ty, hty, h⟩ := bind_eq_ok_iff.1 h
  obtain ⟨vs, hvs, h⟩ := bind_eq_ok_iff.1 h
  have hvs' : d.clauses.mapM ((s.extend extra).clauseVariable ty d.isFinal) = .ok vs :=
    mapM_eq_ok_iff.2 ((mapM_eq_ok_iff.1 hvs).imp fun _ _ => clauseVariable_extend hextra)
  refine bind_eq_ok_iff.2 ⟨d, hd, bind_eq_ok_iff.2 ⟨ty, hty, bind_eq_ok_iff.2 ⟨vs, hvs', ?_⟩⟩⟩
  split at h
  · next u hall =>
    obtain rfl := Except.ok.inj h
    rw [declareAll_extend hall fun hdepth v hv => hfree hdepth _ ?_]
    · rfl
    · have hentry := ((entry_declareAll hall).2.2 1 v.name v).2 (.inr ⟨hdepth.symm, hv, rfl⟩)
      rw [entry_globals] at hentry
      exact Std.ExtTreeMap.mem_iff_isSome_getElem?.2 (by rw [hentry]; rfl)
  · exact absurd h throw_ne_ok

theorem assign_extend {a : Assignment} (h : s.assign a = .ok t) :
    (s.extend extra).assign a = .ok (t.extend extra) := by
  unfold assign at h ⊢
  rw [lookup_extend]
  cases htarget : s.lookup a.target with
  | none =>
    rw [htarget] at h
    cases h
  | some v =>
    simp only [htarget, Option.some_or] at h ⊢
    split at h
    · exact absurd h throw_ne_ok
    · next hfinal =>
      obtain ⟨value, hvalue, h⟩ := bind_eq_ok_iff.1 h
      rw [if_neg hfinal]
      refine bind_eq_ok_iff.2 ⟨value, resolve_extend hextra hvalue, ?_⟩
      cases hu : s.update? (·.reassign value) a.target with
      | none =>
        rw [hu] at h
        cases h
      | some r =>
        rw [hu, Option.getD_some] at h
        subst h
        rw [update?_extend hu]
        rfl

theorem assignAll_extend {as : List Assignment} (h : as.foldlM assign s = .ok t) :
    as.foldlM assign (s.extend extra) = .ok (t.extend extra) := by
  induction as generalizing s with
  | nil =>
    cases h
    rfl
  | cons a as ih =>
    rw [List.foldlM_cons] at h ⊢
    obtain ⟨u, hu, h⟩ := bind_eq_ok_iff.1 h
    exact bind_eq_ok_iff.2 ⟨_, assign_extend hextra hu, ih h⟩

theorem assignLine_extend {line : Text} (h : s.assignLine line = .ok t) :
    (s.extend extra).assignLine line = .ok (t.extend extra) := by
  obtain ⟨as, has, h⟩ := assignLine_eq_ok_iff.1 h
  exact assignLine_eq_ok_iff.2 ⟨as, has, assignAll_extend hextra h⟩

theorem checkCondition_extend {line : Text} (h : s.checkCondition line = .ok ()) :
    (s.extend extra).checkCondition line = .ok () := by
  obtain ⟨operands, hoperands, h⟩ := bind_eq_ok_iff.1 h
  refine bind_eq_ok_iff.2 ⟨operands, hoperands, forM_eq_ok_iff.2 fun operand hmem => ?_⟩
  replace h := forM_eq_ok_iff.1 h operand hmem
  unfold checkOperand at h ⊢
  rw [lookup_extend]
  cases hlook : s.lookup operand with
  | some v =>
    rw [hlook] at h
    exact h
  | none =>
    simp only [hlook] at h
    split at h
    · cases h
    · next hlike =>
      have hnone : extra[operand]? = none :=
        Std.ExtTreeMap.getElem?_eq_none fun hmem => hlike (hextra operand hmem)
      simp only [hnone, Option.or_none, if_neg hlike]
      exact h

theorem checkCall_extend (others : Registry) {methods : Registry} {line : Text}
    (h : s.checkCall methods line = .ok ()) :
    (s.extend extra).checkCall (others ∪ methods) line = .ok () := by
  obtain ⟨call, hcall, h⟩ := bind_eq_ok_iff.1 h
  refine bind_eq_ok_iff.2 ⟨call, hcall, ?_⟩
  cases hm : methods[call.name]? with
  | none =>
    rw [hm] at h
    cases h
  | some m =>
    simp only [hm, Std.ExtTreeMap.getElem?_union, Option.some_or] at h ⊢
    unfold Method.checkArguments at h ⊢
    split at h
    · next hlength =>
      rw [if_pos hlength]
      refine forM_eq_ok_iff.2 fun pair hpair => ?_
      obtain ⟨value, hvalue, hcheck⟩ := bind_eq_ok_iff.1 (forM_eq_ok_iff.1 h pair hpair)
      exact bind_eq_ok_iff.2 ⟨value, resolve_extend hextra hvalue, hcheck⟩
    · cases h

/-- A statement inside a block stays in order. -/
theorem Checked.extend (others : Registry) {methods : Registry} {line : Text} {kind : Kind}
    (h : u.Checked methods line kind t) (hdepth : kind = .declaration → u.depth ≠ 1) :
    (u.extend extra).Checked (others ∪ methods) line kind (t.extend extra) := by
  cases h with
  | condition done => exact .condition (checkCondition_extend hextra done)
  | call done => exact .call (checkCall_extend hextra others done)
  | declaration done =>
    exact .declaration (declareLine_extend hextra done fun h => absurd h (hdepth rfl))
  | assignment done => exact .assignment (assignLine_extend hextra done)
  | returnStatement => exact .returnStatement
  | scopeEnd => exact .scopeEnd

end Statements

end Stack

/-! ## The second walk -/

/-- A window that goes back to more globals. -/
def Window.extend (extra : Scope) (w : Window) : Window := { w with globals := extra ∪ w.globals }

/-- A state with more globals and more methods. What it has already comes first. -/
def State.extend (extra : Scope) (others : Registry) (s : State) : State :=
  { stack := s.stack.extend extra, methods := others ∪ s.methods }

namespace Progress

/-- The second walk with more globals and more methods. -/
def extend (extra : Scope) (others : Registry) (p : Progress) : Progress :=
  { state := p.state.extend extra others, window := p.window.map (·.extend extra) }

variable {extra : Scope} {others : Registry} {p q : Progress}
  (hextra : ∀ x ∈ extra, Name.isNameLike x = true)
include hextra

/-- A line of the second walk does the same with more globals and more methods. -/
theorem Stepped.extend {line : Text} {kind : Kind} (hp : p.Coherent) (hkind : Kind.of line = .ok kind)
    (h : p.Stepped line kind q) :
    (p.extend extra others).Stepped line kind (q.extend extra others) := by
  have hinside {w : Window} {u : Stack} (hw : p.window = some w)
      (tracked : p.state.stack.track line = .ok u) (hk : kind = .declaration) : u.depth ≠ 1 := by
    obtain ⟨d, htwo, hblock⟩ := hp.inside w hw
    have hle := hblock.le_depth
    have hcloses : ¬Braces.closes line = true := by
      rw [Braces.closes_iff_scopeEnd hkind, hk]
      decide
    rw [(Stack.track_eq_ok tracked).1, Braces.shift, if_neg hcloses]
    split <;> omega
  cases h with
  | @enter u t m outside tracked parsed entered =>
    have hdepth : u.depth ≠ 1 := by
      have hpos := p.state.stack.depth_pos
      rw [(Stack.track_eq_ok tracked).1, Braces.shift_of_ending hkind rfl]
      omega
    exact .enter (by rw [Progress.extend, outside]; rfl) (Stack.track_extend tracked) parsed
      (Stack.enterMethod_extend entered hdepth)
  | skip outside tracked notHeader =>
    exact .skip (by rw [Progress.extend, outside]; rfl) (Stack.track_extend tracked) notHeader
  | @stay w _ _ _ inside tracked checked goesOn =>
    have hwindow : (p.extend extra others).window = some (w.extend extra) := by
      rw [Progress.extend, inside]
      rfl
    exact .stay hwindow (Stack.track_extend tracked)
      (checked.extend hextra others (hinside inside tracked)) goesOn
  | @leave w _ t _ inside tracked checked ends returned =>
    have hwindow : (p.extend extra others).window = some (w.extend extra) := by
      rw [Progress.extend, inside]
      rfl
    exact .leave (t := t.extend extra) hwindow (Stack.track_extend tracked)
      (checked.extend hextra others (hinside inside tracked)) ends returned

theorem steps_extend {ls : List Line} (hp : p.Coherent) (h : p.steps ls = .ok q) :
    (p.extend extra others).steps ls = .ok (q.extend extra others) := by
  have hfollows : ∃ q', walk step (p.extend extra others) ls = .ok q' ∧
      q.Coherent ∧ q' = q.extend extra others := by
    refine walk_follows (R := fun p p' => p.Coherent ∧ p' = p.extend extra others)
      (fun hp hline => ?_) h ⟨hp, rfl⟩
    obtain ⟨hp, rfl⟩ := hp
    obtain ⟨kind, hkind, hstep⟩ := step_eq_ok hline
    exact ⟨_, (hstep.extend hextra hp hkind).step_eq hkind, hp.step hkind hstep, rfl⟩
  obtain ⟨_, hsteps, -, rfl⟩ := hfollows
  exact hsteps

end Progress

/-! ## The first walk -/

/-- A fold over tables that goes through with more entries, line by line. -/
theorem foldlM_extend {α : Type} {extra : Std.ExtTreeMap Text α compare}
    {f : Std.ExtTreeMap Text α compare → Text → Option (Std.ExtTreeMap Text α compare)}
    (hmono : ∀ t line u, f t line = some u → ∀ x ∈ t, x ∈ u)
    (hextend : ∀ t line u, f t line = some u → (∀ x ∈ u, x ∉ extra) → f (extra ∪ t) line = some (extra ∪ u))
    {lines : List Text} {t u : Std.ExtTreeMap Text α compare} (h : lines.foldlM f t = some u)
    (hfree : ∀ x ∈ u, x ∉ extra) : lines.foldlM f (extra ∪ t) = some (extra ∪ u) ∧ ∀ x ∈ t, x ∈ u := by
  induction lines generalizing t with
  | nil =>
    cases h
    exact ⟨rfl, fun x hx => hx⟩
  | cons line lines ih =>
    obtain ⟨v, hv, h⟩ := Option.bind_eq_some_iff.1 h
    obtain ⟨hrest, hkept⟩ := ih h
    refine ⟨?_, fun x hx => hkept x (hmono t line v hv x hx)⟩
    rw [List.foldlM_cons, hextend t line v hv fun x hx => hfree x (hkept x hx)]
    exact hrest

theorem Stack.mem_globals_iff {s : Stack} {x : Text} : x ∈ s.globals ↔ ∃ v, s.entry 1 x = some v := by
  rw [Stack.entry_globals, Std.ExtTreeMap.mem_iff_isSome_getElem?, Option.isSome_iff_exists]

/-- Assignments neither add entries nor take any away. -/
theorem Stack.assignAll_entry {s t : Stack} {as : List Assignment} (h : as.foldlM Stack.assign s = .ok t)
    (d : Nat) (x : Text) : (∃ v, t.entry d x = some v) ↔ ∃ v, s.entry d x = some v := by
  induction as generalizing s with
  | nil =>
    cases h
    rfl
  | cons a as ih =>
    rw [List.foldlM_cons] at h
    obtain ⟨u, hu, h⟩ := bind_eq_ok_iff.1 h
    obtain ⟨e, v, value, hv, -, -, -, -, -, -, hentry⟩ := Stack.assign_eq_ok hu
    rw [ih h, hentry]
    split
    · next heq =>
      obtain ⟨rfl, rfl⟩ := heq
      exact ⟨fun _ => ⟨v, hv⟩, fun _ => ⟨_, rfl⟩⟩
    · rfl

/-- Globals are added and never taken away, and only under the names of variables. -/
theorem applyLine_mem {globals globals' : Scope} {line : Text}
    (h : applyLine globals line = some globals') :
    (∀ x ∈ globals, x ∈ globals') ∧
      ∀ x ∈ globals', x ∈ globals ∨ Name.isNameLike x = true := by
  rcases applyLine_cases line with hline | hline | hline <;> rw [hline] at h
  · cases h
    exact ⟨fun x hx => hx, fun x hx => .inl hx⟩
  · rw [Stack.globals_declareLine] at h
    obtain ⟨d, ty, vs, -, -, hvs, hall⟩ := Stack.declareLine_eq_ok h
    obtain ⟨-, -, hentry⟩ := Stack.entry_declareAll hall
    have hbefore (x : Text) : x ∈ globals ↔ _ := Stack.mem_globals_iff (s := { globals })
    have hbehind (x : Text) : x ∈ globals' ↔ _ := Stack.mem_globals_iff (s := { globals := globals' })
    refine ⟨fun x hx => ?_, fun x hx => ?_⟩
    · obtain ⟨v, hv⟩ := (hbefore x).1 hx
      exact (hbehind x).2 ⟨v, (hentry 1 x v).2 (.inl hv)⟩
    · obtain ⟨v, hv⟩ := (hbehind x).1 hx
      rcases (hentry 1 x v).1 hv with hv | ⟨-, hmem, rfl⟩
      · exact .inl ((hbefore x).2 ⟨v, hv⟩)
      · obtain ⟨c, -, hdeclares⟩ := exists_of_forall₂ hvs hmem
        exact .inr (Name.isNameLike_of_check hdeclares.name_ok)
  · rw [Stack.globals_assignLine] at h
    obtain ⟨as, -, hall⟩ := Stack.assignLine_eq_ok_iff.1 h
    have hmem (x : Text) : x ∈ globals' ↔ x ∈ globals :=
      Stack.mem_globals_iff.trans ((Stack.assignAll_entry hall 1 x).trans Stack.mem_globals_iff.symm)
    exact ⟨fun x => (hmem x).2, fun x hx => .inl ((hmem x).1 hx)⟩

theorem applyLine_extend {extra globals globals' : Scope} {line : Text}
    (hextra : ∀ x ∈ extra, Name.isNameLike x = true) (h : applyLine globals line = some globals')
    (hfree : ∀ x ∈ globals', x ∉ extra) : applyLine (extra ∪ globals) line = some (extra ∪ globals') := by
  rcases applyLine_cases line with hline | hline | hline <;> rw [hline] at h ⊢
  · cases h
    rfl
  · rw [Stack.globals_declareLine] at h ⊢
    have hdone : (Stack.extend extra { globals }).declareLine line =
        .ok (Stack.extend extra { globals := globals' }) := Stack.declareLine_extend hextra h fun _ => hfree
    exact hdone
  · rw [Stack.globals_assignLine] at h ⊢
    have hdone : (Stack.extend extra { globals }).assignLine line =
        .ok (Stack.extend extra { globals := globals' }) := Stack.assignLine_extend hextra h
    exact hdone

theorem registerLine_mono {methods methods' : Registry} {line : Text}
    (h : registerLine methods line = some methods') : ∀ x ∈ methods, x ∈ methods' := by
  rcases registerLine_cases line with hline | hline | ⟨m, hline⟩ <;> rw [hline] at h
  · cases h
    exact fun x hx => hx
  · cases h
  · rw [register?] at h
    split at h <;> cases h
    exact fun x hx => Std.ExtTreeMap.mem_insert.2 (.inr hx)

theorem registerLine_extend {others methods methods' : Registry} {line : Text}
    (h : registerLine methods line = some methods') (hfree : ∀ x ∈ methods', x ∉ others) :
    registerLine (others ∪ methods) line = some (others ∪ methods') := by
  rcases registerLine_cases line with hline | hline | ⟨m, hline⟩ <;> rw [hline] at h ⊢
  · cases h
    rfl
  · cases h
  · rw [register?] at h ⊢
    split at h <;> cases h
    next hfresh =>
      have hother : m.name ∉ others := hfree m.name Std.ExtTreeMap.mem_insert_self
      rw [if_neg (by simp [hfresh, hother]), union_insert]

end SJava
