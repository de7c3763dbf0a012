import SJava.Proofs.Literals
import SJava.Proofs.Walks

/-!
# Stored values

A literal that a variable holds is copied and checked again, but no verdict and
no message depends on which one it is. `Alike` relates two states that differ in
the literals their variables hold; running on from them gives two outcomes that
compare as the states do (`Outcomes`). A `Comparison` says how much the states
have to share: the initialized variables of the second are those of the first
(`same`), or these and perhaps others (`more`).

* `Variable.resolve_alike`: what a raw value stands for;
* `State.bodyLine_alike`, `State.outlineLine_alike`: one line of either walk;
* `State.values_decide_nothing`: whole runs.
-/

namespace SJava

variable {α β γ δ ι ε : Type}

/-! ## Two outcomes -/

/-- What the second of two states has initialized: the same as the first, or
perhaps more. -/
inductive Comparison where
  | same
  | more
  deriving DecidableEq, Repr

/-- How the initializations of a variable in two states compare. -/
def Comparison.Admits : Comparison → Bool → Bool → Prop
  | same, a, b => a = b
  | more, a, b => a = true → b = true

namespace Comparison

variable {c : Comparison} {a b : Bool}

theorem admits_refl (c : Comparison) (a : Bool) : c.Admits a a := by
  cases c <;> simp [Admits]

theorem Admits.of_true (h : c.Admits true b) : b = true := by
  cases c with
  | same => exact h.symm
  | more => exact h rfl

/-- A variable is initialized in the second state alone only if the second may
have more of them. -/
theorem Admits.eq_more (h : c.Admits false true) : c = .more := by
  cases c with
  | same => exact absurd h Bool.false_ne_true
  | more => rfl

end Comparison

theorem option_rel_iff {R : α → β → Prop} {x : Option α} {y : Option β} :
    Option.Rel R x y ↔ x = none ∧ y = none ∨ ∃ a b, x = some a ∧ y = some b ∧ R a b := by
  constructor
  · rintro (hab | _)
    · exact .inr ⟨_, _, rfl, rfl, hab⟩
    · exact .inl ⟨rfl, rfl⟩
  · rintro (⟨rfl, rfl⟩ | ⟨a, b, rfl, rfl, hab⟩)
    · exact .none
    · exact .some hab

theorem option_rel_refl {R : α → α → Prop} (hR : ∀ a, R a a) (x : Option α) : Option.Rel R x x := by
  cases x with
  | none => exact .none
  | some a => exact .some (hR a)

theorem option_rel_trans {R : α → α → Prop} {x y z : Option α} (h : Option.Rel R x y)
    (h' : Option.Rel R y z) (hR : ∀ a b c, R a b → R b c → R a c) : Option.Rel R x z := by
  cases h with
  | none => exact h'
  | some hab =>
    cases h' with
    | some hbc => exact .some (hR _ _ _ hab hbc)

/-- The outcomes of two runs. With the same variables initialized, they fail in
the same way or not at all; with more of them, the second may go on where the
first fails. -/
inductive Outcomes (c : Comparison) (R : α → β → Prop) : Except ε α → Except ε β → Prop
  | ok {a : α} {b : β} (related : R a b) : Outcomes c R (.ok a) (.ok b)
  | error {e f : ε} (alike : c = .same → e = f) : Outcomes c R (.error e) (.error f)
  | mended {e : ε} {b : β} (more : c = .more) : Outcomes c R (.error e) (.ok b)

namespace Outcomes

variable {c : Comparison} {R : α → β → Prop} {S : γ → δ → Prop}

theorem refl {R : α → α → Prop} (h : ∀ a, R a a) (x : Except ε α) : Outcomes c R x x := by
  cases x with
  | ok a => exact .ok (h a)
  | error e => exact .error fun _ => rfl

/-- Where the second may have more, nothing is asked behind a failure of the
first. -/
theorem of_more (more : c = .more) (e : ε) (y : Except ε β) : Outcomes c R (.error e) y := by
  cases y with
  | ok b => exact .mended more
  | error f => exact .error (by rintro rfl; cases more)

theorem bind {x : Except ε α} {y : Except ε β} {f : α → Except ε γ} {g : β → Except ε δ}
    (h : Outcomes c R x y) (hfg : ∀ a b, R a b → Outcomes c S (f a) (g b)) :
    Outcomes c S (x >>= f) (y >>= g) := by
  cases h with
  | ok related => exact hfg _ _ related
  | error alike => exact .error alike
  | mended more => exact of_more more _ _

theorem map {x : Except ε α} {y : Except ε β} {f : α → γ} {g : β → δ} (h : Outcomes c R x y)
    (hfg : ∀ a b, R a b → S (f a) (g b)) : Outcomes c S (x.map f) (y.map g) := by
  cases h with
  | ok related => exact .ok (hfg _ _ related)
  | error alike => exact .error alike
  | mended more => exact .mended more

/-- Two runs that start with the same step. -/
theorem bind_same {x : Except ε α} {f : α → Except ε γ} {g : α → Except ε δ}
    (hfg : ∀ a, Outcomes c S (f a) (g a)) : Outcomes c S (x >>= f) (x >>= g) :=
  (refl (c := c) (R := Eq) (fun _ => rfl) x).bind fun a _ h => h ▸ hfg a

theorem mapM {f : ι → Except ε α} {g : ι → Except ε β} (h : ∀ i, Outcomes c R (f i) (g i))
    (is : List ι) : Outcomes c (List.Forall₂ R) (is.mapM f) (is.mapM g) := by
  induction is with
  | nil => exact .ok .nil
  | cons i is ih =>
    rw [List.mapM_cons, List.mapM_cons]
    exact (h i).bind fun a b hab => ih.bind fun as bs habs => .ok (.cons hab habs)

theorem forM {f g : ι → Except ε Unit} (h : ∀ i, Outcomes c Eq (f i) (g i)) (is : List ι) :
    Outcomes c Eq (is.forM f) (is.forM g) := by
  induction is with
  | nil => exact .ok rfl
  | cons i is ih => exact (h i).bind fun _ _ _ => ih

theorem foldlM {f : α → ι → Except ε α} {g : β → ι → Except ε β} {a : α} {b : β} (hab : R a b)
    (h : ∀ a b i, R a b → Outcomes c R (f a i) (g b i)) (is : List ι) :
    Outcomes c R (is.foldlM f a) (is.foldlM g b) := by
  induction is generalizing a b with
  | nil => exact .ok hab
  | cons i is ih =>
    rw [List.foldlM_cons, List.foldlM_cons]
    exact (h a b i hab).bind fun _ _ hab => ih hab

theorem mapError {ε' : Type} {x : Except ε α} {y : Except ε β} (h : Outcomes c R x y) (f : ε → ε') :
    Outcomes c R (x.mapError f) (y.mapError f) := by
  cases h with
  | ok related => exact .ok related
  | error alike => exact .error fun hsame => by rw [alike hsame]
  | mended more => exact .mended more

/-- Runs from states with the same variables initialized. -/
theorem same_iff {x : Except ε α} {y : Except ε β} :
    Outcomes .same R x y ↔
      (∃ e, x = .error e ∧ y = .error e) ∨ ∃ a b, x = .ok a ∧ y = .ok b ∧ R a b := by
  constructor
  · rintro (related | alike | more)
    · exact .inr ⟨_, _, rfl, rfl, related⟩
    · exact .inl ⟨_, rfl, by rw [alike rfl]⟩
    · cases more
  · rintro (⟨e, rfl, rfl⟩ | ⟨a, b, rfl, rfl, related⟩)
    · exact .error fun _ => rfl
    · exact .ok related

end Outcomes

/-! ## Variables that differ in their values -/

namespace Variable

/-- A variable that holds a literal of its type, or none. -/
def Valid (v : Variable) : Prop := ∀ value, v.value = some value → v.ty.holds value = true

/-- Two variables that differ in the literals they hold. -/
structure Alike (c : Comparison) (v w : Variable) : Prop where
  name_eq : v.name = w.name
  ty_eq : v.ty = w.ty
  isFinal_eq : v.isFinal = w.isFinal
  initialized : c.Admits v.isInitialized w.isInitialized
  valid_left : v.Valid
  valid_right : w.Valid

variable {c : Comparison} {v w : Variable}

/-- Giving each of two alike variables a literal of their type. -/
theorem Alike.withValues (h : v.Alike c w) {a b : Text} (ha : v.ty.holds a = true)
    (hb : v.ty.holds b = true) :
    Alike c { v with value := some a } { w with value := some b } where
  name_eq := h.name_eq
  ty_eq := h.ty_eq
  isFinal_eq := h.isFinal_eq
  initialized := c.admits_refl true
  valid_left := by rintro _ ⟨⟩; exact ha
  valid_right := by rintro _ ⟨⟩; exact h.ty_eq ▸ hb

/-- A variable without a value, twice. -/
theorem alike_of_value_eq_none (h : v.value = none) : v.Alike c v where
  name_eq := rfl
  ty_eq := rfl
  isFinal_eq := rfl
  initialized := c.admits_refl _
  valid_left := by simp [Valid, h]
  valid_right := by simp [Valid, h]

/-- Checking one of two literals and then storing it, when the check cannot
tell them apart. -/
theorem Alike.storeChecked (h : v.Alike c w) {a b : Text}
    (hab : v.ty.checkValue a = v.ty.checkValue b) :
    Outcomes c (Alike c) ((v.ty.checkValue a).map fun _ => { v with value := some a })
      ((w.ty.checkValue b).map fun _ => { w with value := some b }) := by
  have hstore := @Alike.withValues c v w h a b
  rw [hab, show w.ty.checkValue b = v.ty.checkValue b by rw [h.ty_eq]]
  by_cases hb : v.ty.holds b = true
  · have ha : v.ty.holds a = true := by
      by_contra ha
      rw [Ty.checkValue_of_holds hb, Ty.checkValue, if_neg ha] at hab
      cases hab
    rw [Ty.checkValue_of_holds hb]
    exact .ok (hstore ha hb)
  · rw [Ty.checkValue, if_neg hb]
    exact .error fun _ => rfl

theorem Alike.reassign (h : v.Alike c w) {a b : Text}
    (hab : v.ty.checkValue a = v.ty.checkValue b) :
    Outcomes c (Alike c) (v.reassign a) (w.reassign b) := by
  unfold Variable.reassign
  by_cases hfinal : v.isFinal = true
  · rw [if_pos hfinal, if_pos (h.isFinal_eq ▸ hfinal), h.name_eq]
    exact .error fun _ => rfl
  · rw [if_neg hfinal, if_neg (h.isFinal_eq ▸ hfinal)]
    exact h.storeChecked hab

/-- The first value of a variable. -/
theorem setInitial_alike (h : v.value = none) {a b : Text}
    (hab : v.ty.checkValue a = v.ty.checkValue b) :
    Outcomes c (Alike c) (v.setInitial a) (v.setInitial b) := by
  have hnone : (v.isFinal && v.isInitialized) = false := by simp [isInitialized, h]
  simp only [setInitial, hnone]
  exact (alike_of_value_eq_none h).storeChecked hab

/-- A text that cannot be read as a variable stands for itself. -/
theorem resolve_literal {lookup : Text → Option Variable} {target : Ty} {raw : Text}
    (hlook : lookup raw = none) (hlike : Name.isNameLike raw = false) :
    resolve lookup target raw = .ok raw := by
  simp [resolve, hlook, hlike]

/-- A raw value stands for texts that the target type does not tell apart. -/
theorem resolve_alike {look look' : Text → Option Variable}
    (h : ∀ name, Option.Rel (Alike c) (look name) (look' name)) (target : Ty) (raw : Text) :
    Outcomes c (fun a b => target.checkValue a = target.checkValue b)
      (resolve look target raw) (resolve look' target raw) := by
  rcases option_rel_iff.1 (h raw) with ⟨hv, hw⟩ | ⟨v, w, hv, hw, hvw⟩
  · rw [resolve, resolve, hv, hw]
    exact .refl (R := fun a b => target.checkValue a = target.checkValue b) (fun _ => rfl) _
  · obtain ⟨-, hty, -, hinit, hvalid, hvalid'⟩ := hvw
    simp only [resolve, hv, hw]
    cases ha : v.value with
    | none =>
      cases hb : w.value with
      | none => exact .error fun _ => rfl
      | some b =>
        have hmore : c = .more := by
          rw [isInitialized, isInitialized, ha, hb] at hinit
          exact hinit.eq_more
        exact .of_more hmore _ _
    | some a =>
      obtain ⟨b, hb⟩ : ∃ b, w.value = some b := by
        rw [isInitialized, ha] at hinit
        exact Option.isSome_iff_exists.1 hinit.of_true
      simp only [hb, ← hty]
      split
      · next hwide =>
        refine .ok ?_
        rw [Ty.checkValue_of_holds (hwide.holds (hvalid a ha)),
          Ty.checkValue_of_holds (hwide.holds (hty ▸ hvalid' b hb))]
      · exact .error fun _ => rfl

end Variable

/-! ## Tables and stacks -/

namespace Scope

/-- Two tables of the same names, with variables that differ in their values. -/
def Alike (c : Comparison) (a b : Scope) : Prop :=
  ∀ name : Text, Option.Rel (Variable.Alike c) a[name]? b[name]?

variable {c : Comparison} {a b : Scope} {v w : Variable} {name : Text}

theorem alike_empty : Alike c ∅ ∅ := fun name => by
  simp only [Std.ExtTreeMap.getElem?_empty]
  exact .none

theorem Alike.mem_iff (h : Alike c a b) (name : Text) : name ∈ a ↔ name ∈ b := by
  rw [← Std.ExtTreeMap.isSome_getElem?_iff_mem, ← Std.ExtTreeMap.isSome_getElem?_iff_mem]
  rcases option_rel_iff.1 (h name) with ⟨ha, hb⟩ | ⟨v, w, ha, hb, -⟩ <;> simp [ha, hb]

theorem Alike.insert (h : Alike c a b) (hvw : v.Alike c w) (name : Text) :
    Alike c (a.insert name v) (b.insert name w) := fun x => by
  rw [Std.ExtTreeMap.getElem?_insert, Std.ExtTreeMap.getElem?_insert]
  split
  · exact .some hvw
  · exact h x

theorem lookup_alike {as bs : List Scope} (h : List.Forall₂ (Alike c) as bs) (name : Text) :
    Option.Rel (Variable.Alike c) (lookup as name) (lookup bs name) := by
  induction h with
  | nil => exact .none
  | cons hab _ ih =>
    rw [lookup_cons, lookup_cons]
    rcases option_rel_iff.1 (hab name) with ⟨ha, hb⟩ | ⟨v, w, ha, hb, hvw⟩
    · rw [ha, hb]
      exact ih
    · rw [ha, hb]
      exact .some hvw

/-- Changing the entry of a name alike in two lists of tables. -/
theorem update?_alike (name : Text) (f g : Variable → Except Fault Variable) {as bs : List Scope}
    (h : List.Forall₂ (Alike c) as bs)
    (hfg : ∀ v w, lookup as name = some v → v.Alike c w →
      Outcomes c (Variable.Alike c) (f v) (g w)) :
    Option.Rel (Outcomes c (List.Forall₂ (Alike c))) (update? f name as) (update? g name bs) := by
  induction h with
  | nil => exact .none
  | @cons a b as bs hab has ih =>
    have hlook : lookup (a :: as) name = a[name]?.or (lookup as name) := lookup_cons a as name
    simp only [update?]
    rcases option_rel_iff.1 (hab name) with ⟨ha, hb⟩ | ⟨v, w, ha, hb, hvw⟩
    · simp only [ha, hb, Option.none_or] at hlook ⊢
      have hrest := ih fun v w hv => hfg v w (hlook.trans hv)
      rcases option_rel_iff.1 hrest with ⟨hx, hy⟩ | ⟨x, y, hx, hy, hxy⟩
      · rw [hx, hy]
        exact .none
      · rw [hx, hy]
        exact .some (hxy.map fun _ _ hall => .cons hab hall)
    · simp only [ha, hb, Option.some_or] at hlook ⊢
      exact .some ((hfg v w hlook hvw).map fun _ _ hvw => .cons (hab.insert hvw name) has)

end Scope

namespace Stack

/-- Two stacks of the same height and the same method, with tables that differ
in the values of their variables. -/
structure Alike (c : Comparison) (s t : Stack) : Prop where
  globals : s.globals.Alike c t.globals
  blocks : List.Forall₂ (Scope.Alike c) s.blocks t.blocks
  active_eq : s.active = t.active

variable {c : Comparison} {s t : Stack}

namespace Alike

theorem tables (h : s.Alike c t) : List.Forall₂ (Scope.Alike c) s.tables t.tables :=
  List.rel_append h.blocks (.cons h.globals .nil)

theorem depth_eq (h : s.Alike c t) : s.depth = t.depth := by
  rw [depth, depth, h.blocks.length_eq]

theorem isGlobal_eq (h : s.Alike c t) : s.isGlobal = t.isGlobal := by
  rw [Bool.eq_iff_iff, isGlobal_iff, isGlobal_iff, h.depth_eq]

theorem lookup (h : s.Alike c t) (name : Text) :
    Option.Rel (Variable.Alike c) (s.lookup name) (t.lookup name) :=
  Scope.lookup_alike h.tables name

theorem enter (h : s.Alike c t) : s.enter.Alike c t.enter where
  globals := h.globals
  blocks := .cons Scope.alike_empty h.blocks
  active_eq := h.active_eq

theorem exit (h : s.Alike c t) : Outcomes c (Alike c) s.exit t.exit := by
  obtain ⟨globals, blocks, active⟩ := s
  obtain ⟨globals', blocks', active'⟩ := t
  obtain ⟨hglobals, hblocks, rfl : active = active'⟩ := h
  cases hblocks with
  | nil => exact .error fun _ => rfl
  | cons _ houter =>
    refine .ok ⟨hglobals, houter, ?_⟩
    simp only [houter.length_eq]

theorem track (h : s.Alike c t) (line : Text) : Outcomes c (Alike c) (s.track line) (t.track line) := by
  have hopened : (if Braces.opens line then s.enter else s).Alike c
      (if Braces.opens line then t.enter else t) := by
    split
    · exact h.enter
    · exact h
  simp only [Stack.track]
  split
  · exact hopened.exit
  · exact .ok hopened

theorem innermost (h : s.Alike c t) : s.innermost.Alike c t.innermost := by
  obtain ⟨globals, blocks, active⟩ := s
  obtain ⟨globals', blocks', active'⟩ := t
  obtain ⟨hglobals, hblocks, -⟩ := h
  cases hblocks with
  | nil => exact hglobals
  | cons htable _ => exact htable

theorem insert (h : s.Alike c t) {v w : Variable} (hvw : v.Alike c w) :
    (s.insert v).Alike c (t.insert w) := by
  obtain ⟨globals, blocks, active⟩ := s
  obtain ⟨globals', blocks', active'⟩ := t
  obtain ⟨hglobals, hblocks, hactive⟩ := h
  cases hblocks with
  | nil =>
    simp only [Stack.insert, ← hvw.name_eq]
    exact ⟨hglobals.insert hvw _, .nil, hactive⟩
  | cons htable houter =>
    simp only [Stack.insert, ← hvw.name_eq]
    exact ⟨hglobals, .cons (htable.insert hvw _) houter, hactive⟩

/-- Whether a variable can be declared does not depend on values. -/
theorem declareAll {vs ws : List Variable} (h : s.Alike c t)
    (hvs : List.Forall₂ (Variable.Alike c) vs ws) :
    (s.declareAll vs).1.Alike c (t.declareAll ws).1 ∧
      (s.declareAll vs).2 = (t.declareAll ws).2 := by
  induction hvs generalizing s t with
  | nil => exact ⟨h, rfl⟩
  | cons hvw _ ih =>
    simp only [Stack.declareAll, declare, ← hvw.name_eq, ← h.innermost.mem_iff]
    split
    · next hok =>
      split at hok
      · cases hok
      · next hfresh =>
        cases hok
        simp only [if_neg hfresh]
        exact ih (h.insert hvw)
    · next herror =>
      split at herror
      · next hdeclared =>
        simp only [if_pos hdeclared]
        exact ⟨h, by rw [Except.error.inj herror]⟩
      · cases herror

/-- Changing the variable that a name stands for, alike in two stacks. -/
theorem update? (h : s.Alike c t) {name : Text} {f g : Variable → Except Fault Variable}
    (hfg : ∀ v w, s.lookup name = some v → v.Alike c w →
      Outcomes c (Variable.Alike c) (f v) (g w)) :
    Option.Rel (Outcomes c (Alike c)) (s.update? f name) (t.update? g name) := by
  have hlook : s.lookup name = (Scope.lookup s.blocks name).or s.globals[name]? := by
    rw [Stack.lookup, Stack.tables, Scope.lookup_append, Scope.lookup_cons, Scope.lookup_nil,
      Option.or_none]
  have hblocks := Scope.update?_alike name f g h.blocks fun v w hv =>
    hfg v w (by rw [hlook, hv, Option.some_or])
  have hin := Scope.update?_isSome f name s.blocks
  simp only [Stack.update?]
  rcases option_rel_iff.1 hblocks with ⟨hx, hy⟩ | ⟨x, y, hx, hy, hxy⟩
  · have hnone : Scope.lookup s.blocks name = none := by simpa [hx] using hin.symm
    rw [hnone, Option.none_or] at hlook
    rw [hx, hy]
    rcases option_rel_iff.1 (h.globals name) with ⟨ha, hb⟩ | ⟨v, w, ha, hb, hvw⟩
    · rw [ha, hb]
      exact .none
    · rw [ha] at hlook ⊢
      rw [hb]
      exact .some ((hfg v w hlook hvw).map fun _ _ hvw =>
        ⟨h.globals.insert hvw name, h.blocks, h.active_eq⟩)
  · rw [hx, hy]
    exact .some (hxy.map fun _ _ hall => ⟨h.globals, hall, h.active_eq⟩)

/-! ## Statements -/

theorem clauseVariable (h : s.Alike c t) (ty : Ty) (isFinal : Bool) (clause : Clause) :
    Outcomes c (Variable.Alike c) (s.clauseVariable ty isFinal clause)
      (t.clauseVariable ty isFinal clause) := by
  unfold Stack.clauseVariable
  cases hnew : Variable.new clause.name ty isFinal with
  | error fault => exact .error fun _ => rfl
  | ok v =>
    obtain ⟨-, rfl⟩ := Variable.new_eq_ok_iff.1 hnew
    rw [ok_bind, ok_bind]
    split
    · exact (Variable.resolve_alike h.lookup ty _).bind fun a b hab =>
        Variable.setInitial_alike rfl hab
    · split
      · exact .error fun _ => rfl
      · exact .ok (Variable.alike_of_value_eq_none rfl)

theorem declareLine (h : s.Alike c t) (line : Text) :
    Outcomes c (Alike c) (s.declareLine line) (t.declareLine line) := by
  refine .bind_same fun d => .bind_same fun ty => ?_
  refine (Outcomes.mapM (h.clauseVariable ty d.isFinal) d.clauses).bind fun vs ws hvs => ?_
  have hall := h.declareAll hvs
  generalize s.declareAll vs = p at hall ⊢
  generalize t.declareAll ws = q at hall ⊢
  obtain ⟨s', fault⟩ := p
  obtain ⟨t', fault'⟩ := q
  obtain ⟨hst, rfl : fault = fault'⟩ := hall
  cases fault with
  | none => exact .ok hst
  | some fault => exact .error fun _ => rfl

/-- Two assignments to one variable, of values that its type does not tell
apart. -/
theorem assign_of_resolve (h : s.Alike c t) {target raw raw' : Text}
    (hraw : ∀ v, s.lookup target = some v →
      Outcomes c (fun a b => v.ty.checkValue a = v.ty.checkValue b)
        (Variable.resolve s.lookup v.ty raw) (Variable.resolve t.lookup v.ty raw')) :
    Outcomes c (Alike c) (s.assign ⟨target, raw⟩) (t.assign ⟨target, raw'⟩) := by
  unfold Stack.assign
  rcases option_rel_iff.1 (h.lookup target) with ⟨hs, ht⟩ | ⟨v, w, hs, ht, hvw⟩
  · simp only [hs, ht]
    exact .error fun _ => rfl
  · simp only [hs, ht]
    rw [← hvw.isFinal_eq, ← hvw.ty_eq]
    split
    · exact .error fun _ => rfl
    refine (hraw v hs).bind fun x y hxy => ?_
    have hupdate : Option.Rel (Outcomes c (Alike c)) (s.update? (·.reassign x) target)
        (t.update? (·.reassign y) target) := h.update? fun v' w' hv' hvw' => by
      cases hs.symm.trans hv'
      exact hvw'.reassign hxy
    rcases option_rel_iff.1 hupdate with ⟨hx, hy⟩ | ⟨x', y', hx, hy, hxy'⟩
    · rw [hx, hy]
      exact .error fun _ => rfl
    · rw [hx, hy]
      exact hxy'

theorem assign (h : s.Alike c t) (a : Assignment) :
    Outcomes c (Alike c) (s.assign a) (t.assign a) :=
  h.assign_of_resolve fun v _ => Variable.resolve_alike h.lookup v.ty a.value

/-- Assigning one of two literals of the type of the variable. -/
theorem assign_literal (h : s.Alike c t) {target a b : Text}
    (hab : ∀ raw ∈ [a, b], s.lookup raw = none ∧ Name.isNameLike raw = false ∧
      ∀ v, s.lookup target = some v → v.ty.holds raw = true) :
    Outcomes c (Alike c) (s.assign ⟨target, a⟩) (t.assign ⟨target, b⟩) := by
  obtain ⟨hlook, hlike, ha⟩ := hab a (by simp)
  obtain ⟨hlook', hlike', hb⟩ := hab b (by simp)
  refine h.assign_of_resolve fun v hv => ?_
  have hnone : t.lookup b = none := by
    rcases option_rel_iff.1 (h.lookup b) with ⟨-, hnone⟩ | ⟨_, _, hsome, -⟩
    · exact hnone
    · rw [hlook'] at hsome
      cases hsome
  rw [Variable.resolve_literal hlook hlike, Variable.resolve_literal hnone hlike']
  exact .ok (by rw [Ty.checkValue_of_holds (ha v hv), Ty.checkValue_of_holds (hb v hv)])

theorem assignLine (h : s.Alike c t) (line : Text) :
    Outcomes c (Alike c) (s.assignLine line) (t.assignLine line) :=
  .bind_same fun as => .foldlM h (fun _ _ a h => h.assign a) as

theorem checkOperand (h : s.Alike c t) (operand : Text) :
    Outcomes c Eq (s.checkOperand operand) (t.checkOperand operand) := by
  rcases option_rel_iff.1 (h.lookup operand) with ⟨hs, ht⟩ | ⟨v, w, hs, ht, hvw⟩
  · rw [Stack.checkOperand, Stack.checkOperand, hs, ht]
    exact .refl (fun _ => rfl) _
  · have hinit := hvw.initialized
    simp only [Stack.checkOperand, hs, ht, ← hvw.ty_eq]
    cases hv : v.isInitialized with
    | true =>
      rw [hv] at hinit
      rw [hinit.of_true]
      exact .refl (fun _ => rfl) _
    | false =>
      cases hw : w.isInitialized with
      | false => exact .error fun _ => rfl
      | true =>
        rw [hv, hw] at hinit
        exact .of_more hinit.eq_more _ _

theorem checkCondition (h : s.Alike c t) (line : Text) :
    Outcomes c Eq (s.checkCondition line) (t.checkCondition line) :=
  .bind_same fun operands => .forM h.checkOperand operands

theorem checkCall (h : s.Alike c t) (methods : Registry) (line : Text) :
    Outcomes c Eq (s.checkCall methods line) (t.checkCall methods line) := by
  refine .bind_same fun call => ?_
  split
  · next m _ =>
    unfold Method.checkArguments
    split
    · refine .forM (fun i => ?_) _
      exact (Variable.resolve_alike h.lookup i.1.ty i.2).bind fun a b hab => by
        rw [hab]
        exact .refl (fun _ => rfl) _
    · exact .error fun _ => rfl
  · exact .error fun _ => rfl

end Alike

/-- Starts checking a method as `enterMethod` does, with other values for its
parameters. -/
def enterMethodWith (literal : Variable → Text) (s : Stack) (m : Method) : Stack × Option Fault :=
  Stack.declareAll { s with active := some ⟨m, s.depth⟩ }
    (m.parameters.map fun v => { v with value := some (literal v) })

theorem enterMethod_eq (s : Stack) (m : Method) :
    s.enterMethod m = s.enterMethodWith (·.ty.defaultValue) m := rfl

theorem Alike.enterMethodWith (h : s.Alike c t) {literal literal' : Variable → Text} {m : Method}
    (hl : ∀ v ∈ m.parameters, v.ty.holds (literal v) = true)
    (hl' : ∀ v ∈ m.parameters, v.ty.holds (literal' v) = true) :
    (s.enterMethodWith literal m).1.Alike c (t.enterMethodWith literal' m).1 ∧
      (s.enterMethodWith literal m).2 = (t.enterMethodWith literal' m).2 := by
  refine Alike.declareAll ⟨h.globals, h.blocks, by rw [h.depth_eq]⟩ ?_
  rw [List.forall₂_map_left_iff, List.forall₂_map_right_iff, List.forall₂_same]
  exact fun v hv =>
    { name_eq := rfl, ty_eq := rfl, isFinal_eq := rfl, initialized := c.admits_refl true
      valid_left := by rintro _ ⟨⟩; exact hl v hv
      valid_right := by rintro _ ⟨⟩; exact hl' v hv }

end Stack

/-! ## Lines and runs -/

/-- Walks whose steps have related outcomes have related outcomes. -/
theorem walk_outcomes {σ τ : Type} {c : Comparison} {R : σ → τ → Prop} {step : σ → Text → Except Fault σ}
    {step' : τ → Text → Except Fault τ}
    (hline : ∀ {s t} line, R s t → Outcomes c R (step s line) (step' t line)) {s : σ} {t : τ} (h : R s t)
    (ls : List Line) : Outcomes c R (walk step s ls) (walk step' t ls) :=
  .foldlM h (fun _ _ l hst => (hline l.text hst).mapError _) ls

namespace State

/-- Two states with the same methods, and with stacks that differ in the values
of their variables. -/
structure Alike (c : Comparison) (s t : State) : Prop where
  stack : s.stack.Alike c t.stack
  methods_eq : s.methods = t.methods

variable {c : Comparison} {s t : State}

theorem Alike.withStacks (h : s.Alike c t) {u v : Stack} (huv : u.Alike c v) :
    Alike c { s with stack := u } { t with stack := v } :=
  ⟨huv, h.methods_eq⟩

theorem track_alike (h : s.Alike c t) (line : Text) :
    Outcomes c (fun p q => p.1.Alike c q.1 ∧ p.2 = q.2) (s.track line) (t.track line) :=
  (h.stack.track line).bind fun _ _ huv => .bind_same fun _ => .ok ⟨h.withStacks huv, rfl⟩

/-- A line inside a method, from two alike states. -/
theorem bodyLine_alike (h : s.Alike c t) (line : Text) :
    Outcomes c (fun p q => p.1.Alike c q.1 ∧ p.2 = q.2) (s.bodyLine line) (t.bodyLine line) := by
  refine (track_alike h line).bind ?_
  rintro ⟨u, kind⟩ ⟨v, _⟩ ⟨huv, rfl⟩
  cases kind with
  | methodHeader => exact .error fun _ => rfl
  | condition => exact (huv.stack.checkCondition line).bind fun _ _ _ => .ok ⟨huv, rfl⟩
  | call =>
    dsimp only
    rw [huv.methods_eq]
    exact (huv.stack.checkCall _ line).bind fun _ _ _ => .ok ⟨huv, rfl⟩
  | declaration =>
    exact (huv.stack.declareLine line).bind fun _ _ hst => .ok ⟨huv.withStacks hst, rfl⟩
  | assignment =>
    exact (huv.stack.assignLine line).bind fun _ _ hst => .ok ⟨huv.withStacks hst, rfl⟩
  | returnStatement | scopeEnd => exact .ok ⟨huv, rfl⟩

theorem register_alike (h : s.Alike c t) (line : Text) :
    Outcomes c (Alike c) (s.register line) (t.register line) := by
  refine .bind_same fun m => ?_
  dsimp only
  rw [h.methods_eq]
  split
  · exact .error fun _ => rfl
  · exact .ok ⟨h.stack, rfl⟩

/-- A line of the first walk, from two alike states. -/
theorem outlineLine_alike (h : s.Alike c t) (line : Text) :
    Outcomes c (Alike c) (s.outlineLine line) (t.outlineLine line) := by
  refine (track_alike h line).bind ?_
  rintro ⟨u, kind⟩ ⟨v, _⟩ ⟨huv, rfl⟩
  cases kind <;> simp only [outlineKind, huv.stack.depth_eq, huv.stack.isGlobal_eq]
  case methodHeader => exact register_alike huv line
  case scopeEnd => exact .ok huv
  all_goals split
  case declaration.isTrue => exact (huv.stack.declareLine line).map fun _ _ => huv.withStacks
  case assignment.isTrue => exact (huv.stack.assignLine line).map fun _ _ => huv.withStacks
  case condition.isTrue | call.isTrue | returnStatement.isTrue => exact .error fun _ => rfl
  all_goals exact .ok huv

/-- Lines inside a method, with the kinds of all of them. -/
def bodyLines (s : State) (ls : List Line) : Except Failure (State × List Kind) := walkWith bodyLine s ls

theorem bodyLines_alike (h : s.Alike c t) (ls : List Line) :
    Outcomes c (fun p q => p.1.Alike c q.1 ∧ p.2 = q.2) (s.bodyLines ls) (t.bodyLines ls) := by
  refine walk_outcomes (fun line hpq => ?_) ⟨h, rfl⟩ ls
  exact (bodyLine_alike hpq.1 line).map fun _ _ hline => ⟨hline.1, by rw [hpq.2, hline.2]⟩

theorem outlineLines_alike (h : s.Alike c t) (ls : List Line) :
    Outcomes c (Alike c) (s.outlineLines ls) (t.outlineLines ls) :=
  walk_outcomes (fun line hst => outlineLine_alike hst line) h ls

/-- The values that variables hold decide nothing: lines inside a method, and
lines of the first walk, have the same outcome in two states that differ in no
more than that. So it does not matter which literals the parameters hold by
default, nor which of two literals is assigned. -/
theorem values_decide_nothing {s t : State} (h : s.Alike .same t) :
    (∀ ls, Outcomes .same (fun p q => p.1.Alike .same q.1 ∧ p.2 = q.2)
        (s.bodyLines ls) (t.bodyLines ls)) ∧
      (∀ ls, Outcomes .same (Alike .same) (s.outlineLines ls) (t.outlineLines ls)) ∧
      (∀ (m : Method) (literal : Variable → Text),
        (∀ v ∈ m.parameters, v.ty.holds (literal v) = true) →
          (s.stack.enterMethod m).1.Alike .same (t.stack.enterMethodWith literal m).1 ∧
            (s.stack.enterMethod m).2 = (t.stack.enterMethodWith literal m).2) ∧
      ∀ target a b : Text,
        (∀ raw ∈ [a, b], s.stack.lookup raw = none ∧ Name.isNameLike raw = false ∧
          ∀ v, s.stack.lookup target = some v → v.ty.holds raw = true) →
          Outcomes .same (Stack.Alike .same) (s.stack.assign ⟨target, a⟩)
            (t.stack.assign ⟨target, b⟩) := by
  refine ⟨bodyLines_alike h, outlineLines_alike h, fun m literal hl => ?_,
    fun target a b hab => h.stack.assign_literal hab⟩
  rw [Stack.enterMethod_eq]
  exact h.stack.enterMethodWith (fun v _ => Ty.holds_defaultValue v.ty) hl

/-- A state whose only variable is a global `x` of type `int` with that value. -/
def oneGlobal (literal : Text) : State :=
  { stack := { globals := (∅ : Scope).insert ['x'] ⟨['x'], .int, false, some literal⟩ } }

theorem oneGlobal_alike {c : Comparison} {a b : Text} (ha : Ty.int.holds a = true)
    (hb : Ty.int.holds b = true) : Alike c (oneGlobal a) (oneGlobal b) where
  methods_eq := rfl
  stack :=
    { globals := Scope.alike_empty.insert
        ((Variable.alike_of_value_eq_none (v := ⟨['x'], .int, false, none⟩) rfl).withValues ha hb) _
      blocks := .nil
      active_eq := rfl }

/-- A body cannot tell whether a global holds 1 or 2: a line that refuses the one refuses
the other, for the same fault. -/
theorem values_decide_nothing_oneGlobal :
    let ls := [⟨1, "boolean y = x;".toList⟩, ⟨2, "x = 3;".toList⟩, ⟨3, "char c = x;".toList⟩]
    Alike .same (oneGlobal ['1']) (oneGlobal ['2']) ∧
      ∃ e, (oneGlobal ['1']).bodyLines ls = .error e ∧ (oneGlobal ['2']).bodyLines ls = .error e := by
  intro ls
  have halike := oneGlobal_alike (c := .same) (a := ['1']) (b := ['2']) (by decide) (by decide)
  have hfails : ((oneGlobal ['1']).bodyLines ls).toOption.isNone = true := by decide +kernel
  refine ⟨halike, ?_⟩
  rcases Outcomes.same_iff.1 ((values_decide_nothing halike).1 ls) with h | ⟨a, b, ha, -, -⟩
  · exact h
  · rw [ha] at hfails
    cases hfails

end State

end SJava
