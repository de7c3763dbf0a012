import Mathlib.Data.List.Forall2

/-!
# Steps that can fail

* `bind_eq_ok_iff`, `mapM_eq_ok_iff`, `forM_eq_ok_iff`: when a sequence of steps
  succeeds;
* `bind_eq_error_iff`, `forM_eq_error_iff`: and with what it fails;
* `toOption_bind`, `toOption_mapM`, `toOption_forM`: what is left of it without the
  faults.
-/

namespace SJava

variable {α β ε : Type}

theorem ok_bind (a : α) (f : α → Except ε β) : Except.ok a >>= f = f a := rfl

theorem bind_eq_ok_iff {x : Except ε α} {f : α → Except ε β} {b : β} :
    x >>= f = .ok b ↔ ∃ a, x = .ok a ∧ f a = .ok b := by
  cases x <;> simp [bind, Except.bind]

theorem bind_eq_error_iff {x : Except ε α} {f : α → Except ε β} {e : ε} :
    x >>= f = .error e ↔ x = .error e ∨ ∃ a, x = .ok a ∧ f a = .error e := by
  cases x <;> simp [bind, Except.bind]

@[simp] theorem pure_eq_ok_iff {a b : α} : (pure a : Except ε α) = .ok b ↔ a = b := by
  simp [pure, Except.pure]

theorem ok_ne_error {fault : ε} {a : α} : (.ok a : Except ε α) ≠ .error fault := nofun

theorem throw_ne_ok {fault : ε} {a : α} : (throw fault : Except ε α) ≠ .ok a := nofun

theorem exists_eq_error_iff {x : Except ε α} : (∃ fault, x = .error fault) ↔ ∀ a, x ≠ .ok a := by
  cases x <;> simp

theorem map_eq_ok_iff {x : Except ε α} {f : α → β} {b : β} :
    x.map f = .ok b ↔ ∃ a, x = .ok a ∧ f a = b := by
  cases x <;> simp [Except.map]

theorem map_eq_error_iff {x : Except ε α} {f : α → β} {e : ε} :
    x.map f = .error e ↔ x = .error e := by
  cases x <;> simp [Except.map]

theorem mapError_eq_ok_iff {ε' : Type} {x : Except ε α} {f : ε → ε'} {a : α} :
    x.mapError f = .ok a ↔ x = .ok a := by
  cases x <;> simp [Except.mapError]

theorem mapError_eq_error_iff {ε' : Type} {x : Except ε α} {f : ε → ε'} {e : ε'} :
    x.mapError f = .error e ↔ ∃ fault, x = .error fault ∧ f fault = e := by
  cases x <;> simp [Except.mapError]

/-- Mapping succeeds when it does on every element. -/
theorem mapM_eq_ok_iff {f : α → Except ε β} {xs : List α} {ys : List β} :
    xs.mapM f = .ok ys ↔ List.Forall₂ (fun x y => f x = .ok y) xs ys := by
  induction xs generalizing ys with
  | nil => cases ys <;> simp [pure, Except.pure]
  | cons x xs ih =>
    rw [List.mapM_cons, bind_eq_ok_iff]
    simp only [bind_eq_ok_iff, pure_eq_ok_iff, ih]
    cases ys with
    | nil => simp
    | cons y ys =>
      simp only [List.cons.injEq, List.forall₂_cons]
      constructor
      · rintro ⟨y', hy, ys', hys, rfl, rfl⟩
        exact ⟨hy, hys⟩
      · rintro ⟨hy, hys⟩
        exact ⟨y, hy, ys, hys, rfl, rfl⟩

theorem exists_of_forall₂ {α β : Type} {R : α → β → Prop} {xs : List α} {ys : List β}
    (h : List.Forall₂ R xs ys) {y : β} (hy : y ∈ ys) : ∃ x ∈ xs, R x y := by
  induction h with
  | nil => cases hy
  | @cons x z xs ys hxz _ ih =>
    rcases List.mem_cons.1 hy with rfl | hy
    · exact ⟨x, List.mem_cons_self, hxz⟩
    · obtain ⟨x', hx', hr⟩ := ih hy
      exact ⟨x', List.mem_cons_of_mem _ hx', hr⟩

theorem ne_nil_of_forall₂ {α β : Type} {R : α → β → Prop} {xs : List α} {ys : List β}
    (h : List.Forall₂ R xs ys) (hne : xs ≠ []) : ys ≠ [] := by
  cases h with
  | nil => exact absurd rfl hne
  | cons => exact List.cons_ne_nil _ _

theorem exists_const_unit {p : Unit → Prop} {q : Prop} : (∃ u, p u ∧ q) ↔ p () ∧ q :=
  ⟨fun ⟨_, h⟩ => h, fun h => ⟨(), h⟩⟩

/-- Checking all elements succeeds when each check does. -/
theorem forM_eq_ok_iff {f : α → Except ε Unit} {xs : List α} :
    xs.forM f = .ok () ↔ ∀ x ∈ xs, f x = .ok () := by
  induction xs with
  | nil => simp [pure, Except.pure]
  | cons x xs ih =>
    show (f x >>= fun _ => xs.forM f) = _ ↔ _
    rw [bind_eq_ok_iff, exists_const_unit, ih, List.forall_mem_cons]

/-- Checking all elements fails as the first check does that fails. -/
theorem forM_eq_error_iff {f : α → Except ε Unit} {xs : List α} {e : ε} :
    xs.forM f = .error e ↔ ∃ (i : Nat) (x : α), xs[i]? = some x ∧ f x = .error e ∧
      ∀ j < i, ∀ y, xs[j]? = some y → f y = .ok () := by
  induction xs with
  | nil => simp [pure, Except.pure]
  | cons x xs ih =>
    show (f x >>= fun _ => xs.forM f) = _ ↔ _
    rw [bind_eq_error_iff, exists_const_unit, ih]
    constructor
    · rintro (hx | ⟨hx, i, y, hy, he, hbefore⟩)
      · exact ⟨0, x, rfl, hx, fun j hj => absurd hj (Nat.not_lt_zero j)⟩
      · refine ⟨i + 1, y, by simpa using hy, he, fun j hj z hz => ?_⟩
        cases j with
        | zero => exact Option.some.inj hz ▸ hx
        | succ j => exact hbefore j (Nat.lt_of_succ_lt_succ hj) z (by simpa using hz)
    · rintro ⟨i, y, hy, he, hbefore⟩
      cases i with
      | zero => exact .inl (Option.some.inj hy ▸ he)
      | succ i =>
        refine .inr ⟨hbefore 0 (Nat.succ_pos i) x rfl, i, y, by simpa using hy, he, fun j hj z hz => ?_⟩
        exact hbefore (j + 1) (Nat.succ_lt_succ hj) z (by simpa using hz)

/-- The steps up to a place are those in front of it, and the one at it. -/
theorem foldlM_take_add_one_eq_ok {f : β → α → Except ε β} {b c : β} {xs : List α} {n : Nat} {x : α}
    (hx : xs[n]? = some x) :
    (xs.take (n + 1)).foldlM f b = .ok c ↔ ∃ d, (xs.take n).foldlM f b = .ok d ∧ f d x = .ok c := by
  rw [List.take_add_one, hx, List.foldlM_append, bind_eq_ok_iff]
  simp only [Option.toList_some, List.foldlM_cons, List.foldlM_nil, bind_pure]

/-- Steps that go through get to every place. -/
theorem exists_foldlM_take {f : β → α → Except ε β} {b c : β} {xs : List α}
    (h : xs.foldlM f b = .ok c) (n : Nat) : ∃ d, (xs.take n).foldlM f b = .ok d := by
  rw [← List.take_append_drop n xs, List.foldlM_append] at h
  obtain ⟨d, hd, -⟩ := bind_eq_ok_iff.1 h
  exact ⟨d, hd⟩

/-! ## Without the faults -/

theorem toOption_bind (x : Except ε α) (f : α → Except ε β) :
    (x >>= f).toOption = x.toOption >>= fun a => (f a).toOption := by
  cases x <;> rfl

theorem toOption_map (x : Except ε α) (f : α → β) : (x.map f).toOption = x.toOption.map f := by
  cases x <;> rfl

theorem exists_eq_ok_iff {x : Except ε α} : (∃ a, x = .ok a) ↔ x.toOption.isSome = true := by
  cases x <;> simp [Except.toOption]

theorem toOption_map_eq_some_iff {x : Except ε α} {f : α → β} {b : β} :
    x.toOption.map f = some b ↔ ∃ a, x = .ok a ∧ f a = b := by
  cases x <;> simp [Except.toOption]

theorem toOption_mapM (f : α → Except ε β) (xs : List α) :
    (xs.mapM f).toOption = xs.mapM fun x => (f x).toOption := by
  induction xs with
  | nil => rfl
  | cons x xs ih =>
    rw [List.mapM_cons, List.mapM_cons, toOption_bind]
    congr 1
    funext y
    rw [toOption_bind, ih]
    rfl

theorem toOption_forM (f : α → Except ε Unit) (xs : List α) :
    (xs.forM f).toOption = guard (xs.all fun x => (f x).toOption.isSome) := by
  induction xs with
  | nil => rfl
  | cons x xs ih =>
    show (f x >>= fun _ => xs.forM f).toOption = _
    rw [toOption_bind, ih, List.all_cons]
    cases f x <;> rfl

end SJava
