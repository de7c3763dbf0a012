import SJava.Check.Statement
import SJava.Proofs.Entries
import SJava.Proofs.Except

/-!
# What statements do to the entries

For every kind of statement that changes a stack, when it succeeds and which
entries the stack has afterwards.

* `Stack.declareLine_eq_ok`: a declaration adds an entry for every clause to the
  innermost block;
* `Stack.assign_eq_ok`: an assignment gives a value to the entry that its target
  stands for.

Neither changes the depth or the method being checked.
-/

namespace SJava

namespace Variable

variable {lookup : Text → Option Variable} {target : Ty} {raw value : Text}

/-- A raw value stands for that of a variable, or for itself. -/
theorem resolve_eq_ok (h : resolve lookup target raw = .ok value) :
    (∃ v, lookup raw = some v ∧ v.value = some value ∧ Ty.Widens v.ty target) ∨
      lookup raw = none ∧ Name.isNameLike raw = false ∧ value = raw := by
  unfold resolve at h
  split at h
  · next v hv =>
    split at h
    · cases h
    · next w hw =>
      split at h
      · next hwide => exact .inl ⟨v, hv, by rwa [← Except.ok.inj h], hwide⟩
      · cases h
  · next hnone =>
    split at h
    · cases h
    · next hlike => exact .inr ⟨hnone, Bool.eq_false_iff.2 hlike, (Except.ok.inj h).symm⟩

/-- A name that is read as a value stands for an initialized variable. -/
theorem exists_of_resolve_name (h : resolve lookup target raw = .ok value)
    (hraw : Name.isNameLike raw = true) :
    ∃ v, lookup raw = some v ∧ v.isInitialized = true := by
  rcases resolve_eq_ok h with ⟨v, hv, hval, -⟩ | ⟨-, hlike, -⟩
  · exact ⟨v, hv, by simp [isInitialized, hval]⟩
  · rw [hraw] at hlike
    cases hlike

end Variable

namespace Stack

/-- The variable that a clause declares. -/
structure Declares (s : Stack) (ty : Ty) (isFinal : Bool) (c : Clause) (v : Variable) : Prop where
  name_eq : v.name = c.name
  name_ok : Name.checkVariable v.name = .ok ()
  ty_eq : v.ty = ty
  isFinal_eq : v.isFinal = isFinal
  init : v.isInitialized = c.value.isSome
  final_init : isFinal = true → v.isInitialized = true
  holds : ∀ value, v.value = some value → ty.holds value = true
  resolve : ∀ raw, c.value = some raw → ∃ value, Variable.resolve s.lookup ty raw = .ok value ∧
    v.value = some value

theorem clauseVariable_eq_ok {s : Stack} {ty : Ty} {isFinal : Bool} {c : Clause} {v : Variable}
    (h : s.clauseVariable ty isFinal c = .ok v) : s.Declares ty isFinal c v := by
  obtain ⟨u, hu, h⟩ := bind_eq_ok_iff.1 h
  obtain ⟨hname, rfl⟩ := Variable.new_eq_ok_iff.1 hu
  cases hc : c.value with
  | none =>
    rw [hc] at h
    cases isFinal with
    | true => exact absurd h throw_ne_ok
    | false =>
      cases h
      exact { name_eq := rfl, name_ok := hname, ty_eq := rfl, isFinal_eq := rfl
              init := by simp [Variable.isInitialized, hc], final_init := by simp
              holds := by simp, resolve := by simp [hc] }
  | some raw =>
    rw [hc] at h
    obtain ⟨value, hr, h⟩ := bind_eq_ok_iff.1 h
    obtain ⟨rfl, hholds⟩ := Variable.setInitial_eq_ok h
    exact { name_eq := rfl, name_ok := hname, ty_eq := rfl, isFinal_eq := rfl
            init := by simp [Variable.isInitialized, hc]
            final_init := by simp [Variable.isInitialized]
            holds := by simpa using hholds
            resolve := fun r hr' => ⟨value, by rw [hc] at hr'; cases hr'; exact hr, rfl⟩ }

/-- A declaration line adds the variables of its clauses to the innermost
block. -/
theorem declareLine_eq_ok {s t : Stack} {line : Text} (h : s.declareLine line = .ok t) :
    ∃ d ty vs, Declaration.ofLine line = .ok d ∧ Ty.ofKeyword d.typeToken = .ok ty ∧
      List.Forall₂ (s.Declares ty d.isFinal) d.clauses vs ∧ s.declareAll vs = (t, none) := by
  obtain ⟨d, hd, h⟩ := bind_eq_ok_iff.1 h
  obtain ⟨ty, hty, h⟩ := bind_eq_ok_iff.1 h
  obtain ⟨vs, hvs, h⟩ := bind_eq_ok_iff.1 h
  refine ⟨d, ty, vs, hd, hty, (mapM_eq_ok_iff.1 hvs).imp fun _ _ => clauseVariable_eq_ok, ?_⟩
  split at h
  · next u hu => rw [hu, Except.ok.inj h]
  · exact absurd h throw_ne_ok

/-- An assignment gives a value to the entry that its target stands for, which
must not be final. -/
theorem assign_eq_ok {s t : Stack} {a : Assignment} (h : s.assign a = .ok t) :
    ∃ d v value, s.entry d a.target = some v ∧ (∀ e, d < e → s.entry e a.target = none) ∧
      v.isFinal = false ∧ Variable.resolve s.lookup v.ty a.value = .ok value ∧
      v.ty.holds value = true ∧ t.depth = s.depth ∧ t.active = s.active ∧
      ∀ e y, t.entry e y =
        if e = d ∧ y = a.target then some { v with value := some value } else s.entry e y := by
  unfold assign at h
  split at h
  · next target htarget =>
    dsimp only at h
    split at h
    · exact absurd h throw_ne_ok
    obtain ⟨value, hvalue, h⟩ := bind_eq_ok_iff.1 h
    cases hu : s.update? (·.reassign value) a.target with
    | none => rw [hu] at h; cases h
    | some r =>
      rw [hu, Option.getD_some] at h
      subst h
      obtain ⟨d, v, w, hd, hin, hw, hdepth, hactive, he⟩ := update?_eq_ok hu
      obtain ⟨rfl, hholds, hnf⟩ := Variable.reassign_eq_ok hw
      have hv : v = target := by
        have := lookup_eq_some_iff.2 ⟨d, hd, hin⟩
        rw [htarget] at this
        exact (Option.some.inj this).symm
      subst hv
      exact ⟨d, v, value, hd, hin, hnf, hvalue, hholds, hdepth, hactive, he⟩
  · exact absurd h throw_ne_ok

end Stack

end SJava
