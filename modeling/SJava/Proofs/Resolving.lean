import Mathlib.Logic.Basic
import SJava.Proofs.Values

/-!
# What a raw value stands for

A raw value is looked up before anything else is asked of it, and what it stands for is
then checked as a literal. In tables that hold variables under their own names, with
literals of their types, the lookup decides nothing that the literals do not allow:

* `Variable.Keyed.holds_eq_false`: a name that a table has an entry for is no literal;
* `Variable.check_resolve_of_some`, `Variable.check_resolve_of_none`: raw values that name
  an entry, and those that name none;
* `Variable.TellsApart`: names and literals told apart;
* `Stack.tellsApart`: which they are, in one table and in a stack of them.
-/

namespace SJava

/-! ## Checked literals -/

namespace Ty

variable {ty : Ty} {s : Text} {fault : Fault}

theorem checkValue_eq_ok_iff : ty.checkValue s = .ok () ↔ ty.holds s = true := by
  cases hholds : ty.holds s <;> simp [checkValue, hholds]

theorem checkValue_eq_error_iff :
    ty.checkValue s = .error fault ↔ ty.holds s = false ∧ fault = .invalidValue ty.keyword s := by
  cases hholds : ty.holds s <;> simp [checkValue, hholds, eq_comm]

end Ty

/-! ## Entries -/

namespace Variable

/-- What a table has under the name `x`: a variable of that name, with a literal of its
type or with none. -/
structure Keyed (v : Variable) (x : Text) : Prop where
  name_eq : v.name = x
  name_ok : Name.checkVariable x = .ok ()
  valid : v.Valid

variable {lookup : Text → Option Variable} {target : Ty} {raw value : Text} {v : Variable}

/-- The name of a variable is no literal. -/
theorem Keyed.holds_eq_false (h : v.Keyed raw) (ty : Ty) : ty.holds raw = false := by
  rw [Bool.eq_false_iff]
  intro hholds
  have hlike := Ty.isNameLike_of_holds hholds
  rw [Name.isNameLike_of_check h.name_ok] at hlike
  cases hlike

/-- The raw value names a variable in view that has a value, of a type that widens to the
target. -/
def Names (lookup : Text → Option Variable) (target : Ty) (raw : Text) : Prop :=
  ∃ v, lookup raw = some v ∧ v.isInitialized = true ∧ Ty.Widens v.ty target

/-! ## Raw values -/

/-- The value of a variable is a literal wherever its type widens to. -/
theorem holds_of_resolve (hv : lookup raw = some v) (hvalid : v.Valid)
    (h : resolve lookup target raw = .ok value) : target.holds value = true := by
  rcases resolve_eq_ok h with ⟨w, hw, hvalue, hwide⟩ | ⟨hnone, -, -⟩
  · obtain rfl := Option.some.inj (hv.symm.trans hw)
    exact hwide.holds (hvalid value hvalue)
  · rw [hv] at hnone
    cases hnone

/-- A raw value that names a variable is accepted when the variable suits the target, and
what is wrong with it is never the value. -/
theorem check_resolve_of_some (target : Ty) (hv : lookup raw = some v) (hvalid : v.Valid) :
    (resolve lookup target raw >>= target.checkValue = .ok () ↔
      v.isInitialized = true ∧ Ty.Widens v.ty target) ∧
    ∀ ty s, resolve lookup target raw >>= target.checkValue ≠ .error (.invalidValue ty s) := by
  cases hvalue : v.value with
  | none =>
    have hresolve : resolve lookup target raw = .error (.variableNotInitialized raw) := by
      simp [resolve, hv, hvalue]
    rw [hresolve]
    exact ⟨by simp [bind, Except.bind, isInitialized, hvalue], by rintro _ _ ⟨⟩⟩
  | some value =>
    by_cases hwide : Ty.Widens v.ty target
    · have hresolve : resolve lookup target raw = .ok value := by simp [resolve, hv, hvalue, hwide]
      rw [hresolve, ok_bind, Ty.checkValue_of_holds (holds_of_resolve hv hvalid hresolve)]
      exact ⟨by simp [isInitialized, hvalue, hwide], by rintro _ _ ⟨⟩⟩
    · have hresolve : resolve lookup target raw =
          .error (.incompatibleTypes target.keyword v.ty.keyword) := by
        simp [resolve, hv, hvalue, hwide]
      rw [hresolve]
      exact ⟨by simp [bind, Except.bind, hwide], by rintro _ _ ⟨⟩⟩

/-- A raw value that names no variable is accepted when it is a literal of the target. -/
theorem check_resolve_of_none (hnone : lookup raw = none) :
    resolve lookup target raw >>= target.checkValue =
      if Name.isNameLike raw then .error (.variableNotDeclared raw) else target.checkValue raw := by
  simp only [resolve, hnone]
  split <;> rfl

/-- Names and literals are told apart: for every target and every raw value, what is looked
up and what is checked as a literal do not get in each other's way. -/
structure TellsApart (lookup : Text → Option Variable) : Prop where
  /-- A raw value is accepted when it is one of the two, and not both. -/
  accepted : ∀ (target : Ty) (raw : Text), resolve lookup target raw >>= target.checkValue = .ok () ↔
    Xor (Names lookup target raw) (target.holds raw = true)
  exclusive : ∀ (target : Ty) (raw : Text), ¬(Names lookup target raw ∧ target.holds raw = true)
  /-- A literal of any type stands for itself, whatever the target. -/
  literal : ∀ (ty target : Ty) (raw : Text), ty.holds raw = true → resolve lookup target raw = .ok raw
  /-- The value of a variable is in order. -/
  copied : ∀ (target : Ty) (raw : Text) (v : Variable) (value : Text), lookup raw = some v →
    resolve lookup target raw = .ok value → target.checkValue value = .ok ()
  /-- A value is called invalid only if it was written as one. -/
  invalid : ∀ (target : Ty) (raw ty s : Text),
    resolve lookup target raw >>= target.checkValue = .error (.invalidValue ty s) ↔
      (lookup raw = none ∧ Name.isNameLike raw = false ∧ target.holds raw = false) ∧
        ty = target.keyword ∧ s = raw
  undeclared : ∀ (target : Ty) (raw : Text), Name.isNameLike raw = true → lookup raw = none →
    resolve lookup target raw = .error (.variableNotDeclared raw)

section

variable (hkeyed : ∀ x v, lookup x = some v → v.Keyed x)
include hkeyed

theorem not_names_and_holds (target : Ty) (raw : Text) :
    ¬(Names lookup target raw ∧ target.holds raw = true) := by
  rintro ⟨⟨v, hv, -, -⟩, hholds⟩
  rw [(hkeyed raw v hv).holds_eq_false] at hholds
  cases hholds

theorem check_resolve_eq_ok_iff (target : Ty) (raw : Text) :
    resolve lookup target raw >>= target.checkValue = .ok () ↔
      Xor (Names lookup target raw) (target.holds raw = true) := by
  cases hl : lookup raw with
  | some v =>
    have hliteral := (hkeyed raw v hl).holds_eq_false target
    rw [(check_resolve_of_some target hl (hkeyed raw v hl).valid).1]
    simp [Xor, Names, hl, hliteral]
  | none =>
    have hnames : ¬Names lookup target raw := by
      rintro ⟨v, hv, -⟩
      rw [hl] at hv
      cases hv
    rw [check_resolve_of_none hl]
    split
    · next hlike =>
      have hliteral : target.holds raw ≠ true := fun h => by
        rw [Ty.isNameLike_of_holds h] at hlike
        cases hlike
      simp [Xor, hnames, hliteral]
    · rw [Ty.checkValue_eq_ok_iff]
      simp [Xor, hnames]

theorem resolve_of_holds {ty : Ty} (target : Ty) (h : ty.holds raw = true) :
    resolve lookup target raw = .ok raw := by
  refine resolve_literal ?_ (Ty.isNameLike_of_holds h)
  cases hl : lookup raw with
  | none => rfl
  | some v =>
    rw [(hkeyed raw v hl).holds_eq_false] at h
    cases h

theorem check_resolve_eq_invalid_iff (target : Ty) (raw ty s : Text) :
    resolve lookup target raw >>= target.checkValue = .error (.invalidValue ty s) ↔
      (lookup raw = none ∧ Name.isNameLike raw = false ∧ target.holds raw = false) ∧
        ty = target.keyword ∧ s = raw := by
  cases hl : lookup raw with
  | some v =>
    have hno := (check_resolve_of_some target hl (hkeyed raw v hl).valid).2 ty s
    simp [hno]
  | none =>
    rw [check_resolve_of_none hl]
    split
    · next hlike => simp [hlike]
    · next hlike =>
      rw [Ty.checkValue_eq_error_iff, Fault.invalidValue.injEq]
      simp [hlike]

theorem tellsApart_of_keyed : TellsApart lookup where
  accepted := check_resolve_eq_ok_iff hkeyed
  exclusive := not_names_and_holds hkeyed
  literal _ target _ := resolve_of_holds hkeyed target
  copied _ raw v _ hv h := Ty.checkValue_of_holds (holds_of_resolve hv (hkeyed raw v hv).valid h)
  invalid := check_resolve_eq_invalid_iff hkeyed
  undeclared _ _ hlike hnone := by simp [resolve, hnone, hlike]

end

end Variable

/-! ## Tables and stacks -/

/-- A table in which every variable stands under its own name, valid. -/
def Scope.Keyed (table : Scope) : Prop := ∀ (x : Text) (v : Variable), table[x]? = some v → v.Keyed x

theorem Scope.keyed_empty : Scope.Keyed ∅ := fun x v h => by simp at h

theorem Scope.Keyed.insert {table : Scope} (h : table.Keyed) {v : Variable} (hv : v.Keyed v.name) :
    Scope.Keyed (table.insert v.name v) := fun x w hw => by
  rw [Std.ExtTreeMap.getElem?_insert] at hw
  split at hw
  · next hx =>
    cases hw
    obtain rfl := Std.LawfulEqCmp.eq_of_compare hx
    exact hv
  · exact h x w hw

namespace Stack

/-- Every table of the stack holds its variables under their own names. -/
def Keyed (s : Stack) : Prop := ∀ table ∈ s.tables, table.Keyed

theorem Keyed.of_lookup {s : Stack} (h : s.Keyed) {x : Text} {v : Variable}
    (hv : s.lookup x = some v) : v.Keyed x := by
  obtain ⟨table, htable, hentry⟩ := List.exists_of_findSome?_eq_some hv
  exact h table htable x v hentry

/-- In one table, and in a stack of them, names and literals are told apart. -/
theorem tellsApart :
    (∀ table : Scope, table.Keyed → Variable.TellsApart (table[·]?)) ∧
      ∀ s : Stack, s.Keyed → Variable.TellsApart s.lookup :=
  ⟨fun _ h => Variable.tellsApart_of_keyed h, fun _ h => Variable.tellsApart_of_keyed fun _ _ => h.of_lookup⟩

/-- A number hidden by a string of its name that has no value yet. -/
theorem tellsApart_hidden :
    let number : Variable := ⟨['a'], .int, false, some ['1']⟩
    let string : Variable := ⟨['a'], .string, false, none⟩
    let outer : Scope := (∅ : Scope).insert number.name number
    let inner : Scope := (∅ : Scope).insert string.name string
    let s : Stack := { globals := outer, blocks := [inner] }
    (outer.Keyed ∧ s.Keyed) ∧ (Variable.TellsApart (outer[·]?) ∧ Variable.TellsApart s.lookup) ∧
      Variable.resolve (outer[·]?) .double ['a'] >>= Ty.double.checkValue = .ok () ∧
      Variable.resolve s.lookup .double ['1'] >>= Ty.double.checkValue = .ok () ∧
      Variable.resolve s.lookup .string ['a'] = .error (.variableNotInitialized ['a']) := by
  intro number string outer inner s
  have hname : Name.checkVariable ['a'] = .ok () := by decide
  have houter : outer.Keyed := Scope.keyed_empty.insert (v := number)
    { name_eq := rfl, name_ok := hname, valid := by rintro _ ⟨⟩; decide }
  have hinner : inner.Keyed := Scope.keyed_empty.insert (v := string)
    { name_eq := rfl, name_ok := hname, valid := by rintro _ ⟨⟩ }
  have hs : s.Keyed := by
    rintro table (_ | ⟨_, _ | ⟨_, ⟨⟩⟩⟩)
    · exact hinner
    · exact houter
  have hcopied : Variable.Names (outer[·]?) .double ['a'] :=
    ⟨number, Std.ExtTreeMap.getElem?_insert_self, rfl, by decide⟩
  have hone := tellsApart.1 outer houter
  have hstack := tellsApart.2 s hs
  refine ⟨⟨houter, hs⟩, ⟨hone, hstack⟩, ?_, ?_, by decide +kernel⟩
  · exact (hone.accepted .double ['a']).2 (.inl ⟨hcopied, fun h => hone.exclusive _ _ ⟨hcopied, h⟩⟩)
  · rw [hstack.literal .int .double ['1'] (by decide), ok_bind]
    decide

end Stack

end SJava
