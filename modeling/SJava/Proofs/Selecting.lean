import SJava.Proofs.Operations
import SJava.Proofs.Resolving
import SJava.Proofs.Sequence

/-!
# The variable a name selects

A name is looked up to read a variable, and looked up again to write it. Both searches go
from the innermost table outwards, and both end at the same entry.

* `Variable.Write`, `Variable.Write.apply_eq_ok_iff`: the ways to give a variable a value,
  and when each can be used;
* `Stack.SeenAt`: where the entry lies that a name stands for;
* `Stack.differsAt_store`, `Stack.perform_change`: what a change does to the entries;
* `Stack.SelectsAlike`, `Stack.selectsAlike`: reading and writing select alike.
-/

namespace SJava

namespace Variable

/-- A way to give a variable a value. -/
inductive Write where
  | first (literal : Text)
  | another (literal : Text)
  | default

namespace Write

/-- The variable with its new value, unless it cannot have it. -/
def apply : Write → Variable → Except Fault Variable
  | first literal, v => v.setInitial literal
  | another literal, v => v.reassign literal
  | default, v => .ok v.setDefault

/-- The value that a variable of the type is given. -/
def value : Write → Ty → Text
  | first literal, _ => literal
  | another literal, _ => literal
  | default, ty => ty.defaultValue

/-- Whether the variable can be given a value in this way. -/
def Admits : Write → Variable → Prop
  | first literal, v => ¬(v.isFinal = true ∧ v.isInitialized = true) ∧ v.ty.holds literal = true
  | another literal, v => v.isFinal = false ∧ v.ty.holds literal = true
  | default, _ => True

variable {write : Write} {v w : Variable}

/-- A checked literal is given to the variable, which stays the same in all else. -/
theorem map_checkValue_eq_ok_iff {literal : Text} :
    ((v.ty.checkValue literal).map fun _ => { v with value := some literal }) = .ok w ↔
      v.ty.holds literal = true ∧ w = { v with value := some literal } := by
  rw [map_eq_ok_iff]
  constructor
  · intro h
    obtain ⟨_, hholds, hw⟩ := h
    exact ⟨Ty.checkValue_eq_ok_iff.1 hholds, hw.symm⟩
  · intro h
    exact ⟨(), Ty.checkValue_eq_ok_iff.2 h.1, h.2.symm⟩

/-- A variable that can be given the value has it afterwards, and is the same in all else. -/
theorem apply_eq_ok_iff :
    write.apply v = .ok w ↔ write.Admits v ∧ w = { v with value := some (write.value v.ty) } := by
  cases write with
  | first literal =>
    show v.setInitial literal = .ok w ↔ (¬(_ ∧ _) ∧ _) ∧ w = { v with value := some literal }
    rw [setInitial, and_assoc, ← map_checkValue_eq_ok_iff, ← Bool.and_eq_true]
    by_cases hset : (v.isFinal && v.isInitialized) = true
    · simp [hset]
    · simp [hset]
  | another literal =>
    show v.reassign literal = .ok w ↔ (_ ∧ _) ∧ w = { v with value := some literal }
    rw [reassign, and_assoc, ← map_checkValue_eq_ok_iff]
    cases hfinal : v.isFinal with
    | false => simp
    | true => simp
  | default =>
    show Except.ok v.setDefault = .ok w ↔ True ∧ w = v.setDefault
    rw [Except.ok.injEq, true_and, eq_comm]

end Write

end Variable

namespace Stack

variable {s t : Stack} {x y : Text} {d e : Nat} {v w : Variable}

/-! ## Where an entry is seen -/

/-- The table at depth `d` is the innermost one that has an entry of that name. -/
structure SeenAt (s : Stack) (name : Text) (d : Nat) : Prop where
  isSome : (s.entry d name).isSome = true
  innermost : ∀ e, d < e → s.entry e name = none

theorem SeenAt.not_lt (h : s.SeenAt x d) (h' : s.SeenAt x e) : ¬d < e := by
  intro hlt
  have hsome := h'.isSome
  rw [h.innermost e hlt] at hsome
  cases hsome

theorem SeenAt.unique (h : s.SeenAt x d) (h' : s.SeenAt x e) : d = e := by
  have hle := h.not_lt h'
  have hge := h'.not_lt h
  omega

theorem lookup_eq_some_iff_seenAt :
    s.lookup x = some v ↔ ∃ d, s.SeenAt x d ∧ s.entry d x = some v := by
  rw [lookup_eq_some_iff]
  constructor
  · intro h
    obtain ⟨d, hentry, hinner⟩ := h
    exact ⟨d, ⟨by rw [hentry]; rfl, hinner⟩, hentry⟩
  · intro h
    obtain ⟨d, hseen, hentry⟩ := h
    exact ⟨d, hentry, hseen.innermost⟩

theorem SeenAt.lookup_eq (h : s.SeenAt x d) : s.lookup x = s.entry d x := by
  obtain ⟨v, hv⟩ := Option.isSome_iff_exists.1 h.isSome
  rw [hv]
  exact lookup_eq_some_iff_seenAt.2 ⟨d, h, hv⟩

/-! ## What a change does -/

/-- `t` is `s` with `w` as its entry at depth `d` under the name `x`. -/
structure DiffersAt (s t : Stack) (x : Text) (d : Nat) (w : Variable) : Prop where
  depth : t.depth = s.depth
  active : t.active = s.active
  entry : ∀ e y, t.entry e y = if e = d ∧ y = x then some w else s.entry e y

/-- Putting a variable in the place of the one that a name stands for changes that entry
and no other. -/
theorem differsAt_store (h : s.SeenAt x d) (w : Variable) : s.DiffersAt (s.store x w) x d w := by
  obtain ⟨v, hv⟩ := Option.isSome_iff_exists.1 h.isSome
  have hupdate : s.update? (fun _ => .ok w) x = some (.ok (s.store x w)) := by
    rw [update?_eq_store, h.lookup_eq, hv]
    rfl
  obtain ⟨d', v', w', hd', hinner, hw, hdepth, hactive, hentry⟩ := update?_eq_ok hupdate
  have hsame : d' = d := SeenAt.unique ⟨by rw [hd']; rfl, hinner⟩ h
  cases hw
  subst hsame
  exact ⟨hdepth, hactive, hentry⟩

theorem DiffersAt.lookup_eq (h : s.DiffersAt t x d w) (hseen : s.SeenAt x d) :
    t.lookup x = some w := by
  refine lookup_eq_some_iff.2 ⟨d, ?_, fun e he => ?_⟩
  · rw [h.entry, if_pos ⟨rfl, rfl⟩]
  · rw [h.entry, if_neg (by omega), hseen.innermost e he]

/-- A change of a variable is carried out where its name stands for one. -/
theorem perform_change (s : Stack) (x : Text) (f : Variable → Except Fault Variable) :
    s.perform (.change x f) = (s.lookup x).elim (s, none) fun v => s.settle ((f v).map (s.store x)) := by
  rw [perform, update?_eq_store]
  cases s.lookup x with
  | none => rfl
  | some v => rfl

variable {f : Variable → Except Fault Variable} {fault : Fault}

theorem perform_change_of_ok (hv : s.lookup x = some v) (hf : f v = .ok w) :
    s.perform (.change x f) = (s.store x w, none) := by
  rw [perform_change, hv, Option.elim_some, hf]
  rfl

theorem perform_change_of_error (hv : s.lookup x = some v) (hf : f v = .error fault) :
    s.perform (.change x f) = (s, some fault) := by
  rw [perform_change, hv, Option.elim_some, hf]
  rfl

/-- A change that is refused is refused by the variable, and leaves the stack as it was. -/
theorem perform_change_eq_error_iff :
    s.perform (.change x f) = (t, some fault) ↔
      t = s ∧ ∃ v, s.lookup x = some v ∧ f v = .error fault := by
  rw [perform_change]
  cases hv : s.lookup x with
  | none => simp
  | some v => cases hf : f v <;> simp [hf, Except.map, settle, eq_comm]

/-- A value is given to the variable that the name stands for, or refused by it. -/
theorem perform_write (hv : s.lookup x = some v) (write : Variable.Write) :
    (write.Admits v ∧ s.perform (.change x write.apply) =
      (s.store x { v with value := some (write.value v.ty) }, none)) ∨
    (¬write.Admits v ∧ ∃ fault, s.perform (.change x write.apply) = (s, some fault)) := by
  cases happly : write.apply v with
  | ok w =>
    obtain ⟨hadmits, rfl⟩ := Variable.Write.apply_eq_ok_iff.1 happly
    exact .inl ⟨hadmits, perform_change_of_ok hv happly⟩
  | error fault =>
    refine .inr ⟨fun hadmits => ?_, fault, perform_change_of_error hv happly⟩
    rw [Variable.Write.apply_eq_ok_iff.2 ⟨hadmits, rfl⟩] at happly
    cases happly

/-- An assignment changes the variable of which it has asked whether it is final and which
literals it can hold. -/
theorem differsAt_of_assign {a : Assignment} (h : s.assign a = .ok t) :
    ∃ d v value, s.SeenAt a.target d ∧ s.entry d a.target = some v ∧ v.isFinal = false ∧
      v.ty.holds value = true ∧ s.DiffersAt t a.target d { v with value := some value } := by
  obtain ⟨w, ⟨v, value, hv, hfinal, -, hholds, rfl⟩, rfl⟩ := assign_eq_ok_iff.1 h
  obtain ⟨d, hseen, hentry⟩ := lookup_eq_some_iff_seenAt.1 hv
  exact ⟨d, v, value, hseen, hentry, hfinal, hholds, differsAt_store hseen _⟩

/-! ## Reading and writing -/

/-- What reading and writing by the name `x` have to do with each other. -/
structure SelectsAlike (s : Stack) (x : Text) : Prop where
  /-- What can be read can be written, whatever is made of it. -/
  found : ∀ f, (s.update? f x).isSome = (s.lookup x).isSome
  /-- What is read is the entry in the innermost table that has one. -/
  read : ∀ v, s.lookup x = some v ↔ ∃ d, s.SeenAt x d ∧ s.entry d x = some v
  /-- What is written is that same entry. -/
  changed : ∀ d v f, s.SeenAt x d → s.entry d x = some v →
    (∀ fault, f v = .error fault → s.update? f x = some (.error fault)) ∧
      ∀ w, f v = .ok w → ∃ t, s.update? f x = some (.ok t) ∧ s.DiffersAt t x d w
  /-- So an assignment writes the variable of which it asks what it may become. -/
  assigned : ∀ (a : Assignment) (t : Stack), a.target = x → s.assign a = .ok t →
    ∃ d v value, s.SeenAt x d ∧ s.entry d x = some v ∧ v.isFinal = false ∧
      v.ty.holds value = true ∧ s.DiffersAt t x d { v with value := some value }
  /-- A value can be given where the variable that is read admits it. -/
  admitted : ∀ (write : Variable.Write) (v : Variable), s.lookup x = some v →
    ((s.perform (.change x write.apply)).2 = none ↔ write.Admits v)
  /-- Behind that it is read under the name. Other names are read as before, and so is every
  other entry, those that the name hides among them. -/
  given : ∀ (write : Variable.Write) (v : Variable) (t : Stack), s.lookup x = some v →
    s.perform (.change x write.apply) = (t, none) →
      t.lookup x = some { v with value := some (write.value v.ty) } ∧
        (∀ y, y ≠ x → t.lookup y = s.lookup y) ∧
          ∃ d, s.SeenAt x d ∧ s.DiffersAt t x d { v with value := some (write.value v.ty) }
  /-- Where it is refused, the stack is as it was. -/
  refused : ∀ f t fault, s.perform (.change x f) = (t, some fault) →
    t = s ∧ ∃ v, s.lookup x = some v ∧ f v = .error fault

/-- Reading and writing by a name select the same entry of every stack. -/
theorem selectsAlike (s : Stack) (x : Text) : s.SelectsAlike x where
  found f := by rw [update?_eq_store, Option.isSome_map]
  read v := lookup_eq_some_iff_seenAt
  changed d v f hseen hentry := by
    have hupdate : s.update? f x = some ((f v).map (s.store x)) := by
      rw [update?_eq_store, hseen.lookup_eq, hentry, Option.map_some]
    refine ⟨fun fault hf => ?_, fun w hf => ⟨s.store x w, ?_, differsAt_store hseen w⟩⟩
    · rw [hupdate, hf]
      rfl
    · rw [hupdate, hf]
      rfl
  assigned a t htarget h := htarget ▸ differsAt_of_assign h
  admitted write v hv := by
    obtain ⟨hadmits, h⟩ | ⟨hadmits, fault, h⟩ := perform_write hv write
    · simp [h, hadmits]
    · simp [h, hadmits]
  given write v t hv h := by
    obtain ⟨-, hdone⟩ | ⟨-, fault, hrefused⟩ := perform_write hv write
    · obtain ⟨rfl, -⟩ := Prod.mk.inj (hdone.symm.trans h)
      obtain ⟨d, hseen, -⟩ := lookup_eq_some_iff_seenAt.1 hv
      have hdiffers := differsAt_store hseen { v with value := some (write.value v.ty) }
      exact ⟨hdiffers.lookup_eq hseen, fun y hy => lookup_store_of_ne hy s _, d, hseen, hdiffers⟩
    · rw [h] at hrefused
      cases hrefused
  refused f t fault h := perform_change_eq_error_iff.1 h

/-- A name that stands for an integer and hides a final string further out. -/
theorem selectsAlike_shadowed :
    let hidden : Variable := ⟨['x'], .string, true, some ['"', '"']⟩
    let s : Stack :=
      { globals := (∅ : Scope).insert ['x'] hidden
        blocks := [∅, (∅ : Scope).insert ['x'] ⟨['x'], .int, false, none⟩] }
    let write : Variable.Write := .another ['5']
    s.SelectsAlike ['x'] ∧
      ∃ t, s.perform (.change ['x'] write.apply) = (t, none) ∧
        t.lookup ['x'] = some ⟨['x'], .int, false, some ['5']⟩ ∧ t.entry 1 ['x'] = some hidden := by
  intro hidden s write
  have hselects := selectsAlike s ['x']
  have hread : s.lookup ['x'] = some ⟨['x'], .int, false, none⟩ := by decide +kernel
  have hdone := (hselects.admitted write _ hread).2 ⟨rfl, by decide +kernel⟩
  obtain ⟨t, ht⟩ : ∃ t, s.perform (.change ['x'] write.apply) = (t, none) := ⟨_, Prod.ext rfl hdone⟩
  obtain ⟨hwritten, -, d, hseen, hdiffers⟩ := hselects.given write _ t hread ht
  have hinner : s.entry 2 ['x'] ≠ none := by decide +kernel
  have hd : ¬(1 = d ∧ ['x'] = ['x']) := fun h => hinner (hseen.innermost 2 (by omega))
  refine ⟨hselects, t, ht, hwritten, ?_⟩
  rw [hdiffers.entry, if_neg hd]
  decide +kernel

end Stack

end SJava
