import SJava.Proofs.Structured.Statements
import SJava.Proofs.Written

/-!
# The clauses of an assignment

The clauses of an assignment line take effect one after the other, each on the stack that
the one before it has left. Two of them may change places when neither assigns what the
other one assigns or reads.

* `Stack.store`: another variable in the place of the one a name stands for;
* `Stack.assign_eq_ok_iff`, `Stack.assign_comm`: one assignment, and two in either order;
* `Stack.AssignsInOrder`, `Stack.assignsInOrder`: an assignment line is sequential.
-/

namespace SJava

open SJava.Tree

/-! ## Putting variables in place of others -/

namespace Tree.Env

variable {x y : Text}

theorem lookup_replace_of_ne (h : y ≠ x) (v : Variable) (env : Env) :
    Scope.lookup (env.replace x v) y = Scope.lookup env y := by
  induction env with
  | nil => rfl
  | cons table outer ih =>
    rw [replace]
    split
    · have hkept : (table.insert x v)[y]? = table[y]? := by grind
      rw [Scope.lookup_cons, Scope.lookup_cons, hkept]
    · rw [Scope.lookup_cons, Scope.lookup_cons, ih]

/-- Two names that differ stand for entries that differ. -/
theorem replace_comm (h : x ≠ y) (v w : Variable) (env : Env) :
    (env.replace x v).replace y w = (env.replace y w).replace x v := by
  induction env with
  | nil => rfl
  | cons table outer ih =>
    have hx : x ∈ table.insert y w ↔ x ∈ table := by grind
    have hy : y ∈ table.insert x v ↔ y ∈ table := by grind
    by_cases hxt : x ∈ table <;> by_cases hyt : y ∈ table <;>
      simp [replace, hxt, hyt, hx, hy, ih, Scope.insert_comm table h v w]

end Tree.Env

namespace Stack

variable {s t u : Stack} {x y : Text}

/-- The stack with the variable in the place of the one the name stands for. -/
def store (s : Stack) (name : Text) (v : Variable) : Stack :=
  s.withTables (Env.replace name v s.tables)

theorem tables_store (s : Stack) (name : Text) (v : Variable) :
    (s.store name v).tables = Env.replace name v s.tables :=
  tables_withTables s (ne_nil_of_length (Env.length_replace name v s.tables) s.tables_ne_nil)

theorem lookup_store_of_ne (h : y ≠ x) (s : Stack) (v : Variable) :
    (s.store x v).lookup y = s.lookup y := by
  rw [lookup, tables_store, Env.lookup_replace_of_ne h, lookup]

theorem store_comm (h : x ≠ y) (s : Stack) (v w : Variable) :
    (s.store x v).store y w = (s.store y w).store x v := by
  have hstore (x y : Text) (v w : Variable) :
      (s.store x v).store y w = s.withTables (Env.replace y w (Env.replace x v s.tables)) := by
    rw [store, tables_store]
    rfl
  rw [hstore, hstore, Env.replace_comm h]

/-! ## Assignments -/

/-- Changing what a name stands for is putting the changed variable in its place. -/
theorem update?_eq_store (f : Variable → Except Fault Variable) (name : Text) (s : Stack) :
    s.update? f name = (s.lookup name).map fun v => (f v).map (s.store name) := by
  rw [update?_eq_withTables, update?_eq_replace, Option.map_map]
  refine congrArg (Option.map · _) (funext fun v => ?_)
  cases hf : f v <;> simp [hf, Except.map, store]

/-- What an assignment makes of its target, which must not be final and has to be able to
hold what the value stands for. -/
def Assigns (s : Stack) (a : Assignment) (w : Variable) : Prop :=
  ∃ v value, s.lookup a.target = some v ∧ v.isFinal = false ∧
    Variable.resolve s.lookup v.ty a.value = .ok value ∧ v.ty.holds value = true ∧
      w = { v with value := some value }

theorem assign_eq_ok_iff {a : Assignment} :
    s.assign a = .ok t ↔ ∃ w, s.Assigns a w ∧ t = s.store a.target w := by
  constructor
  · intro h
    unfold assign at h
    split at h
    · next v hv =>
      dsimp only at h
      split at h
      · exact absurd h throw_ne_ok
      · obtain ⟨value, hvalue, h⟩ := bind_eq_ok_iff.1 h
        rw [update?_eq_store, hv, Option.map_some, Option.getD_some, map_eq_ok_iff] at h
        obtain ⟨w, hw, rfl⟩ := h
        obtain ⟨hchanged, hholds, hfinal⟩ := Variable.reassign_eq_ok hw
        exact ⟨w, ⟨v, value, hv, hfinal, hvalue, hholds, hchanged⟩, rfl⟩
    · exact absurd h throw_ne_ok
  · rintro ⟨w, ⟨v, value, hv, hfinal, hvalue, hholds, rfl⟩, rfl⟩
    have hreassign : v.reassign value = .ok { v with value := some value } := by
      simp [Variable.reassign, hfinal, Ty.checkValue_of_holds hholds, Except.map]
    simp [assign, hv, hfinal, hvalue, ok_bind, update?_eq_store, hreassign, Except.map]

end Stack

/-- Neither assignment assigns what the other one assigns or names as its value. -/
structure Assignment.Independent (a b : Assignment) : Prop where
  targets : a.target ≠ b.target
  first : a.value ≠ b.target
  second : b.value ≠ a.target

theorem Assignment.Independent.symm {a b : Assignment} (h : a.Independent b) : b.Independent a :=
  ⟨h.targets.symm, h.second, h.first⟩

namespace Stack

variable {s t u : Stack} {a b : Assignment}

/-- An assignment makes the same of its target behind another one that is independent of
it. -/
theorem assigns_store_iff (h : a.Independent b) {v w : Variable} :
    (s.store a.target v).Assigns b w ↔ s.Assigns b w := by
  have htarget : (s.store a.target v).lookup b.target = s.lookup b.target :=
    lookup_store_of_ne h.targets.symm s v
  have hvalue (ty : Ty) : Variable.resolve (s.store a.target v).lookup ty b.value =
      Variable.resolve s.lookup ty b.value := by
    rw [Variable.resolve, Variable.resolve, lookup_store_of_ne h.second s v]
  simp only [Assigns, htarget, hvalue]

/-- Independent assignments can be carried out in either order. -/
theorem assign_comm (h : a.Independent b) (ha : s.assign a = .ok u) (hb : u.assign b = .ok t) :
    ∃ u', s.assign b = .ok u' ∧ u'.assign a = .ok t := by
  obtain ⟨v, hv, rfl⟩ := assign_eq_ok_iff.1 ha
  obtain ⟨w, hw, rfl⟩ := assign_eq_ok_iff.1 hb
  refine ⟨s.store b.target w, assign_eq_ok_iff.2 ⟨w, (assigns_store_iff h).1 hw, rfl⟩, ?_⟩
  exact assign_eq_ok_iff.2 ⟨v, (assigns_store_iff h.symm).2 hv, store_comm h.targets s v w⟩

/-- So two of them may change places among others. -/
theorem assignAll_swap (h : a.Independent b) {front back : List Assignment}
    (hs : (front ++ a :: b :: back).foldlM assign s = .ok t) :
    (front ++ b :: a :: back).foldlM assign s = .ok t := by
  simp only [List.foldlM_append, List.foldlM_cons, bind_eq_ok_iff] at hs ⊢
  obtain ⟨s₀, hfront, s₁, ha, s₂, hb, hback⟩ := hs
  obtain ⟨s₁', hb', ha'⟩ := assign_comm h ha hb
  exact ⟨s₀, hfront, s₁', hb', s₂, ha', hback⟩

/-! ## Lines -/

theorem assignLine_of_written {as : List Assignment} (hne : as ≠ [])
    (hplain : ∀ a ∈ as, a.clause.Plain) {line : Text} (h : Assignment.Written as line) :
    s.assignLine line = as.foldlM assign s := by
  rw [assignLine, Assignment.allOfLine_of_written hne hplain h, ok_bind]

/-- Lines with one assignment each do what the assignments do. -/
theorem assignLines_of_written {as : List Assignment} {lines : List Text}
    (hplain : ∀ a ∈ as, a.clause.Plain)
    (h : List.Forall₂ (fun a line => Assignment.Written [a] line) as lines) :
    lines.foldlM assignLine s = as.foldlM assign s := by
  induction h generalizing s with
  | nil => rfl
  | @cons a line as lines hline _ ih =>
    obtain ⟨ha, has⟩ := List.forall_mem_cons.1 hplain
    have hone : s.assignLine line = s.assign a := by
      rw [assignLine_of_written (List.cons_ne_nil a []) (List.forall_mem_singleton.2 ha) hline,
        List.foldlM_cons]
      exact bind_pure (s.assign a)
    rw [List.foldlM_cons, List.foldlM_cons, hone]
    exact congrArg (s.assign a >>= ·) (funext fun _ => ih has)

/-- An assignment line is sequential. -/
structure AssignsInOrder (s : Stack) (as : List Assignment) : Prop where
  /-- It does what lines with one of its clauses each do from left to right. -/
  separate : ∀ line lines, Assignment.Written as line →
    List.Forall₂ (fun a line => Assignment.Written [a] line) as lines → ∀ t,
      s.assignLine line = .ok t ↔ lines.foldlM assignLine s = .ok t
  /-- Clauses side by side that are independent of each other may change places. -/
  swapped : ∀ front a b back, as = front ++ a :: b :: back → a.Independent b → ∀ line line',
    Assignment.Written as line → Assignment.Written (front ++ b :: a :: back) line' → ∀ t,
      s.assignLine line = .ok t ↔ s.assignLine line' = .ok t

theorem assignsInOrder (s : Stack) {as : List Assignment} (hne : as ≠ [])
    (hplain : ∀ a ∈ as, a.clause.Plain) : s.AssignsInOrder as where
  separate line lines hline hlines t := by
    rw [assignLine_of_written hne hplain hline, assignLines_of_written hplain hlines]
  swapped front a b back has hindependent line line' hline hline' t := by
    subst has
    have hplain' : ∀ c ∈ front ++ b :: a :: back, c.clause.Plain := fun c hc =>
      hplain c (((List.Perm.swap a b back).append_left front).mem_iff.1 hc)
    rw [assignLine_of_written hne hplain hline, assignLine_of_written (by simp) hplain' hline']
    exact ⟨assignAll_swap hindependent, assignAll_swap hindependent.symm⟩

/-- A clause that reads what the one in front of it assigns, and one that may stand between
them or behind. -/
theorem assignsInOrder_shadowed :
    let inner : Scope := (∅ : Scope).insert ['x'] ⟨['x'], .int, false, none⟩
    let globals : Scope := (((∅ : Scope).insert ['x'] ⟨['x'], .string, true, some ['"', '"']⟩).insert
      ['y'] ⟨['y'], .double, false, none⟩).insert ['z'] ⟨['z'], .boolean, false, none⟩
    let s : Stack := { globals, blocks := [inner] }
    let as : List Assignment := [⟨['x'], ['5']⟩, ⟨['y'], ['x']⟩, ⟨['z'], Keyword.trueWord⟩]
    let lines : List Text := ["x = 5;".toList, "y = x;".toList, "z = true;".toList]
    (as ≠ [] ∧ ∀ a ∈ as, a.clause.Plain) ∧ s.AssignsInOrder as ∧
      Assignment.Independent ⟨['y'], ['x']⟩ ⟨['z'], Keyword.trueWord⟩ ∧
        ∃ t, s.assignLine "x = 5, y = x, z = true;".toList = .ok t ∧
          lines.foldlM assignLine s = .ok t ∧ s.assignLine "x = 5, z = true, y = x;".toList = .ok t ∧
            (t.lookup ['y']).bind (·.value) = some ['5'] := by
  intro inner globals s as lines
  have hne : as ≠ [] := List.cons_ne_nil _ _
  have hplain : ∀ a ∈ as, a.clause.Plain := by decide
  have horder := assignsInOrder s hne hplain
  have hindependent : Assignment.Independent ⟨['y'], ['x']⟩ ⟨['z'], Keyword.trueWord⟩ :=
    ⟨by decide, by decide, by decide⟩
  have hrender (as : List Assignment) {line : Text} (h : Assignment.render as = line) :
      Assignment.Written as line := h ▸ Assignment.written_render as
  have hline : Assignment.Written as "x = 5, y = x, z = true;".toList := hrender as (by decide)
  have hlines : List.Forall₂ (fun a line => Assignment.Written [a] line) as lines :=
    .cons (hrender _ (by decide)) (.cons (hrender _ (by decide)) (.cons (hrender _ (by decide)) .nil))
  have hswapped : Assignment.Written [⟨['x'], ['5']⟩, ⟨['z'], Keyword.trueWord⟩, ⟨['y'], ['x']⟩]
      "x = 5, z = true, y = x;".toList := hrender _ (by decide)
  have hrun : (s.assignLine "x = 5, y = x, z = true;".toList).toOption.map
      (fun t => (t.lookup ['y']).bind (·.value)) = some (some ['5']) := by decide +kernel
  obtain ⟨t, ht, hvalue⟩ := toOption_map_eq_some_iff.1 hrun
  exact ⟨⟨hne, hplain⟩, horder, hindependent, t, ht, (horder.separate _ _ hline hlines t).1 ht,
    (horder.swapped [⟨['x'], ['5']⟩] _ _ [] rfl hindependent _ _ hline hswapped t).1 ht, hvalue⟩

end Stack

end SJava
