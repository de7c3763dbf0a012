import SJava.Proofs.Selecting

/-!
# What a block leaves behind

Between the opening of a block and its end, a stack has the tables of the block on top of
those around it. Of all that is done there, only a change of a variable can reach past the
tables of the block, and only if none of them has its name.

* `Stack.On`: a stack on top of another one; `Stack.On.perform`, `Stack.On.performAll`: the
  upper tables come and go, the lower ones see the changes that reach them (`reaching`);
* `Stack.tables_block`: a block does to the tables around it what these changes do alone;
* `Stack.keepsEntries_performAll`: which is to give some variables other values;
* `Stack.LeavesIntact`, `Stack.leavesIntact`: what is left behind a block.
-/

namespace SJava

open SJava.Tree

/-- A name that no table further in has is in none of them. -/
theorem Scope.entry_eq_none_of_lookup_eq_none {inner outer : List Scope} {x : Text}
    (h : lookup inner x = none) {e : Nat} (he : outer.length < e) :
    entry (inner ++ outer) e x = none := by
  induction inner with
  | nil => exact entry_eq_none_of_lt he x
  | cons table inner ih =>
    rw [lookup_cons, Option.or_eq_none_iff] at h
    rw [List.cons_append, entry]
    split
    · exact h.1
    · exact ih h.2

/-! ## Putting variables in place of others, further in or further out -/

namespace Tree.Env

variable {x : Text}

theorem replace_append_of_none {inner : Env} (h : Scope.lookup inner x = none) (v : Variable)
    (outer : Env) : Env.replace x v (inner ++ outer) = inner ++ Env.replace x v outer := by
  induction inner with
  | nil => rfl
  | cons table inner ih =>
    rw [Scope.lookup_cons, Option.or_eq_none_iff] at h
    have hmem : x ∉ table := by
      rw [Std.ExtTreeMap.mem_iff_isSome_getElem?, h.1]
      exact Bool.false_ne_true
    rw [List.cons_append, replace, if_neg hmem, ih h.2, List.cons_append]

theorem replace_append_of_some {inner : Env} {u : Variable} (h : Scope.lookup inner x = some u)
    (v : Variable) (outer : Env) :
    Env.replace x v (inner ++ outer) = Env.replace x v inner ++ outer := by
  induction inner with
  | nil => cases h
  | cons table inner ih =>
    rw [List.cons_append, replace, replace]
    by_cases hmem : x ∈ table
    · rw [if_pos hmem, if_pos hmem, List.cons_append]
    · have hnone : table[x]? = none := by
        rwa [← Option.not_isSome_iff_eq_none, ← Std.ExtTreeMap.mem_iff_isSome_getElem?]
      rw [Scope.lookup_cons, hnone, Option.none_or] at h
      rw [if_neg hmem, if_neg hmem, ih h, List.cons_append]

end Tree.Env

namespace Stack

variable {s t : Stack} {inner : List Scope} {op : Op} {ops body : List Op} {x : Text} {d : Nat}

/-! ## One stack on top of another -/

/-- The stack has the tables `inner`, and further out those of `t`. -/
def On (s : Stack) (inner : List Scope) (t : Stack) : Prop := s.tables = inner ++ t.tables

theorem On.depth_eq (h : s.On inner t) : s.depth = inner.length + t.depth := by
  have hlength := congrArg List.length h
  rwa [List.length_append, length_tables, length_tables] at hlength

theorem On.lookup_eq (h : s.On inner t) (x : Text) :
    s.lookup x = (Scope.lookup inner x).or (t.lookup x) := by
  rw [lookup, h, Scope.lookup_append, lookup]

theorem On.enter (h : s.On inner t) : s.enter.On (∅ :: inner) t := by
  rw [On, tables_enter, h, List.cons_append]

/-- Further in than the lower stack, the innermost table is one of the upper ones. -/
theorem On.exists_cons (h : s.On inner t) (hlt : t.depth < s.depth) :
    ∃ table rest, inner = table :: rest := by
  have hdepth := h.depth_eq
  exact List.exists_cons_of_length_pos (by omega)

theorem On.exit (h : s.On inner t) {u : Stack} (hu : s.exit = .ok u) (hlt : t.depth < s.depth) :
    u.On inner.tail t := by
  obtain ⟨table, htables⟩ := tables_exit hu
  obtain ⟨table', inner, rfl⟩ := h.exists_cons hlt
  rw [On, List.cons_append] at h
  exact (List.cons_eq_cons.1 (htables.symm.trans h)).2

theorem On.insert (h : s.On inner t) (hlt : t.depth < s.depth) (v : Variable) :
    (s.insert v).On (inner.modifyHead (·.insert v.name v)) t := by
  obtain ⟨table, inner, rfl⟩ := h.exists_cons hlt
  rw [On, tables_insert, h, List.cons_append, List.modifyHead_cons, List.modifyHead_cons,
    List.cons_append]

theorem On.declare (h : s.On inner t) (hlt : t.depth < s.depth) {v : Variable} {u : Stack}
    (hu : s.declare v = .ok u) : u.On (inner.modifyHead (·.insert v.name v)) t := by
  obtain ⟨-, rfl⟩ := declare_eq_ok_iff.1 hu
  exact h.insert hlt v

/-- Declaring variables, however far it gets, changes nothing but the innermost table. -/
theorem On.declareAll (h : s.On inner t) (hlt : t.depth < s.depth) (vs : List Variable) :
    ∃ inner', (s.declareAll vs).1.On inner' t := by
  induction vs generalizing s inner with
  | nil => exact ⟨inner, h⟩
  | cons v vs ih =>
    rw [Stack.declareAll]
    cases hd : s.declare v with
    | error fault => exact ⟨inner, h⟩
    | ok u =>
      have hdepth : u.depth = s.depth := by
        obtain ⟨-, rfl⟩ := declare_eq_ok_iff.1 hd
        exact depth_insert s v
      exact ih (h.declare hlt hd) (by rwa [hdepth])

/-- What is refused leaves the tables as they were. -/
theorem On.settle (h : s.On inner t) {result : Except Fault Stack}
    (hok : ∀ u, result = .ok u → ∃ inner', u.On inner' t) : ∃ inner', (s.settle result).1.On inner' t := by
  cases result with
  | ok u => exact hok u rfl
  | error fault => exact ⟨inner, h⟩

/-! ## Changes that reach past a block -/

/-- The operation changes a variable of a name that no table further in than depth `d` has. -/
def reaches (s : Stack) (d : Nat) : Op → Bool
  | .change name _ => (Scope.lookup (s.tables.take (s.depth - d)) name).isNone
  | _ => false

/-- Those of the operations that reach past depth `d` when their turn comes. -/
def reaching (s : Stack) (d : Nat) : List Op → List Op
  | [] => []
  | op :: ops =>
    if s.reaches d op then op :: (s.perform op).1.reaching d ops else (s.perform op).1.reaching d ops

theorem On.reaches_change (h : s.On inner t) (x : Text) (f : Variable → Except Fault Variable) :
    s.reaches t.depth (.change x f) = (Scope.lookup inner x).isNone := by
  have hlength : s.depth - t.depth = inner.length := by
    have hdepth := h.depth_eq
    omega
  rw [reaches, hlength, h, List.take_left]

/-- A change reaches either a table further in or the stack further out. -/
theorem On.perform_change (h : s.On inner t) (x : Text) (f : Variable → Except Fault Variable) :
    ∃ inner', (s.perform (.change x f)).1.On inner'
      (if s.reaches t.depth (.change x f) then (t.perform (.change x f)).1 else t) := by
  rw [h.reaches_change, Stack.perform_change, Stack.perform_change, h.lookup_eq]
  cases hin : Scope.lookup inner x with
  | some v =>
    rw [Option.some_or, Option.elim_some]
    cases hf : f v with
    | error fault => exact ⟨inner, h⟩
    | ok w =>
      refine ⟨Env.replace x w inner, ?_⟩
      show (s.store x w).tables = _ ++ t.tables
      rw [tables_store, h, Env.replace_append_of_some hin]
  | none =>
    rw [Option.none_or]
    cases t.lookup x with
    | none => exact ⟨inner, h⟩
    | some v =>
      rw [Option.elim_some, Option.elim_some]
      cases hf : f v with
      | error fault => exact ⟨inner, h⟩
      | ok w =>
        refine ⟨inner, ?_⟩
        show (s.store x w).tables = inner ++ (t.store x w).tables
        rw [tables_store, tables_store, h, Env.replace_append_of_none hin]

/-- An operation inside a block: it changes a variable by giving it a value, if at all, and
leaves the global table where it is. -/
def Op.IsInner : Op → Prop
  | .change _ f => ∃ write : Variable.Write, f = write.apply
  | .setGlobals _ => False
  | _ => True

/-- One operation, as long as some table is left on top. -/
theorem On.perform (h : s.On inner t) (hop : op.IsInner) (hlt : t.depth < s.depth) :
    ∃ inner', (s.perform op).1.On inner' (if s.reaches t.depth op then (t.perform op).1 else t) := by
  cases op with
  | enter => exact ⟨_, h.enter⟩
  | exit => exact h.settle fun u hu => ⟨_, h.exit hu hlt⟩
  | declare v => exact h.settle fun u hu => ⟨_, h.declare hlt hu⟩
  | enterMethod m =>
    have hentered : ({ s with active := some ⟨m, s.depth⟩ } : Stack).On inner t := h
    exact hentered.declareAll hlt _
  | change x f => exact h.perform_change x f
  | setGlobals globals => exact hop.elim

theorem exists_change_of_reaches (h : s.reaches d op = true) : ∃ x f, op = .change x f := by
  cases op with
  | change x f => exact ⟨x, f, rfl⟩
  | enter | exit | declare | enterMethod | setGlobals => cases h

theorem depth_perform_of_reaches (h : s.reaches d op = true) (t : Stack) :
    (t.perform op).1.depth = t.depth := by
  obtain ⟨x, f, rfl⟩ := exists_change_of_reaches h
  exact congrArg Registers.depth (registers_perform t (.change x f))

theorem depth_performAll_reaching (s t : Stack) (d : Nat) (ops : List Op) :
    (t.performAll (s.reaching d ops)).depth = t.depth := by
  induction ops generalizing s t with
  | nil => rfl
  | cons op ops ih =>
    rw [reaching]
    by_cases hreaches : s.reaches d op = true
    · rw [if_pos hreaches, performAll_cons, ih, depth_perform_of_reaches hreaches]
    · rw [if_neg hreaches, ih]

/-- Many operations: the changes that reach further out are carried out there, and nothing
else is. -/
theorem On.performAll (h : s.On inner t) (hops : ∀ op ∈ ops, op.IsInner)
    (hstays : s.StaysAt (t.depth + 1) ops) :
    ∃ inner', (s.performAll ops).On inner' (t.performAll (s.reaching t.depth ops)) := by
  induction ops generalizing s inner t with
  | nil => exact ⟨inner, h⟩
  | cons op ops ih =>
    obtain ⟨hlt, hrest⟩ := staysAt_cons.1 hstays
    obtain ⟨inner', hon⟩ := h.perform (hops op List.mem_cons_self) hlt
    have hinner : ∀ op ∈ ops, op.IsInner := fun o ho => hops o (List.mem_cons_of_mem _ ho)
    rw [performAll_cons, reaching]
    by_cases hreaches : s.reaches t.depth op = true
    · have hdepth : (t.perform op).1.depth = t.depth := depth_perform_of_reaches hreaches t
      rw [if_pos hreaches] at hon ⊢
      rw [performAll_cons, ← hdepth]
      exact ih hon hinner (by rwa [hdepth])
    · rw [if_neg hreaches] at hon ⊢
      exact ih hon hinner hrest

/-! ## Blocks -/

/-- The operations of a block, from its opening to its end. -/
def block (body : List Op) : List Op := .enter :: (body ++ [.exit])

/-- Done to `s`, the operations make up the body of a block: it stays open throughout them,
and what follows them is its end. -/
structure IsBody (s : Stack) (body : List Op) : Prop where
  inner : ∀ op ∈ body, op.IsInner
  stays : s.enter.StaysAt (s.depth + 1) body
  ends : (s.enter.performAll body).depth = s.depth + 1

theorem performAll_block (s : Stack) (body : List Op) :
    s.performAll (block body) = ((s.enter.performAll body).perform .exit).1 := by
  show s.enter.performAll (body ++ [.exit]) = _
  rw [performAll_append, performAll_cons, performAll_nil]

/-- A block does to the tables around it what those changes do alone that reach past its
own, and its end is not refused. -/
theorem tables_block (h : s.IsBody body) :
    ((s.enter.performAll body).perform .exit).2 = none ∧
      (s.performAll (block body)).tables = (s.performAll (s.enter.reaching s.depth body)).tables := by
  have hopened : s.enter.On [∅] s := rfl
  obtain ⟨inner, hon⟩ := hopened.performAll h.inner h.stays
  have hends := h.ends
  have houter := depth_performAll_reaching s.enter s s.depth body
  obtain ⟨u, hu⟩ : ∃ u, (s.enter.performAll body).exit = .ok u := by
    have hpos := s.depth_pos
    exact exists_exit_iff.2 (by omega)
  have hdone : (s.enter.performAll body).perform .exit = (u, none) := by
    rw [perform, hu]
    rfl
  -- one table is left on top, and the exit takes it away
  have hleft : inner.length = 1 := by
    have hdepth := hon.depth_eq
    omega
  have htail : inner.tail = [] := List.eq_nil_of_length_eq_zero (by rw [List.length_tail]; omega)
  have hback := hon.exit hu (by omega)
  rw [performAll_block, hdone]
  rw [htail] at hback
  exact ⟨rfl, hback⟩

end Stack

/-! ## What the changes do -/

namespace Variable

variable {u v w : Variable}

/-- What a variable may become within a block further in: it is the same declaration, and
it has a value if it had one. -/
structure Keeps (v w : Variable) : Prop where
  name_eq : w.name = v.name
  ty_eq : w.ty = v.ty
  isFinal_eq : w.isFinal = v.isFinal
  initialized : v.isInitialized = true → w.isInitialized = true

theorem Keeps.refl (v : Variable) : v.Keeps v := ⟨rfl, rfl, rfl, id⟩

theorem Keeps.trans (h : u.Keeps v) (h' : v.Keeps w) : u.Keeps w where
  name_eq := h'.name_eq.trans h.name_eq
  ty_eq := h'.ty_eq.trans h.ty_eq
  isFinal_eq := h'.isFinal_eq.trans h.isFinal_eq
  initialized := h'.initialized ∘ h.initialized

theorem keeps_withValue (v : Variable) (value : Text) : v.Keeps { v with value := some value } :=
  ⟨rfl, rfl, rfl, fun _ => rfl⟩

end Variable

namespace Stack

variable {s t u : Stack} {op : Op} {ops body : List Op} {x : Text} {d : Nat}

/-- Both stacks have entries under the same names, for the same declarations. -/
def KeepsEntries (s t : Stack) : Prop :=
  ∀ d x, Option.Rel Variable.Keeps (s.entry d x) (t.entry d x)

theorem KeepsEntries.refl (s : Stack) : s.KeepsEntries s :=
  fun d x => option_rel_refl .refl (s.entry d x)

theorem KeepsEntries.trans (h : s.KeepsEntries t) (h' : t.KeepsEntries u) : s.KeepsEntries u :=
  fun d x => option_rel_trans (h d x) (h' d x) fun _ _ _ => Variable.Keeps.trans

theorem KeepsEntries.isSome_eq (h : s.KeepsEntries t) (d : Nat) (x : Text) :
    (t.entry d x).isSome = (s.entry d x).isSome := by
  rcases option_rel_iff.1 (h d x) with ⟨hs, ht⟩ | ⟨v, w, hs, ht, -⟩
  · rw [hs, ht]
  · rw [hs, ht, Option.isSome_some, Option.isSome_some]

theorem KeepsEntries.eq_none_iff (h : s.KeepsEntries t) (d : Nat) (x : Text) :
    t.entry d x = none ↔ s.entry d x = none := by
  rw [← Option.isNone_iff_eq_none, ← Option.not_isSome, h.isSome_eq, Option.not_isSome,
    Option.isNone_iff_eq_none]

/-- Every name stands for the entry in the same table as before. -/
theorem KeepsEntries.seenAt_iff (h : s.KeepsEntries t) : t.SeenAt x d ↔ s.SeenAt x d := by
  constructor
  · intro hseen
    exact ⟨h.isSome_eq d x ▸ hseen.isSome, fun e he => (h.eq_none_iff e x).1 (hseen.innermost e he)⟩
  · intro hseen
    exact ⟨(h.isSome_eq d x).trans hseen.isSome,
      fun e he => (h.eq_none_iff e x).2 (hseen.innermost e he)⟩

theorem KeepsEntries.lookup_eq_none_iff (h : s.KeepsEntries t) :
    t.lookup x = none ↔ s.lookup x = none := by
  rw [Stack.lookup_eq_none_iff, Stack.lookup_eq_none_iff]
  exact forall_congr' fun d => h.eq_none_iff d x

/-- The operation gives a variable a value. -/
def Op.IsWrite (op : Op) : Prop := ∃ x, ∃ write : Variable.Write, op = .change x write.apply

/-- Giving a variable a value changes the value of the entry that the name stands for, and
nothing else. -/
theorem write_cases (s : Stack) (x : Text) (write : Variable.Write) :
    (s.perform (.change x write.apply)).1 = s ∨
      ∃ d v, s.entry d x = some v ∧ s.DiffersAt (s.perform (.change x write.apply)).1 x d
        { v with value := some (write.value v.ty) } := by
  cases hv : s.lookup x with
  | none => exact .inl (by rw [perform_change, hv]; rfl)
  | some v =>
    obtain ⟨-, hdone⟩ | ⟨-, fault, hrefused⟩ := perform_write hv write
    · obtain ⟨d, hseen, hentry⟩ := lookup_eq_some_iff_seenAt.1 hv
      rw [hdone]
      exact .inr ⟨d, v, hentry, differsAt_store hseen _⟩
    · exact .inl (by rw [hrefused])

theorem keepsEntries_write (s : Stack) (x : Text) (write : Variable.Write) :
    s.KeepsEntries (s.perform (.change x write.apply)).1 := by
  obtain hsame | ⟨d, v, hv, hdiffers⟩ := s.write_cases x write
  · rw [hsame]
    exact .refl s
  · intro e y
    rw [hdiffers.entry]
    split
    · next hhere =>
      rw [hhere.1, hhere.2, hv]
      exact .some (v.keeps_withValue _)
    · exact option_rel_refl .refl _

theorem keepsEntries_performAll (hops : ∀ op ∈ ops, op.IsWrite) : s.KeepsEntries (s.performAll ops) := by
  induction ops generalizing s with
  | nil => exact .refl s
  | cons op ops ih =>
    obtain ⟨x, write, rfl⟩ := hops op List.mem_cons_self
    exact (s.keepsEntries_write x write).trans (ih fun o ho => hops o (List.mem_cons_of_mem _ ho))

/-- An entry that has changed was written under its name. -/
theorem exists_write_of_entry_ne (hops : ∀ op ∈ ops, op.IsWrite)
    (hne : (s.performAll ops).entry d x ≠ s.entry d x) :
    ∃ write : Variable.Write, .change x write.apply ∈ ops := by
  induction ops generalizing s with
  | nil => exact absurd rfl hne
  | cons op ops ih =>
    obtain ⟨y, write, rfl⟩ := hops op List.mem_cons_self
    by_cases hname : x = y
    · exact ⟨write, hname ▸ List.mem_cons_self⟩
    · have hsame : (s.perform (.change y write.apply)).1.entry d x = s.entry d x := by
        obtain hnothing | ⟨e, v, -, hdiffers⟩ := s.write_cases y write
        · rw [hnothing]
        · rw [hdiffers.entry, if_neg fun h => hname h.2]
      obtain ⟨write', hmem⟩ := ih (fun o ho => hops o (List.mem_cons_of_mem _ ho)) (hsame ▸ hne)
      exact ⟨write', List.mem_cons_of_mem _ hmem⟩

/-! ## Moments -/

/-- What reaches past depth `d` has its turn between the operations before and behind. -/
theorem exists_split_of_mem_reaching (h : op ∈ s.reaching d ops) :
    ∃ before behind, ops = before ++ op :: behind ∧ (s.performAll before).reaches d op = true := by
  induction ops generalizing s with
  | nil => cases h
  | cons o ops ih =>
    have later (h : op ∈ (s.perform o).1.reaching d ops) : ∃ before behind,
        o :: ops = before ++ op :: behind ∧ (s.performAll before).reaches d op = true := by
      obtain ⟨before, behind, hsplit, hreaches⟩ := ih h
      exact ⟨o :: before, behind, by rw [hsplit, List.cons_append], hreaches⟩
    rw [reaching] at h
    by_cases hreaches : s.reaches d o = true
    · rw [if_pos hreaches, List.mem_cons] at h
      obtain rfl | h := h
      · exact ⟨[], ops, rfl, hreaches⟩
      · exact later h
    · rw [if_neg hreaches] at h
      exact later h

theorem isWrite_of_mem_reaching (hops : ∀ op ∈ ops, op.IsInner) (h : op ∈ s.reaching d ops) :
    op.IsWrite := by
  obtain ⟨before, behind, rfl, hreaches⟩ := exists_split_of_mem_reaching h
  obtain ⟨x, f, rfl⟩ := exists_change_of_reaches hreaches
  obtain ⟨write, rfl⟩ := hops _ (List.mem_append_right _ List.mem_cons_self)
  exact ⟨x, write, rfl⟩

/-- A change that reaches past depth `d` finds no table further in that has the name. -/
theorem entry_eq_none_of_reaches {f : Variable → Except Fault Variable}
    (h : s.reaches d (.change x f) = true) {e : Nat} (he : d < e) : s.entry e x = none := by
  have hlength : (s.tables.drop (s.depth - d)).length < e := by
    rw [List.length_drop, length_tables]
    omega
  rw [entry, ← List.take_append_drop (s.depth - d) s.tables]
  exact Scope.entry_eq_none_of_lookup_eq_none (Option.isNone_iff_eq_none.1 h) hlength

/-! ## Behind a block -/

/-- What `t`, behind a block, has left of `s`, in front of it. -/
structure LeavesIntact (s : Stack) (body : List Op) (t : Stack) : Prop where
  closed : ((s.enter.performAll body).perform .exit).2 = none
  depth : t.depth = s.depth
  /-- The tables are what the changes make of them that reach past those of the block. -/
  tables : t.tables = (s.performAll (s.enter.reaching s.depth body)).tables
  /-- They have the same names as before, with the same types; what is final still is, and
  what was initialized still is. -/
  kept : s.KeepsEntries t
  /-- An entry is another one only if its name was given a value within the block, at a
  moment when no table of the block had the name. -/
  written : ∀ d x, t.entry d x ≠ s.entry d x → ∃ before behind, ∃ write : Variable.Write,
    body = before ++ .change x write.apply :: behind ∧
      ∀ e, s.depth < e → (s.enter.performAll before).entry e x = none
  /-- What only the block declared is out of view. -/
  hidden : ∀ x, t.lookup x = none ↔ s.lookup x = none
  /-- What the block hid is in view again. -/
  seen : ∀ x d, t.SeenAt x d ↔ s.SeenAt x d

theorem entry_congr (h : s.tables = t.tables) (d : Nat) (x : Text) : s.entry d x = t.entry d x := by
  rw [entry, h, entry]

/-- A block leaves the tables around it intact, but for the values of variables that are
given one within it. -/
theorem leavesIntact (h : s.IsBody body) : s.LeavesIntact body (s.performAll (block body)) := by
  obtain ⟨hclosed, htables⟩ := tables_block h
  have hwrites : ∀ op ∈ s.enter.reaching s.depth body, op.IsWrite :=
    fun op hop => isWrite_of_mem_reaching h.inner hop
  have hentry : ∀ d x, (s.performAll (block body)).entry d x =
      (s.performAll (s.enter.reaching s.depth body)).entry d x := entry_congr htables
  have hkept : s.KeepsEntries (s.performAll (block body)) := by
    intro d x
    rw [hentry]
    exact keepsEntries_performAll hwrites d x
  have hdepth : (s.performAll (block body)).depth = s.depth := by
    rw [← length_tables, htables, length_tables, depth_performAll_reaching]
  refine ⟨hclosed, hdepth, htables, hkept, fun d x hne => ?_, fun x => hkept.lookup_eq_none_iff,
    fun x d => hkept.seenAt_iff⟩
  rw [hentry] at hne
  obtain ⟨write, hmem⟩ := exists_write_of_entry_ne hwrites hne
  obtain ⟨before, behind, hsplit, hreaches⟩ := exists_split_of_mem_reaching hmem
  exact ⟨before, behind, write, hsplit, fun e he => entry_eq_none_of_reaches hreaches he⟩

/-- A block that hides `x` and writes it, and writes `y` twice: once where a method further
in, of which the second parameter is refused, has a parameter of that name, and once where
only the global table has it. -/
theorem leavesIntact_hiding :
    let s : Stack :=
      { globals := ((∅ : Scope).insert ['x'] ⟨['x'], .int, true, some ['1']⟩).insert ['y']
          ⟨['y'], .int, false, none⟩ }
    let m : Method := ⟨['f'], [⟨['y'], .int, false, none⟩, ⟨['y'], .char, false, none⟩]⟩
    let give (x literal : Text) : Op := .change x (Variable.Write.another literal).apply
    let body : List Op :=
      [.declare ⟨['x'], .boolean, false, none⟩, give ['x'] Keyword.trueWord, .enter, .enterMethod m,
        give ['y'] ['7'], .exit, give ['y'] ['5']]
    let t := s.performAll (block body)
    s.IsBody body ∧ s.LeavesIntact body t ∧ t.lookup ['x'] = some ⟨['x'], .int, true, some ['1']⟩ ∧
      t.lookup ['y'] = some ⟨['y'], .int, false, some ['5']⟩ := by
  intro s m give body t
  have hinner : ∀ op ∈ body, op.IsInner := by
    simp only [body, List.forall_mem_cons]
    exact ⟨trivial, ⟨_, rfl⟩, trivial, trivial, ⟨_, rfl⟩, trivial, ⟨_, rfl⟩, by simp⟩
  have hstays : s.enter.StaysAt (s.depth + 1) body := by
    simp only [body, staysAt_cons, staysAt_nil]
    decide +kernel
  have hbody : s.IsBody body := ⟨hinner, hstays, by decide +kernel⟩
  exact ⟨hbody, leavesIntact hbody, by decide +kernel, by decide +kernel⟩

end Stack

end SJava
