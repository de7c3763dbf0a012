import SJava.Proofs.Except
import SJava.Scope.Stack

/-!
# The entries of a stack

A stack of tables, seen as a function from a depth and a name to an entry. The
global table has depth 1. What each operation does to the entries:

* `Scope.lookup_eq_some_iff`: a name stands for the entry furthest in;
* `Scope.update?_eq_ok`: a change reaches that entry and no other;
* `Stack.withTables`, `Stack.update?_eq_withTables`: a change on a stack is one on the list
  of its tables;
* `Stack.entry_enter`, `Stack.exit_eq_ok`, `Stack.entry_insert`,
  `Stack.entry_declareAll`: opening, closing and declaring.
-/

namespace SJava

namespace Scope

/-- The entry of that name in the table at depth `d`. -/
def entry : List Scope → Nat → Text → Option Variable
  | [], _, _ => none
  | table :: outer, d, name =>
    if d = outer.length + 1 then table[name]? else entry outer d name

theorem entry_eq_none_of_lt {tables : List Scope} {d : Nat} (h : tables.length < d) (name : Text) :
    entry tables d name = none := by
  induction tables with
  | nil => rfl
  | cons table outer ih =>
    rw [List.length_cons] at h
    rw [entry, if_neg (by omega), ih (by omega)]

theorem entry_zero (tables : List Scope) (name : Text) : entry tables 0 name = none := by
  induction tables with
  | nil => rfl
  | cons table outer ih => rw [entry, if_neg (by omega), ih]

theorem le_length_of_entry {tables : List Scope} {d : Nat} {name : Text} {v : Variable}
    (h : entry tables d name = some v) : d ≤ tables.length := by
  rcases Nat.lt_or_ge tables.length d with hd | hd
  · rw [entry_eq_none_of_lt hd] at h
    cases h
  · exact hd

theorem entry_one (inner : List Scope) (globals : Scope) (name : Text) :
    entry (inner ++ [globals]) 1 name = globals[name]? := by
  induction inner with
  | nil => rfl
  | cons table inner ih => simp [entry, ih]

/-- The global table has the entries at depth 1 and no others. -/
theorem entry_append_globals (inner : List Scope) (globals globals' : Scope) {d : Nat} (hd : d ≠ 1)
    (name : Text) : entry (inner ++ [globals]) d name = entry (inner ++ [globals']) d name := by
  induction inner with
  | nil => simp [entry, hd]
  | cons table inner ih => simp [entry, ih]

theorem lookup_eq_none_iff {tables : List Scope} {name : Text} :
    lookup tables name = none ↔ ∀ d, entry tables d name = none := by
  induction tables with
  | nil => simp [entry]
  | cons table outer ih =>
    rw [lookup_cons, Option.or_eq_none_iff, ih]
    constructor
    · rintro ⟨ht, ho⟩ d
      rw [entry]
      split
      · exact ht
      · exact ho d
    · intro h
      refine ⟨by simpa [entry] using h (outer.length + 1), fun d => ?_⟩
      rcases Nat.lt_or_ge outer.length d with hd | hd
      · exact entry_eq_none_of_lt hd name
      · simpa [entry, show d ≠ outer.length + 1 by omega] using h d

/-- A name stands for the entry furthest in. -/
theorem lookup_eq_some_iff {tables : List Scope} {name : Text} {v : Variable} :
    lookup tables name = some v ↔
      ∃ d, entry tables d name = some v ∧ ∀ e, d < e → entry tables e name = none := by
  induction tables with
  | nil => simp [entry]
  | cons table outer ih =>
    rw [lookup_cons]
    cases ht : table[name]? with
    | some w =>
      rw [Option.some_or, Option.some.injEq]
      constructor
      · rintro rfl
        refine ⟨outer.length + 1, by simp [entry, ht], fun e he => ?_⟩
        exact entry_eq_none_of_lt (by simpa using he) name
      · rintro ⟨d, hd, hin⟩
        rcases Nat.lt_trichotomy d (outer.length + 1) with hlt | rfl | hgt
        · simpa [entry, ht] using hin _ hlt
        · simpa [entry, ht] using hd
        · rw [entry_eq_none_of_lt (by simpa using hgt)] at hd
          cases hd
    | none =>
      rw [Option.none_or, ih]
      have same : ∀ e, entry (table :: outer) e name = entry outer e name := fun e => by
        rw [entry]
        split
        · next he => rw [ht, entry_eq_none_of_lt (by omega)]
        · rfl
      simp only [same]

/-- A change reaches the entry that the name stands for, and no other. -/
theorem update?_eq_ok {f : Variable → Except Fault Variable} {name : Text}
    {tables changed : List Scope} (h : update? f name tables = some (.ok changed)) :
    ∃ d v w, entry tables d name = some v ∧ (∀ e, d < e → entry tables e name = none) ∧
      f v = .ok w ∧ changed.length = tables.length ∧
      ∀ e y, entry changed e y = if e = d ∧ y = name then some w else entry tables e y := by
  induction tables generalizing changed with
  | nil => cases h
  | cons table outer ih =>
    cases ht : table[name]? with
    | some v =>
      simp only [update?, ht, Option.some.injEq] at h
      cases hf : f v with
      | error fault => rw [hf] at h; cases h
      | ok w =>
        rw [hf] at h
        cases h
        refine ⟨outer.length + 1, v, w, by simp [entry, ht], fun e he => ?_, hf, by simp, ?_⟩
        · exact entry_eq_none_of_lt (by simpa using he) name
        · intro e y
          simp only [entry]
          grind
    | none =>
      simp only [update?, ht, Option.map_eq_some_iff] at h
      obtain ⟨r, hr, hmap⟩ := h
      cases r with
      | error fault => cases hmap
      | ok inner =>
        cases hmap
        obtain ⟨d, v, w, hd, hin, hf, hl, he⟩ := ih hr
        have hdl := le_length_of_entry hd
        refine ⟨d, v, w, ?_, fun e hlt => ?_, hf, by simp [hl], fun e y => ?_⟩
        · rw [entry, if_neg (by omega), hd]
        · rw [entry]
          split
          · exact ht
          · exact hin e hlt
        · simp only [entry, hl, he]
          grind

/-- A change is refused for the entry that the name stands for. -/
theorem update?_eq_error {f : Variable → Except Fault Variable} {name : Text} {tables : List Scope}
    {fault : Fault} (h : update? f name tables = some (.error fault)) : ∃ v, f v = .error fault := by
  induction tables with
  | nil => cases h
  | cons table outer ih =>
    cases ht : table[name]? with
    | some v =>
      simp only [update?, ht, Option.some.injEq] at h
      cases hf : f v with
      | error e =>
        rw [hf] at h
        cases h
        exact ⟨v, hf⟩
      | ok w => rw [hf] at h; cases h
    | none =>
      simp only [update?, ht, Option.map_eq_some_iff] at h
      obtain ⟨r, hr, hmap⟩ := h
      cases r with
      | error e =>
        cases hmap
        exact ih hr
      | ok inner => cases hmap

theorem update?_append (f : Variable → Except Fault Variable) (name : Text)
    (inner outer : List Scope) :
    update? f name (inner ++ outer) =
      match update? f name inner with
      | some r => some (r.map (· ++ outer))
      | none => (update? f name outer).map (·.map (inner ++ ·)) := by
  induction inner with
  | nil =>
    simp only [List.nil_append, update?]
    cases update? f name outer with
    | none => rfl
    | some r => cases r <;> rfl
  | cons table inner ih =>
    cases ht : table[name]? with
    | some v => cases hf : f v <;> simp [update?, ht, hf, Except.map]
    | none =>
      simp only [List.cons_append, update?, ht, ih]
      cases update? f name inner with
      | some r => cases r <;> rfl
      | none =>
        cases update? f name outer with
        | none => rfl
        | some r => cases r <;> rfl

end Scope

namespace Stack

/-- The entry of that name in the table at depth `d`. -/
def entry (s : Stack) (d : Nat) (name : Text) : Option Variable := Scope.entry s.tables d name

theorem length_tables (s : Stack) : s.tables.length = s.depth := by simp [tables, depth]

theorem depth_pos (s : Stack) : 0 < s.depth := by simp [depth]

theorem entry_eq_none_of_lt {s : Stack} {d : Nat} (h : s.depth < d) (name : Text) :
    s.entry d name = none :=
  Scope.entry_eq_none_of_lt (by rwa [length_tables]) name

theorem le_depth_of_entry {s : Stack} {d : Nat} {name : Text} {v : Variable}
    (h : s.entry d name = some v) : d ≤ s.depth := by
  rw [← length_tables]
  exact Scope.le_length_of_entry h

theorem entry_globals (s : Stack) (name : Text) : s.entry 1 name = s.globals[name]? :=
  Scope.entry_one s.blocks s.globals name

theorem entry_setGlobals (s : Stack) (globals : Scope) (d : Nat) (name : Text) :
    { s with globals }.entry d name = if d = 1 then globals[name]? else s.entry d name := by
  split
  · next hd =>
    subst hd
    exact entry_globals { s with globals } name
  · next hd => exact Scope.entry_append_globals s.blocks globals s.globals hd name

theorem lookup_eq_some_iff {s : Stack} {name : Text} {v : Variable} :
    s.lookup name = some v ↔
      ∃ d, s.entry d name = some v ∧ ∀ e, d < e → s.entry e name = none :=
  Scope.lookup_eq_some_iff

theorem lookup_eq_none_iff {s : Stack} {name : Text} :
    s.lookup name = none ↔ ∀ d, s.entry d name = none :=
  Scope.lookup_eq_none_iff

/-! ## Other tables -/

/-- The stack with other tables, of which the last is the global one. -/
def withTables (s : Stack) (tables : List Scope) : Stack :=
  { s with blocks := tables.dropLast, globals := tables.getLast?.getD ∅ }

@[simp] theorem withTables_tables (s : Stack) : s.withTables s.tables = s := by
  simp [withTables, tables]

@[simp] theorem active_withTables (s : Stack) (tables : List Scope) :
    (s.withTables tables).active = s.active := rfl

theorem eq_withTables {s t : Stack} (h : t.active = s.active) : t = s.withTables t.tables := by
  have ht := t.withTables_tables
  rw [withTables, h] at ht
  exact ht.symm

theorem tables_ne_nil (s : Stack) : s.tables ≠ [] := by simp [tables]

theorem tables_withTables (s : Stack) {tables : List Scope} (h : tables ≠ []) :
    (s.withTables tables).tables = tables := by
  rw [Stack.tables, withTables, List.getLast?_eq_some_getLast h, Option.getD_some,
    List.dropLast_concat_getLast h]

/-! ## Opening and closing -/

@[simp] theorem tables_enter (s : Stack) : s.enter.tables = ∅ :: s.tables := rfl

theorem entry_enter (s : Stack) (d : Nat) (name : Text) : s.enter.entry d name = s.entry d name := by
  simp only [entry, tables_enter, Scope.entry]
  split
  · next h => rw [Scope.entry_eq_none_of_lt (by omega)]; simp
  · rfl

theorem tables_exit {s t : Stack} (h : s.exit = .ok t) : ∃ table, s.tables = table :: t.tables := by
  cases hb : s.blocks with
  | nil => simp [exit, hb] at h
  | cons table outer =>
    simp only [exit, hb, Except.ok.injEq] at h
    exact ⟨table, by simp [tables, hb, ← h]⟩

/-- Closing a block takes its table away, and the method being checked with its
own block. -/
theorem exit_eq_ok {s t : Stack} (h : s.exit = .ok t) :
    t.depth + 1 = s.depth ∧ t.active = s.active.filter (·.depth ≤ t.depth) ∧
      ∀ d name, t.entry d name = if d ≤ t.depth then s.entry d name else none := by
  refine ⟨depth_exit h, ?_, fun d name => ?_⟩
  · cases hb : s.blocks <;> simp only [exit, hb, reduceCtorEq, Except.ok.injEq] at h
    rw [← h]
    rfl
  · obtain ⟨table, ht⟩ := tables_exit h
    simp only [entry, ht, Scope.entry, length_tables]
    split
    · rw [if_neg (by omega)]
    · next hd => exact Scope.entry_eq_none_of_lt (by rw [length_tables]; omega) name

theorem exists_exit_iff {s : Stack} : (∃ t, s.exit = .ok t) ↔ 1 < s.depth := by
  cases hb : s.blocks <;> simp [exit, depth, hb]

/-! ## Declaring -/

theorem tables_insert (s : Stack) (v : Variable) :
    (s.insert v).tables = s.tables.modifyHead (·.insert v.name v) := by
  cases hb : s.blocks <;> simp [insert, tables, hb]

@[simp] theorem depth_insert (s : Stack) (v : Variable) : (s.insert v).depth = s.depth := by
  cases hb : s.blocks <;> simp [insert, depth, hb]

@[simp] theorem active_insert (s : Stack) (v : Variable) : (s.insert v).active = s.active := by
  cases hb : s.blocks <;> simp [insert, hb]

theorem entry_insert (s : Stack) (v : Variable) (d : Nat) (name : Text) :
    (s.insert v).entry d name =
      if d = s.depth ∧ name = v.name then some v else s.entry d name := by
  have hl := s.length_tables
  rw [entry, entry, tables_insert]
  cases ht : s.tables with
  | nil => simp [tables] at ht
  | cons table outer =>
    rw [ht, List.length_cons] at hl
    simp only [List.modifyHead_cons, Scope.entry, hl]
    grind

theorem innermost_getElem? (s : Stack) (name : Text) : s.innermost[name]? = s.entry s.depth name := by
  cases hb : s.blocks <;> simp [innermost, entry, tables, depth, hb, Scope.entry]

/-- A variable can be declared when the innermost block has none of its name. -/
theorem declare_eq_ok_iff {s t : Stack} {v : Variable} :
    s.declare v = .ok t ↔ s.entry s.depth v.name = none ∧ t = s.insert v := by
  rw [← innermost_getElem?, ← Option.not_isSome_iff_eq_none, ← Std.ExtTreeMap.mem_iff_isSome_getElem?]
  by_cases h : v.name ∈ s.innermost <;> simp [declare, h, eq_comm]

/-- Declaring variables gives the innermost block an entry for each of them, and
changes no other. -/
theorem entry_declareAll {s t : Stack} {vs : List Variable} (h : s.declareAll vs = (t, none)) :
    t.depth = s.depth ∧ t.active = s.active ∧
      ∀ d name v, t.entry d name = some v ↔
        s.entry d name = some v ∨ d = s.depth ∧ v ∈ vs ∧ v.name = name := by
  induction vs generalizing s with
  | nil =>
    obtain ⟨rfl, -⟩ := Prod.mk.inj h
    simp
  | cons w vs ih =>
    rw [declareAll] at h
    cases hd : s.declare w with
    | error fault => rw [hd] at h; cases h
    | ok u =>
      rw [hd] at h
      obtain ⟨hfree, rfl⟩ := declare_eq_ok_iff.1 hd
      obtain ⟨hdepth, hactive, hentry⟩ := ih h
      refine ⟨by simpa using hdepth, by simpa using hactive, fun d name v => ?_⟩
      rw [hentry, entry_insert, depth_insert, List.mem_cons]
      grind

/-- Variables that are declared together have different names, and none has
that of an entry that is there already. -/
theorem declareAll_fresh {s t : Stack} {vs : List Variable} (h : s.declareAll vs = (t, none)) :
    (vs.map (·.name)).Nodup ∧ ∀ v ∈ vs, s.entry s.depth v.name = none := by
  induction vs generalizing s with
  | nil => simp
  | cons w vs ih =>
    rw [declareAll] at h
    cases hd : s.declare w with
    | error fault => rw [hd] at h; cases h
    | ok u =>
      rw [hd] at h
      obtain ⟨hfree, rfl⟩ := declare_eq_ok_iff.1 hd
      obtain ⟨hnodup, hfresh⟩ := ih h
      simp only [depth_insert, entry_insert] at hfresh
      rw [List.map_cons, List.nodup_cons, List.mem_map]
      grind

/-! ## Changing -/

/-- A change of the stack is one of its tables. -/
theorem update?_eq_withTables (f : Variable → Except Fault Variable) (name : Text) (s : Stack) :
    s.update? f name = (Scope.update? f name s.tables).map (·.map s.withTables) := by
  rw [tables, Scope.update?_append, update?]
  cases Scope.update? f name s.blocks with
  | some r => cases r <;> simp [Except.map, withTables]
  | none =>
    cases hg : s.globals[name]? with
    | none => simp [Scope.update?, hg]
    | some v => cases hf : f v <;> simp [Scope.update?, hg, hf, Except.map, withTables]

/-- A change reaches the entry that the name stands for, and no other. -/
theorem update?_eq_ok {f : Variable → Except Fault Variable} {name : Text} {s t : Stack}
    (h : s.update? f name = some (.ok t)) :
    ∃ d v w, s.entry d name = some v ∧ (∀ e, d < e → s.entry e name = none) ∧ f v = .ok w ∧
      t.depth = s.depth ∧ t.active = s.active ∧
      ∀ e y, t.entry e y = if e = d ∧ y = name then some w else s.entry e y := by
  rw [update?_eq_withTables, Option.map_eq_some_iff] at h
  obtain ⟨r, hr, hmap⟩ := h
  obtain ⟨tables, rfl, rfl⟩ := map_eq_ok_iff.1 hmap
  obtain ⟨d, v, w, hd, hin, hf, hl, he⟩ := Scope.update?_eq_ok hr
  have hne : tables ≠ [] := by
    rw [← List.length_pos_iff, hl, length_tables]
    exact s.depth_pos
  have htables := s.tables_withTables hne
  refine ⟨d, v, w, hd, hin, hf, ?_, rfl, fun e y => ?_⟩
  · rw [← length_tables, htables, hl, length_tables]
  · rw [entry, htables]
    exact he e y

theorem update?_eq_error {f : Variable → Except Fault Variable} {name : Text} {s : Stack}
    {fault : Fault} (h : s.update? f name = some (.error fault)) : ∃ v, f v = .error fault := by
  rw [update?_eq_withTables, Option.map_eq_some_iff] at h
  obtain ⟨r, hr, hmap⟩ := h
  rw [map_eq_error_iff.1 hmap] at hr
  exact Scope.update?_eq_error hr

end Stack

end SJava
