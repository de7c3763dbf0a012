import Mathlib.Data.List.Nodup
import Mathlib.Data.List.Perm.Basic
import SJava.Proofs.Literals
import SJava.Proofs.Pieces

/-!
# The clauses of a declaration

The clauses of a declaration line are all checked against the stack in front of the line,
and declared only then. So it does not matter in which order they are written, and none
sees what another one declares.

* `Stack.declareAll_eq_none_iff`, `Stack.declareAll_perm`: variables that can be declared
  together, in any order;
* `Stack.declareClauses_eq_ok_iff`: the clauses that can be declared, each by itself;
* `Declaration.exists_ofLine`: what a line is taken apart into, by what stands between its
  commas;
* `Stack.DeclaresTogether`, `Stack.declaresTogether`: a declaration line is simultaneous.
-/

namespace SJava

open SJava.Tree

/-! ## Declaring together -/

theorem Scope.insert_comm (table : Scope) {x y : Text} (h : x ≠ y) (v w : Variable) :
    (table.insert x v).insert y w = (table.insert y w).insert x v := by
  refine Std.ExtTreeMap.ext_getElem? fun z => ?_
  grind

namespace Stack

variable {s t : Stack}

theorem insert_comm (s : Stack) {v w : Variable} (h : v.name ≠ w.name) :
    (s.insert v).insert w = (s.insert w).insert v := by
  cases hb : s.blocks <;> simp [insert, hb, Scope.insert_comm _ h v w]

/-- Variables can be declared together when their names differ from each other and from
those in the innermost block. -/
theorem declareAll_eq_none_iff {vs : List Variable} :
    s.declareAll vs = (t, none) ↔
      (vs.map (·.name)).Nodup ∧ (∀ v ∈ vs, s.entry s.depth v.name = none) ∧
        t = vs.foldl insert s := by
  induction vs generalizing s with
  | nil => simp [declareAll, eq_comm]
  | cons w vs ih =>
    rw [declareAll]
    cases hd : s.declare w with
    | error fault =>
      have htaken : s.entry s.depth w.name ≠ none := fun hfree => by
        rw [declare_eq_ok_iff.2 ⟨hfree, rfl⟩] at hd
        cases hd
      simp [htaken]
    | ok u =>
      obtain ⟨hfree, rfl⟩ := declare_eq_ok_iff.1 hd
      simp only [ih, depth_insert, entry_insert, List.map_cons, List.nodup_cons, List.mem_map,
        List.forall_mem_cons, List.foldl_cons]
      grind

/-- The order in which variables are declared does not matter. -/
theorem declareAll_perm {vs ws : List Variable} (hperm : vs.Perm ws)
    (h : s.declareAll vs = (t, none)) : s.declareAll ws = (t, none) := by
  obtain ⟨hnodup, hfree, rfl⟩ := declareAll_eq_none_iff.1 h
  refine declareAll_eq_none_iff.2
    ⟨(hperm.map _).nodup_iff.1 hnodup, fun v hv => hfree v (hperm.mem_iff.2 hv), ?_⟩
  refine hperm.foldl_eq' (fun v hv w hw u => ?_) s
  by_cases hname : v.name = w.name
  · rw [List.inj_on_of_nodup_map hnodup hv hw hname]
  · exact insert_comm u hname

/-! ## Clauses -/

/-- A declaration succeeds when each of its clauses does in the stack in front of it, and
their variables can be declared together. -/
theorem declareClauses_eq_ok_iff {d : Declaration} :
    s.declareClauses d = .ok t ↔ ∃ ty vs, Ty.ofKeyword d.typeToken = .ok ty ∧
      List.Forall₂ (fun c v => s.clauseVariable ty d.isFinal c = .ok v) d.clauses vs ∧
        s.declareAll vs = (t, none) := by
  simp only [declareClauses, bind_eq_ok_iff, mapM_eq_ok_iff, exists_and_left]
  refine exists_congr fun ty => and_congr_right fun _ => exists_congr fun vs =>
    and_congr_right fun _ => ?_
  cases hall : s.declareAll vs with
  | mk u fault => cases fault <;> simp [throw_ne_ok]

theorem names_of_clauses {ty : Ty} {isFinal : Bool} {cs : List Clause} {vs : List Variable}
    (h : List.Forall₂ (fun c v => s.clauseVariable ty isFinal c = .ok v) cs vs) :
    vs.map (·.name) = cs.map (·.name) := by
  induction h with
  | nil => rfl
  | cons hcv _ ih => rw [List.map_cons, List.map_cons, ih, (clauseVariable_eq_ok hcv).name_eq]

/-- A declaration succeeds when its clauses could each be declared alone and have different
names. -/
theorem exists_declareClauses_iff {ty : Ty} {isFinal : Bool} {cs : List Clause} :
    (∃ t, s.declareClauses ⟨isFinal, ty.keyword, cs⟩ = .ok t) ↔
      (∀ c ∈ cs, (∃ v, s.clauseVariable ty isFinal c = .ok v) ∧ s.entry s.depth c.name = none) ∧
        (cs.map (·.name)).Nodup := by
  simp only [declareClauses_eq_ok_iff, Ty.ofKeyword_keyword, Except.ok.injEq, declareAll_eq_none_iff]
  constructor
  · rintro ⟨t, _, vs, rfl, hvs, hnodup, hfree, -⟩
    refine ⟨fun c hc => ?_, names_of_clauses hvs ▸ hnodup⟩
    obtain ⟨v, hv, hcv⟩ := exists_of_forall₂ hvs.flip hc
    exact ⟨⟨v, hcv⟩, (clauseVariable_eq_ok hcv).name_eq ▸ hfree v hv⟩
  · rintro ⟨hall, hnodup⟩
    obtain ⟨vs, hvs⟩ : ∃ vs, List.Forall₂ (fun c v => s.clauseVariable ty isFinal c = .ok v) cs vs := by
      clear hnodup
      induction cs with
      | nil => exact ⟨[], .nil⟩
      | cons c cs ih =>
        obtain ⟨⟨⟨v, hv⟩, -⟩, hcs⟩ := List.forall_mem_cons.1 hall
        obtain ⟨vs, hvs⟩ := ih hcs
        exact ⟨v :: vs, .cons hv hvs⟩
    refine ⟨_, ty, vs, rfl, hvs, (names_of_clauses hvs).symm ▸ hnodup, fun v hv => ?_, rfl⟩
    obtain ⟨c, hc, hcv⟩ := exists_of_forall₂ hvs hv
    exact (clauseVariable_eq_ok hcv).name_eq ▸ (hall c hc).2

/-- A declaration with the clauses in another order does the same. -/
theorem declareClauses_perm {isFinal : Bool} {token : Text} {cs ds : List Clause} (hperm : cs.Perm ds)
    (h : s.declareClauses ⟨isFinal, token, cs⟩ = .ok t) :
    s.declareClauses ⟨isFinal, token, ds⟩ = .ok t := by
  obtain ⟨ty, vs, hty, hvs, hall⟩ := declareClauses_eq_ok_iff.1 h
  obtain ⟨ws, hws, hperm'⟩ := List.perm_comp_forall₂ hperm.symm hvs
  exact declareClauses_eq_ok_iff.2 ⟨ty, ws, hty, hws, declareAll_perm hperm'.symm hall⟩

end Stack

/-! ## Lines -/

namespace Declaration

/-- A declaration line by what stands between its commas. -/
def line (front : Text) (pieces : List Text) : Text := front ++ commas pieces ++ [';']

/-- What can stand between the commas of a declaration. -/
structure Pieces (front : Text) (pieces : List Text) : Prop where
  begins : lead.Matches front
  ne_nil : pieces ≠ []
  comma : ∀ p ∈ pieces, ',' ∉ p

/-- The two lines have the same clauses, perhaps in another order. -/
def Reordered (line line' : Text) : Prop :=
  ∃ front ps qs, Pieces front ps ∧ ps.Perm qs ∧ line = Declaration.line front ps ∧
    line' = Declaration.line front qs

theorem Pieces.perm {front : Text} {ps qs : List Text} (h : Pieces front ps) (hperm : ps.Perm qs) :
    Pieces front qs where
  begins := h.begins
  ne_nil hnil := h.ne_nil (hnil ▸ hperm).eq_nil
  comma p hp := h.comma p (hperm.mem_iff.2 hp)

theorem Reordered.symm {line line' : Text} (h : Reordered line line') : Reordered line' line := by
  obtain ⟨front, ps, qs, hps, hperm, rfl, rfl⟩ := h
  exact ⟨front, qs, ps, hps.perm hperm, hperm.symm, rfl, rfl⟩

/-- Every declaration line has pieces. -/
theorem exists_pieces {line : Text} (h : Kind.of line = .ok .declaration) :
    ∃ front ps, Pieces front ps ∧ line = Declaration.line front ps := by
  obtain ⟨front, rest, rfl, hfront⟩ := exists_lead h
  refine ⟨front, rest.splitOn ',', ⟨hfront, List.splitOn_ne_nil _ _, fun _ => Text.not_mem_of_mem_splitOn⟩, ?_⟩
  rw [Declaration.line, commas, List.intercalate_splitOn]

/-- A line is taken apart into its type and a clause for each of its pieces. -/
theorem ofLine_line {isFinal : Bool} {ty : Ty} {front : Text} {ps : List Text}
    (h : IsTyped isFinal ty.keyword front) (hne : ps ≠ []) (hcomma : ∀ p ∈ ps, ',' ∉ p) :
    ofLine (line front ps) = (ps.mapM Clause.ofText).map (Declaration.mk isFinal ty.keyword) := by
  obtain ⟨c, back, hc, hback, htake⟩ := takeFinal_of_isTyped h
  obtain ⟨hword, hrest⟩ := Text.takeWhile_word
    (fun c hc => CharSet.isBlank_of_namePart (isNamePart_keyword ty c hc)) hc (back ++ commas ps ++ [';'])
  have hbody : Text.statementBody (c :: (back ++ commas ps ++ [';'])) = Text.trim (commas ps) :=
    Text.statementBody_append (u := c :: back) (List.forall_mem_cons.2 ⟨hc, hback⟩) (commas ps)
  rw [ofLine, line, (htake _).1]
  simp only [hword, hrest, List.isEmpty_iff, keyword_ne_nil, if_false, hbody,
    Clause.mapM_ofText_trim hne hcomma]
  cases ps.mapM Clause.ofText <;> rfl

/-- What begins a line decides its type and whether it is final; each piece is a clause. -/
theorem exists_ofLine {front : Text} (h : lead.Matches front) :
    ∃ isFinal ty, ∀ ps, Pieces front ps →
      ofLine (line front ps) = (ps.mapM Clause.ofText).map (Declaration.mk isFinal (Ty.keyword ty)) := by
  obtain ⟨isFinal, ty, htyped⟩ := exists_isTyped h
  exact ⟨isFinal, ty, fun ps hps => ofLine_line htyped hps.ne_nil hps.comma⟩

end Declaration

/-! ## Simultaneous declarations -/

namespace Stack

open Declaration

variable {s t : Stack} {line : Text} {d : Declaration} {c : Clause}

theorem declareLine_of_reordered {line' : Text} (h : Reordered line line')
    (hs : s.declareLine line = .ok t) : s.declareLine line' = .ok t := by
  obtain ⟨front, ps, qs, hps, hperm, rfl, rfl⟩ := h
  obtain ⟨isFinal, ty, hline⟩ := exists_ofLine hps.begins
  rw [declareLine, hline ps hps] at hs
  obtain ⟨_, hd, hs⟩ := bind_eq_ok_iff.1 hs
  obtain ⟨cs, hcs, rfl⟩ := map_eq_ok_iff.1 hd
  obtain ⟨ds, hds, hclauses⟩ := List.perm_comp_forall₂ hperm.symm (mapM_eq_ok_iff.1 hcs)
  rw [declareLine, hline qs (hps.perm hperm), mapM_eq_ok_iff.2 hds]
  exact declareClauses_perm hclauses.symm hs

/-- Each clause of a line could stand on a line of its own. -/
theorem exists_declareLine_iff {front : Text} {ps : List Text} (hps : Pieces front ps)
    (hd : ofLine (Declaration.line front ps) = .ok d) :
    (∃ t, s.declareLine (Declaration.line front ps) = .ok t) ↔
      (∀ p ∈ ps, ∃ t, s.declareLine (Declaration.line front [p]) = .ok t) ∧
        (d.clauses.map (·.name)).Nodup := by
  obtain ⟨isFinal, ty, hline⟩ := exists_ofLine hps.begins
  have hsame := hline ps hps
  rw [hd] at hsame
  obtain ⟨cs, hcs, rfl⟩ := map_eq_ok_iff.1 hsame.symm
  have hpieces := mapM_eq_ok_iff.1 hcs
  have halone {p : Text} (hp : p ∈ ps) {c : Clause} (hpc : Clause.ofText p = .ok c) :
      (∃ t, s.declareLine (Declaration.line front [p]) = .ok t) ↔
        (∃ v, s.clauseVariable ty isFinal c = .ok v) ∧ s.entry s.depth c.name = none := by
    have hone : Pieces front [p] :=
      ⟨hps.begins, List.cons_ne_nil p [], List.forall_mem_singleton.2 (hps.comma p hp)⟩
    have hclause : [p].mapM Clause.ofText = .ok [c] := mapM_eq_ok_iff.2 (.cons hpc .nil)
    rw [declareLine, hline [p] hone, hclause]
    refine exists_declareClauses_iff.trans ?_
    simp
  rw [declareLine, hd]
  refine exists_declareClauses_iff.trans (and_congr_left fun _ => ⟨fun hall p hp => ?_, fun hall c hc => ?_⟩)
  · obtain ⟨c, hc, hpc⟩ := exists_of_forall₂ hpieces.flip hp
    exact (halone hp hpc).2 (hall c hc)
  · obtain ⟨p, hp, hpc⟩ := exists_of_forall₂ hpieces hc
    exact (halone hp hpc).1 (hall p hp)

/-- The variable that a clause has declared is the one its name stands for. -/
theorem exists_of_declareLine (hs : s.declareLine line = .ok t) (hd : ofLine line = .ok d)
    (hc : c ∈ d.clauses) :
    ∃ ty v, Ty.ofKeyword d.typeToken = .ok ty ∧ s.Declares ty d.isFinal c v ∧ t.lookup c.name = some v := by
  obtain ⟨d', ty, vs, hd', hty, hvs, hall⟩ := declareLine_eq_ok hs
  obtain rfl := Except.ok.inj (hd.symm.trans hd')
  obtain ⟨v, hv, hdeclares⟩ := exists_of_forall₂ hvs.flip hc
  obtain ⟨hdepth, -, hentry⟩ := entry_declareAll hall
  refine ⟨ty, v, hty, hdeclares, lookup_eq_some_iff.2 ⟨t.depth, ?_, fun e he => ?_⟩⟩
  · exact (hentry _ _ _).2 (.inr ⟨hdepth, hv, hdeclares.name_eq⟩)
  · exact entry_eq_none_of_lt he _

/-- A declaration line is simultaneous. -/
structure DeclaresTogether (s : Stack) (line : Text) : Prop where
  cut : ∃ front ps, Pieces front ps ∧ line = Declaration.line front ps
  /-- Its clauses may be written in any order. -/
  reordered : ∀ line', Reordered line line' → ∀ t,
    s.declareLine line = .ok t ↔ s.declareLine line' = .ok t
  /-- It succeeds when each clause does alone and no name is declared twice. -/
  separate : ∀ front ps d, Pieces front ps → line = Declaration.line front ps → ofLine line = .ok d →
    ((∃ t, s.declareLine line = .ok t) ↔
      (∀ p ∈ ps, ∃ t, s.declareLine (Declaration.line front [p]) = .ok t) ∧
        (d.clauses.map (·.name)).Nodup)
  /-- Every value is what it stands for in front of the line. -/
  resolved : ∀ t d c raw, s.declareLine line = .ok t → ofLine line = .ok d → c ∈ d.clauses →
    c.value = some raw → ∃ ty value, Ty.ofKeyword d.typeToken = .ok ty ∧
      Variable.resolve s.lookup ty raw = .ok value ∧
        t.lookup c.name = some ⟨c.name, ty, d.isFinal, some value⟩
  /-- A value that names what the line declares is that of a variable further out. -/
  sibling : ∀ t d c c', s.declareLine line = .ok t → ofLine line = .ok d → c ∈ d.clauses →
    c' ∈ d.clauses → c.value = some c'.name → ∃ outer, s.lookup c'.name = some outer ∧
      outer.isInitialized = true ∧ (t.lookup c.name).bind (·.value) = outer.value

theorem declaresTogether (s : Stack) {line : Text} (h : Kind.of line = .ok .declaration) :
    s.DeclaresTogether line where
  cut := exists_pieces h
  reordered _ hline _ := ⟨declareLine_of_reordered hline, declareLine_of_reordered hline.symm⟩
  separate _ _ _ hps hline hd := by
    subst hline
    exact exists_declareLine_iff hps hd
  resolved t d c raw hs hd hc hraw := by
    obtain ⟨ty, v, hty, hv, hlookup⟩ := exists_of_declareLine hs hd hc
    obtain ⟨value, hresolve, hvalue⟩ := hv.resolve raw hraw
    refine ⟨ty, value, hty, hresolve, hlookup.trans (congrArg some ?_)⟩
    rw [← hv.name_eq, ← hv.ty_eq, ← hv.isFinal_eq, ← hvalue]
  sibling t d c c' hs hd hc hc' hname := by
    obtain ⟨ty, v, -, hv, hlookup⟩ := exists_of_declareLine hs hd hc
    obtain ⟨value, hresolve, hvalue⟩ := hv.resolve c'.name hname
    obtain ⟨_, v', -, hv', -⟩ := exists_of_declareLine hs hd hc'
    have hlike := Name.isNameLike_of_check (hv'.name_eq ▸ hv'.name_ok)
    rcases Variable.resolve_eq_ok hresolve with ⟨outer, houter, hset, -⟩ | ⟨-, hnot, -⟩
    · exact ⟨outer, houter, by simp [Variable.isInitialized, hset], by simp [hlookup, hvalue, hset]⟩
    · rw [hlike] at hnot
      cases hnot

/-- A clause that hides a variable, and one that still sees it. -/
theorem declaresTogether_hiding :
    let outer : Scope := (∅ : Scope).insert ['a'] ⟨['a'], .int, false, some ['1']⟩
    let s : Stack := { blocks := [∅, outer] }
    let line := "int a = 2,b = a;".toList
    let line' := "int b = a,a = 2;".toList
    Kind.of line = .ok .declaration ∧ s.DeclaresTogether line ∧
      ∃ t, s.declareLine line = .ok t ∧ s.declareLine line' = .ok t ∧
        (t.lookup ['b']).bind (·.value) = some ['1'] := by
  intro outer s line line'
  have hkind : Kind.of line = .ok .declaration := by decide +kernel
  have htogether := declaresTogether s hkind
  have hreordered : Reordered line line' := by
    refine ⟨"int ".toList, ["a = 2".toList, "b = a".toList], ["b = a".toList, "a = 2".toList],
      ⟨?_, by simp, by decide⟩, .swap _ _ _, rfl, rfl⟩
    exact Pattern.accepts_iff.1 (by decide +kernel)
  have hrun : (s.declareLine line).toOption.map (fun t => (t.lookup ['b']).bind (·.value)) =
      some (some ['1']) := by decide +kernel
  obtain ⟨t, ht, hvalue⟩ := toOption_map_eq_some_iff.1 hrun
  exact ⟨hkind, htogether, t, ht, (htogether.reordered line' hreordered t).1 ht, hvalue⟩

end Stack

end SJava
