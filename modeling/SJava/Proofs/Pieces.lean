import Mathlib.Data.List.DropRight
import SJava.Proofs.TakingApart

/-!
# Blanks around pieces

A statement is trimmed before it is cut, and every piece after it. So the pieces are what
was written between the separators, whatever blanks there are around them.

* `Text.trim_of_blanks_around`: the blanks around a text, needed or not;
* `Text.statementBody_append`: the body of a statement that ends in a semicolon;
* `Text.map_trim_splitOn_trim`: trimming first or only afterwards;
* `Clause.mapM_ofText_trim`: the clauses of a declaration, from what stands between its commas.
-/

namespace SJava

namespace Text

/-- Blanks around a text are dropped with its own. -/
theorem trim_of_blanks_around {u v : Text} (hu : ∀ c ∈ u, isBlank c = true)
    (hv : ∀ c ∈ v, isBlank c = true) (s : Text) : trim (u ++ s ++ v) = trim s := by
  obtain ⟨a, b, hs, ha, hb⟩ := exists_trim s
  by_cases hnil : trim s = []
  · rw [hnil, trim_eq_nil_iff]
    have hblank := trim_eq_nil_iff.1 hnil
    intro c hc
    simp only [List.mem_append] at hc
    rcases hc with (hc | hc) | hc
    exacts [hu c hc, hblank c hc, hv c hc]
  · have hline : u ++ s ++ v = u ++ a ++ trim s ++ (b ++ v) := by
      conv_lhs => rw [hs]
      simp
    rw [hline]
    refine trim_around (fun c hc => ?_) (isTrimmed_trim hnil) fun c hc => ?_
    · exact (List.mem_append.1 hc).elim (hu c) (ha c)
    · exact (List.mem_append.1 hc).elim (hb c) (hv c)

@[simp] theorem trim_trim (s : Text) : trim (trim s) = trim s := by
  obtain ⟨u, v, hs, hu, hv⟩ := exists_trim s
  conv_rhs => rw [hs, trim_of_blanks_around hu hv]

theorem trimStart_concat {c : Char} (hc : isBlank c = false) (s : Text) :
    trimStart (s ++ [c]) = trimStart s ++ [c] := by
  rw [trimStart, List.dropWhile_append]
  split
  · next hnil => simp [trimStart, List.isEmpty_iff.1 hnil, hc]
  · rfl

/-- The body of a statement, behind blanks. -/
theorem statementBody_append {u : Text} (hu : ∀ c ∈ u, isBlank c = true) (s : Text) :
    statementBody (u ++ s ++ [';']) = trim s := by
  have hline : trim (u ++ s ++ [';']) = trimStart s ++ [';'] := by
    rw [trim, List.append_assoc, trimStart_append hu, trimStart_concat (by decide),
      trimEnd_eq_self List.getLast?_concat (by decide)]
  have hstart : trimStart (trimStart s) = trimStart s := List.dropWhile_idempotent _ _
  rw [statementBody, hline, dropFinal, if_pos List.getLast?_concat, List.dropLast_concat, trim, trim, hstart]

/-! ## Cutting -/

/-- Blanks around a text are blanks around its first and its last piece. -/
theorem map_trim_splitOn_append {c : Char} (hc : isBlank c = false) {u v : Text}
    (hu : ∀ c ∈ u, isBlank c = true) (hv : ∀ c ∈ v, isBlank c = true) (s : Text) :
    ((u ++ s ++ v).splitOn c).map trim = (s.splitOn c).map trim := by
  have hcu : c ∉ u := not_mem_of_blanks hu hc
  have hcv : c ∉ v := not_mem_of_blanks hv hc
  -- piece by piece; only the first one has `u` in front of it
  induction hn : s.length using Nat.strong_induction_on generalizing s u with
  | _ n ih =>
    by_cases hs : c ∈ s
    · obtain ⟨front, back, rfl, hfront⟩ := List.eq_append_cons_of_mem hs
      have hlt : back.length < n := by
        rw [← hn]
        simp
        omega
      have hline : u ++ (front ++ c :: back) ++ v = (u ++ front) ++ c :: ([] ++ back ++ v) := by simp
      have hpiece : c ∉ u ++ front := by simp [hcu, hfront]
      have hrest := ih _ hlt (u := []) (by simp) back (by simp) rfl
      rw [hline, List.splitOn_append_cons_self, List.splitOn_append_cons_self, List.map_append,
        List.map_append, hrest, List.splitOn_eq_singleton hpiece, List.splitOn_eq_singleton hfront]
      have htrim := trim_of_blanks_around hu (v := []) (by simp) front
      rw [List.append_nil] at htrim
      simp [htrim]
    · have hpiece : c ∉ u ++ s ++ v := by simp [hcu, hs, hcv]
      rw [List.splitOn_eq_singleton hpiece, List.splitOn_eq_singleton hs, List.map_singleton,
        List.map_singleton, trim_of_blanks_around hu hv]

/-- A text may be trimmed before it is cut. -/
theorem map_trim_splitOn_trim {c : Char} (hc : isBlank c = false) (s : Text) :
    ((trim s).splitOn c).map trim = (s.splitOn c).map trim := by
  obtain ⟨u, v, hs, hu, hv⟩ := exists_trim s
  conv_rhs => rw [hs]
  exact (map_trim_splitOn_append hc hu hv _).symm

/-- Pieces are blanks alone with commas between them only when one blank piece is all there is. -/
theorem trim_commas_ne_nil {ps : List Text} (hne : ps ≠ []) (hcomma : ∀ p ∈ ps, ',' ∉ p)
    (hblank : ps.map trim ≠ [[]]) : trim (Tree.commas ps) ≠ [] := by
  intro hall
  have hone : ',' ∉ Tree.commas ps := not_mem_of_blanks (trim_eq_nil_iff.1 hall) (by decide)
  have hsplit : (Tree.commas ps).splitOn ',' = ps := Tree.splitOn_commas hne hcomma
  rw [List.splitOn_eq_singleton hone] at hsplit
  exact hblank (by rw [← hsplit, List.map_singleton, hall])

/-- Pieces that are read in the same way with blanks around them or without. -/
theorem mapM_congr_of_trim {α : Type} {f : Text → Except Fault α} (hf : ∀ s, f (trim s) = f s)
    {xs ys : List Text} (h : xs.map trim = ys.map trim) : xs.mapM f = ys.mapM f := by
  have htrim (zs : List Text) : zs.mapM f = (zs.map trim).mapM f := by
    rw [List.mapM_map]
    exact congrArg (zs.mapM ·) (funext fun z => (hf z).symm)
  rw [htrim xs, h, ← htrim]

end Text

/-! ## Clauses -/

namespace Clause

/-- A clause reads its pieces trimmed. -/
theorem ofText_eq (piece : Text) :
    ofText piece = match (piece.splitOn '=').map Text.trim with
      | [name] => .ok ⟨name, none⟩
      | [name, value] => .ok ⟨name, some value⟩
      | _ => .error .invalidLineFormat := by
  unfold ofText
  split
  · next hsplit => rw [hsplit]; rfl
  · next hsplit => rw [hsplit]; rfl
  · next hone htwo =>
    cases hsplit : piece.splitOn '=' with
    | nil => rfl
    | cons p ps =>
      match ps with
      | [] => exact absurd hsplit (hone p)
      | [q] => exact absurd hsplit (htwo p q)
      | _ :: _ :: _ => rfl

theorem ofText_trim (piece : Text) : ofText (Text.trim piece) = ofText piece := by
  rw [ofText_eq, ofText_eq, Text.map_trim_splitOn_trim (by decide)]

/-- The clauses of a declaration are what is written between its commas. -/
theorem mapM_ofText_trim {ps : List Text} (hne : ps ≠ []) (hcomma : ∀ p ∈ ps, ',' ∉ p) :
    ((Text.trim (Tree.commas ps)).splitOn ',').mapM ofText = ps.mapM ofText := by
  refine Text.mapM_congr_of_trim ofText_trim ?_
  rw [Text.map_trim_splitOn_trim (by decide), Tree.splitOn_commas hne hcomma]

end Clause

/-- A declaration without blanks in front of it is cut at the commas behind its type. -/
theorem Declaration.ofLine_typed_commas (isFinal : Bool) (ty : Ty) {ps : List Text} (hne : ps ≠ [])
    (hcomma : ∀ p ∈ ps, ',' ∉ p) :
    Declaration.ofLine (Tree.typed isFinal ty ++ ' ' :: (Tree.commas ps ++ [';'])) =
      (ps.mapM Clause.ofText).map (Declaration.mk isFinal ty.keyword) := by
  obtain ⟨htake, hdrop⟩ := Text.takeWhile_word
    (fun c hc => CharSet.isBlank_of_namePart (Tree.isNamePart_keyword ty c hc)) (b := ' ') (by decide)
    (Tree.commas ps ++ [';'])
  have hbody : Text.statementBody (' ' :: (Tree.commas ps ++ [';'])) = Text.trim (Tree.commas ps) :=
    Text.statementBody_append (u := [' ']) (Text.forall_of_all (by decide)) (Tree.commas ps)
  rw [Declaration.ofLine, (Tree.isTrimmed_declaration isFinal ty _).trim_eq, Tree.takeFinal_typed]
  simp only [htake, hdrop, hbody, List.isEmpty_iff, Tree.keyword_ne_nil, if_false,
    Clause.mapM_ofText_trim hne hcomma]
  cases ps.mapM Clause.ofText <;> rfl

end SJava
