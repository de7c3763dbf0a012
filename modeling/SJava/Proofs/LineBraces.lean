import SJava.Braces
import SJava.Kind
import SJava.Proofs.Trim

/-!
# Braces and the kind of a line

Whether a line opens or closes a block is read off its braces, and its kind off
its form. What the two have to do with each other:

* `opens_iff_getLast?`: a line that ends as it must opens a block exactly when
  it ends in `{`, whatever quotes it holds;
* `closes_iff_scopeEnd`: of the lines that have a kind, the ends of blocks are
  those that close one;
* `opens_of_ending`, `not_opens_of_ending`: headers open a block; of the other
  kinds, only an assignment can;
* `toldByEnds`: all of it for a trimmed line.

What stands outside of quotes (`Text.unquoted`) is all of a text that has none
(`unquoted_of_not_mem`), and ends as the text does (`getLast?_unquoted`).
-/

namespace SJava

namespace Text

/-- The last of the pieces around the quotes ends in the last character, unless
that is a quote. -/
theorem getLast?_splitOn_concat {c q : Char} (h : c ≠ q) (s : Text) :
    ∃ t, ((s ++ [c]).splitOn q).getLast? = some (t ++ [c]) := by
  induction s with
  | nil => exact ⟨[], by simp [List.splitOn_eq_singleton (show q ∉ [c] by simpa using h.symm)]⟩
  | cons x s ih =>
    obtain ⟨t, ht⟩ := ih
    rw [List.cons_append, List.splitOn_cons_eq_if_modifyHead]
    cases hp : (s ++ [c]).splitOn q with
    | nil => exact absurd hp (List.splitOn_ne_nil q _)
    | cons piece pieces =>
      rw [hp] at ht
      split
      · exact ⟨t, by rw [List.getLast?_cons_cons, ht]⟩
      · cases pieces with
        | nil => exact ⟨x :: t, by simpa using ht⟩
        | cons p ps => exact ⟨t, by simpa using ht⟩

/-- The piece behind the last quote is never dropped. -/
theorem getLast?_joinUnquoted {pieces : List Text} {t : Text} {c : Char}
    (h : pieces.getLast? = some (t ++ [c])) : (joinUnquoted pieces).getLast? = some c := by
  induction pieces using joinUnquoted.induct with
  | case1 => simp at h
  | case2 outside => simp_all [joinUnquoted]
  | case3 outside unclosed =>
    rw [List.getLast?_cons_cons, List.getLast?_singleton, Option.some.injEq] at h
    rw [joinUnquoted, h, ← List.cons_append, ← List.append_assoc, List.getLast?_concat]
  | case4 outside inside pieces hne ih =>
    cases pieces with
    | nil => simp at hne
    | cons p ps =>
      simp only [List.getLast?_cons_cons] at h
      simp [joinUnquoted, ih h]

/-- Leaving out the quoted parts keeps the last character, unless that is a
quote. -/
theorem getLast?_unquoted {line : Text} {c : Char} (h : line.getLast? = some c) (hc : c ≠ '"') :
    (unquoted line).getLast? = some c := by
  obtain ⟨s, rfl⟩ := List.getLast?_eq_some_iff.1 h
  obtain ⟨t, ht⟩ := getLast?_splitOn_concat hc s
  exact getLast?_joinUnquoted ht

theorem joinUnquoted_modifyHead (c : Char) {pieces : List Text} (h : pieces ≠ []) :
    joinUnquoted (pieces.modifyHead (c :: ·)) = c :: joinUnquoted pieces := by
  match pieces, h with
  | [_], _ | [_, _], _ | _ :: _ :: _ :: _, _ => rfl

/-- What stands in front of all quotes is kept. -/
theorem unquoted_append {u : Text} (h : '"' ∉ u) (s : Text) : unquoted (u ++ s) = u ++ unquoted s := by
  induction u with
  | nil => rfl
  | cons c u ih =>
    rw [List.mem_cons, not_or] at h
    have hc : (c == '"') = false := beq_eq_false_iff_ne.2 (Ne.symm h.1)
    rw [List.cons_append, unquoted, List.splitOn_cons_eq_if_modifyHead, hc, if_neg Bool.false_ne_true,
      joinUnquoted_modifyHead c (List.splitOn_ne_nil _ _), ← unquoted, ih h.2, List.cons_append]

theorem unquoted_of_not_mem {s : Text} (h : '"' ∉ s) : unquoted s = s := by
  have hs := unquoted_append h []
  rwa [List.append_nil, show unquoted [] = [] from rfl, List.append_nil] at hs

end Text

/-! ## The last character -/

namespace Kind

open Pattern

theorem isTerminated_of_eq_ok {line : Text} {kind : Kind} (h : of line = .ok kind) :
    isTerminated line = true := (of_eq_ok_iff.1 h).1

/-- A line of a kind has the form of the kind. -/
theorem fits_of_eq_ok {line : Text} {kind : Kind} (h : of line = .ok kind) :
    kind.fits line = true := by
  have := List.find?_some (of_eq_ok_iff.1 h).2.2
  simpa using this

theorem fits_iff_matches {line : Text} {kind : Kind} (h : kind ≠ assignment) :
    kind.fits line = true ↔ kind.form.Matches line := by
  cases kind <;> first | exact absurd rfl h | exact accepts_iff

theorem getLast?_of_isTerminated {line : Text} (h : isTerminated line = true) :
    line.getLast? = some ';' ∨ line.getLast? = some '{' ∨ line.getLast? = some '}' := by
  unfold isTerminated at h
  split at h
  · rename_i c hc
    simp only [Bool.or_eq_true, beq_iff_eq] at h
    rcases h with (rfl | rfl) | rfl <;> simp [hc]
  · cases h

theorem isTerminated_iff {line : Text} :
    isTerminated line = true ↔
      line.getLast? = some ';' ∨ line.getLast? = some '{' ∨ line.getLast? = some '}' := by
  refine ⟨getLast?_of_isTerminated, fun h => ?_⟩
  rcases h with h | h | h <;>
  · rw [isTerminated, h]
    rfl

/-- A line that ends as it must has no blanks at its end. -/
theorem getLast?_of_blanks_behind {u v : Text} {c : Char} (h : isTerminated (u ++ c :: v) = true)
    (hv : ∀ x ∈ v, Text.isBlank x = true) : (u ++ c :: v).getLast? = some c := by
  cases hr : v.getLast? with
  | none => rw [List.getLast?_eq_none_iff.1 hr, List.getLast?_concat]
  | some b =>
    have hlast : (u ++ c :: v).getLast? = some b := by
      rw [List.getLast?_append, List.getLast?_cons, hr]
      rfl
    have hb := hv b (List.mem_of_getLast? hr)
    rcases getLast?_of_isTerminated h with e | e | e <;>
    · rw [hlast, Option.some.injEq] at e
      subst e
      exact absurd hb (by decide)

/-- The character that lines of the kind end in; an assignment can end in any of
the three. -/
def ending? : Kind → Option Char
  | methodHeader | condition => some '{'
  | returnStatement | call | declaration => some ';'
  | scopeEnd => some '}'
  | assignment => none

/-- All forms but the one of an assignment end in a character of their own, with
blanks behind it or without. -/
theorem exists_ending {line : Text} {kind : Kind} {c : Char} (hk : kind.ending? = some c)
    (h : kind.form.Matches line) :
    ∃ u v, line = u ++ c :: v ∧ ∀ x ∈ v, Text.isBlank x = true := by
  have behind {p : Pattern} {d : Char} (h : (p ++ char d ++ blanks).Matches line) :
      ∃ u v, line = u ++ d :: v ∧ ∀ x ∈ v, Text.isBlank x = true := by
    obtain ⟨_, v, rfl, ⟨u, _, rfl, -, hd⟩, hv⟩ := h
    rw [matches_char] at hd
    exact ⟨u, v, by simp [hd], hv⟩
  cases kind <;> simp only [ending?, Option.some.injEq, reduceCtorEq] at hk <;> subst hk
  case declaration =>
    obtain ⟨u, _, rfl, -, hd⟩ := h
    rw [matches_char] at hd
    exact ⟨u, [], by rw [hd], by simp⟩
  all_goals exact behind h

theorem getLast?_of_ending {line : Text} {kind : Kind} {c : Char} (h : of line = .ok kind)
    (hk : kind.ending? = some c) : line.getLast? = some c := by
  have hne : kind ≠ assignment := by rintro rfl; cases hk
  obtain ⟨u, v, rfl, hv⟩ := exists_ending hk ((fits_iff_matches hne).1 (fits_of_eq_ok h))
  exact getLast?_of_blanks_behind (isTerminated_of_eq_ok h) hv

/-- Every piece of an assignment has an equals sign. -/
theorem equals_mem_of_fits {line : Text} (h : assignment.fits line = true) : '=' ∈ line := by
  have hpieces : ∀ piece ∈ line.splitOn ',', '=' ∈ piece := by
    intro piece hp
    obtain ⟨_, v, rfl, ⟨_, w, rfl, ⟨x, _, rfl, -, hc⟩, -⟩, -⟩ :=
      accepts_iff.1 (List.all_eq_true.1 h piece hp)
    rw [matches_char] at hc
    simp [hc]
  have hmem : ∀ pieces : List Text, pieces ≠ [] → (∀ piece ∈ pieces, '=' ∈ piece) →
      '=' ∈ [','].intercalate pieces := by
    intro pieces hne hp
    cases pieces with
    | nil => exact absurd rfl hne
    | cons p ps =>
      have := hp p List.mem_cons_self
      cases ps <;> simp [List.intercalate, this]
  have hline : [','].intercalate (line.splitOn ',') = line := List.intercalate_splitOn ','
  rw [← hline]
  exact hmem _ (List.splitOn_ne_nil ',' line) hpieces

end Kind

/-! ## Opening and closing -/

namespace Braces

/-- A line that ends as it must opens a block exactly when it ends in `{`. -/
theorem opens_iff_getLast? {line : Text} (h : Kind.isTerminated line = true) :
    opens line = true ↔ line.getLast? = some '{' := by
  have hc : ∃ c, line.getLast? = some c ∧ c ≠ '"' ∧ Text.isBlank c = false := by
    rcases Kind.getLast?_of_isTerminated h with e | e | e <;> exact ⟨_, e, by decide, by decide⟩
  obtain ⟨c, hl, hq, hb⟩ := hc
  have hu := Text.getLast?_unquoted hl hq
  rw [opens, Text.trimEnd_eq_self hu hb, hu, hl, beq_iff_eq]

variable {line : Text} {kind : Kind}

theorem opens_of_ending (h : Kind.of line = .ok kind) (hk : kind.ending? = some '{') :
    opens line = true :=
  (opens_iff_getLast? (Kind.isTerminated_of_eq_ok h)).2 (Kind.getLast?_of_ending h hk)

theorem not_opens_of_ending {c : Char} (h : Kind.of line = .ok kind) (hk : kind.ending? = some c)
    (hc : c ≠ '{') : opens line = false := by
  rw [Bool.eq_false_iff, ne_eq, opens_iff_getLast? (Kind.isTerminated_of_eq_ok h),
    Kind.getLast?_of_ending h hk, Option.some.injEq]
  exact hc

theorem not_opens_of_semicolon (h : Kind.of line = .ok kind) (hlast : line.getLast? = some ';') :
    opens line = false := by
  rw [Bool.eq_false_iff, ne_eq, opens_iff_getLast? (Kind.isTerminated_of_eq_ok h), hlast]
  decide

theorem closes_iff : closes line = true ↔ Text.trim line = ['}'] := by
  rw [closes, beq_iff_eq]

/-- Of the lines that have a kind, the ends of blocks are those that close
one. -/
theorem closes_iff_scopeEnd (h : Kind.of line = .ok kind) :
    closes line = true ↔ kind = .scopeEnd := by
  rw [closes_iff]
  constructor
  · intro ht
    have only : ∀ c ∈ line, c = '}' ∨ Text.isBlank c = true := fun c hc =>
      (Text.mem_trim_or_isBlank hc).imp_left fun hm => by simpa [ht] using hm
    have absent {c : Char} (hc : c ∈ line) (hne : c ≠ '}') (hb : Text.isBlank c = false) : False :=
      (only c hc).elim hne fun e => by simp [hb] at e
    cases hk : kind.ending? with
    | none =>
      cases kind <;> simp only [Kind.ending?, reduceCtorEq] at hk
      exact (absent (Kind.equals_mem_of_fits (Kind.fits_of_eq_ok h)) (by decide) (by decide)).elim
    | some c =>
      have hc := List.mem_of_getLast? (Kind.getLast?_of_ending h hk)
      cases kind <;> simp only [Kind.ending?, Option.some.injEq, reduceCtorEq] at hk <;>
        subst hk <;> first | rfl | exact (absent hc (by decide) (by decide)).elim
  · rintro rfl
    have hm := (Kind.fits_iff_matches (by decide)).1 (Kind.fits_of_eq_ok h)
    obtain ⟨_, v, rfl, ⟨u, _, rfl, hu, hc⟩, hv⟩ := hm
    rw [Pattern.matches_char] at hc
    subst hc
    exact Text.trim_around hu (.of_forall (by simp) (Text.forall_of_all (by decide))) hv

theorem not_closes_of_ne (h : Kind.of line = .ok kind) (hk : kind ≠ .scopeEnd) :
    closes line = false := by
  rw [Bool.eq_false_iff, ne_eq, closes_iff_scopeEnd h]
  exact hk

/-- A return, a call and a declaration are in one block with what follows. -/
theorem neither_of_ending (h : Kind.of line = .ok kind) (hk : kind.ending? = some ';') :
    opens line = false ∧ closes line = false := by
  refine ⟨not_opens_of_ending h hk (by decide), not_closes_of_ne h ?_⟩
  rintro rfl
  cases hk

/-- Whether a trimmed line that ends as it must opens or closes a block is told by its ends, and
agrees with its kind if it has one. -/
theorem toldByEnds (htrim : Text.trim line = line)
    (hend : line.getLast? = some ';' ∨ line.getLast? = some '{' ∨ line.getLast? = some '}') :
    (opens line = true ↔ line.getLast? = some '{') ∧ (closes line = true ↔ line = ['}']) ∧
      ¬(opens line = true ∧ closes line = true) ∧
        ∀ kind, Kind.of line = .ok kind →
          (kind = .scopeEnd ↔ closes line = true) ∧
            (kind = .methodHeader ∨ kind = .condition → opens line = true) ∧
              (kind = .returnStatement ∨ kind = .call ∨ kind = .declaration →
                opens line = false ∧ closes line = false) := by
  have hopens := opens_iff_getLast? (Kind.isTerminated_iff.2 hend)
  have hcloses : closes line = true ↔ line = ['}'] := by rw [closes_iff, htrim]
  refine ⟨hopens, hcloses, ?_, fun kind hkind => ⟨(closes_iff_scopeEnd hkind).symm, ?_, ?_⟩⟩
  · rintro ⟨ho, hc⟩
    have hlast := hopens.1 ho
    rw [hcloses.1 hc] at hlast
    exact absurd hlast (by decide)
  · rintro (rfl | rfl) <;> exact opens_of_ending hkind rfl
  · rintro (rfl | rfl | rfl) <;> exact neither_of_ending hkind rfl

/-- A condition whose last quote has no partner opens a block all the same. -/
theorem toldByEnds_unpaired :
    let line := "if (\"\x7d\" || \") \x7b".toList
    Text.trim line = line ∧ line.getLast? = some '{' ∧ Kind.of line = .ok .condition ∧
      opens line = true ∧ closes line = false := by
  intro line
  have htrim : Text.trim line = line := by decide
  have hlast : line.getLast? = some '{' := by decide
  have hkind : Kind.of line = .ok .condition := Kind.of_eq_ok_iff.2 (by decide +kernel)
  obtain ⟨hopens, -, hboth, -⟩ := toldByEnds htrim (.inr (.inl hlast))
  have ho : opens line = true := hopens.2 hlast
  exact ⟨htrim, hlast, hkind, ho, Bool.eq_false_iff.2 fun hc => hboth ⟨ho, hc⟩⟩

end Braces

end SJava
