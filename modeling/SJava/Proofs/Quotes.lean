import Mathlib.Algebra.Ring.Parity
import SJava.Proofs.Balance

/-!
# Paired quotes

The quotes of a line pair up from left to right. What stands outside of the pairs is told
in three ways, which all agree:

* `Text.unquoted` cuts the line at every quote and drops every second piece;
* `Text.dropPairs` walks over the line once, and remembers what follows a quote that has no
  partner yet;
* `Pattern.Erases` takes away every text of a pattern, from left to right
  (`Pattern.erases_quoted_iff`, for a text between quotes).

A line is taken apart by `Text.quotes_induction`: into characters that are no quotes, pairs,
and what follows a last quote. Main result: `Text.pairsQuotes`.
-/

namespace SJava

namespace Text

/-! ## One pass over a line -/

/-- What a pass over a line has come to. -/
structure Scan where
  /-- What stands outside of pairs. -/
  kept : Text
  /-- What follows a quote that has no partner yet, if there is one. -/
  opened : Option Text

/-- One more character. -/
def Scan.next (scan : Scan) (c : Char) : Scan :=
  match scan.opened with
  | none => if c = '"' then ⟨scan.kept, some []⟩ else ⟨scan.kept ++ [c], none⟩
  | some inside => if c = '"' then ⟨scan.kept, none⟩ else ⟨scan.kept, some (inside ++ [c])⟩

/-- The end of the line, where a quote without a partner is an ordinary character. -/
def Scan.text (scan : Scan) : Text :=
  match scan.opened with
  | none => scan.kept
  | some inside => scan.kept ++ '"' :: inside

/-- The line without its paired quotes and what stands between them, in one pass. -/
def dropPairs (line : Text) : Text := (line.foldl Scan.next ⟨[], none⟩).text

variable {c : Char} {s v rest line : Text}

/-! ## The quotes of a line -/

/-- What holds of a line quote by quote. -/
theorem quotes_induction {motive : Text → Prop} (nil : motive [])
    (plain : ∀ c s, c ≠ '"' → motive s → motive (c :: s))
    (unpaired : ∀ v, '"' ∉ v → motive ('"' :: v))
    (pair : ∀ v rest, '"' ∉ v → motive rest → motive ('"' :: (v ++ '"' :: rest)))
    (line : Text) : motive line := by
  induction hn : line.length using Nat.strong_induction_on generalizing line with
  | _ n ih =>
    cases line with
    | nil => exact nil
    | cons c s =>
      rw [List.length_cons] at hn
      by_cases hc : c = '"'
      · subst hc
        by_cases hs : '"' ∈ s
        · obtain ⟨v, rest, rfl, hv⟩ := List.eq_append_cons_of_mem hs
          rw [List.length_append, List.length_cons] at hn
          exact pair v rest hv (ih _ (by omega) rest rfl)
        · exact unpaired s hs
      · exact plain c s hc (ih _ (by omega) s rfl)

theorem unquoted_cons (hc : c ≠ '"') (s : Text) : unquoted (c :: s) = c :: unquoted s :=
  unquoted_append (mt List.mem_singleton.1 (Ne.symm hc)) s

theorem unquoted_unpaired (hv : '"' ∉ v) : unquoted ('"' :: v) = '"' :: v := by
  have hsplit : ('"' :: v).splitOn '"' = [[], v] := by
    rw [← List.nil_append ('"' :: v), List.splitOn_append_cons_self, List.splitOn_eq_singleton hv]
    rfl
  rw [unquoted, hsplit]
  rfl

theorem unquoted_pair (hv : '"' ∉ v) (rest : Text) :
    unquoted ('"' :: (v ++ '"' :: rest)) = unquoted rest := by
  have hsplit : ('"' :: (v ++ '"' :: rest)).splitOn '"' = [] :: v :: rest.splitOn '"' := by
    rw [← List.nil_append ('"' :: _), List.splitOn_append_cons_self, List.splitOn_append_cons_self,
      List.splitOn_eq_singleton hv]
    rfl
  rw [unquoted, hsplit, unquoted]
  cases hrest : rest.splitOn '"' with
  | nil => exact absurd hrest (List.splitOn_ne_nil _ _)
  | cons piece pieces => rfl

/-! ## What is left -/

/-- Behind a quote, everything waits for its partner. -/
theorem foldl_next_opened (hv : '"' ∉ v) (kept inside : Text) :
    v.foldl Scan.next ⟨kept, some inside⟩ = ⟨kept, some (inside ++ v)⟩ := by
  induction v generalizing inside with
  | nil => rw [List.foldl_nil, List.append_nil]
  | cons c v ih =>
    rw [List.mem_cons, not_or] at hv
    have hnext : Scan.next ⟨kept, some inside⟩ c = ⟨kept, some (inside ++ [c])⟩ :=
      if_neg (Ne.symm hv.1)
    rw [List.foldl_cons, hnext, ih hv.2, List.append_assoc, List.singleton_append]

theorem foldl_next (kept line : Text) :
    (line.foldl Scan.next ⟨kept, none⟩).text = kept ++ unquoted line := by
  induction line using quotes_induction generalizing kept with
  | nil => exact (List.append_nil kept).symm
  | plain c s hc ih =>
    have hnext : Scan.next ⟨kept, none⟩ c = ⟨kept ++ [c], none⟩ := if_neg hc
    rw [List.foldl_cons, hnext, ih, unquoted_cons hc, List.append_assoc, List.singleton_append]
  | unpaired v hv =>
    show (v.foldl Scan.next ⟨kept, some []⟩).text = _
    rw [foldl_next_opened hv, unquoted_unpaired hv]
    rfl
  | pair v rest hv ih =>
    show ((v ++ '"' :: rest).foldl Scan.next ⟨kept, some []⟩).text = _
    rw [List.foldl_append, foldl_next_opened hv, unquoted_pair hv]
    exact ih kept

/-- Cutting at every quote and dropping every second piece is dropping the pairs in one
pass. -/
theorem unquoted_eq_dropPairs (line : Text) : unquoted line = dropPairs line :=
  (foldl_next [] line).symm

theorem count_quote_pair (hv : '"' ∉ v) (rest : Text) :
    ('"' :: (v ++ '"' :: rest)).count '"' = rest.count '"' + 2 := by
  rw [List.count_cons_self, List.count_append, List.count_cons_self, List.count_eq_zero_of_not_mem hv]
  omega

theorem count_quote_unpaired (hv : '"' ∉ v) : ('"' :: v).count '"' = 1 := by
  rw [List.count_cons_self, List.count_eq_zero_of_not_mem hv]

/-- One quote is left if their number is odd, and none if it is even. -/
theorem count_unquoted (line : Text) : (unquoted line).count '"' = line.count '"' % 2 := by
  induction line using quotes_induction with
  | nil => rfl
  | plain c s hc ih => rw [unquoted_cons hc, List.count_cons_of_ne hc, List.count_cons_of_ne hc, ih]
  | unpaired v hv => rw [unquoted_unpaired hv, count_quote_unpaired hv]
  | pair v rest hv ih => rw [unquoted_pair hv, count_quote_pair hv, ih, Nat.add_mod_right]

theorem unquoted_unquoted (line : Text) : unquoted (unquoted line) = unquoted line := by
  induction line using quotes_induction with
  | nil => rfl
  | plain c s hc ih => rw [unquoted_cons hc, unquoted_cons hc, ih]
  | unpaired v hv => rw [unquoted_unpaired hv, unquoted_unpaired hv]
  | pair v rest hv ih => rw [unquoted_pair hv, ih]

/-- Behind a line in which every quote has its partner, pairing starts anew. -/
theorem unquoted_append_of_even (heven : Even (line.count '"')) (s : Text) :
    unquoted (line ++ s) = unquoted line ++ unquoted s := by
  induction line using quotes_induction with
  | nil => rfl
  | plain c r hc ih =>
    rw [List.count_cons_of_ne hc] at heven
    rw [List.cons_append, unquoted_cons hc, unquoted_cons hc, ih heven, List.cons_append]
  | unpaired v hv =>
    rw [count_quote_unpaired hv] at heven
    exact absurd heven Nat.not_even_one
  | pair v rest hv ih =>
    rw [count_quote_pair hv] at heven
    have hrest : Even (rest.count '"') := (Nat.even_add.1 heven).2 (by decide)
    rw [List.cons_append, List.append_assoc, List.cons_append, unquoted_pair hv, unquoted_pair hv,
      ih hrest]

end Text

theorem Braces.balance_append_of_even {line : Text} (heven : Even (line.count '"')) (s : Text) :
    balance (line ++ s) = balance line + balance s := by
  rw [balance_eq_count, balance_eq_count, balance_eq_count, Text.unquoted_append_of_even heven,
    List.count_append, List.count_append]
  omega

/-! ## Taking away the texts of a pattern -/

namespace Pattern

/-- Taking the texts of a pattern away from a text, the first one first: there is none, or
one of those that start furthest to the left goes, and then those behind it. -/
inductive Erases (p : Pattern) : Text → Text → Prop
  | done {s : Text} (none : ∀ u m rest, s = u ++ (m ++ rest) → ¬p.Matches m) : Erases p s s
  | first {u m rest out : Text} (matched : p.Matches m)
      (leftmost : ∀ u' m' rest', u ++ (m ++ rest) = u' ++ (m' ++ rest') → p.Matches m' →
        u.length ≤ u'.length)
      (behind : Erases p rest out) : Erases p (u ++ (m ++ rest)) (u ++ out)

/-- Two quotes, and what stands between them. -/
def quoted : Pattern := char '"' ++ many (.compl (.char '"')) ++ char '"'

variable {m s v out line : Text} {c : Char}

theorem matches_quoted : quoted.Matches m ↔ ∃ v, '"' ∉ v ∧ m = '"' :: (v ++ ['"']) := by
  constructor
  · intro h
    obtain ⟨_, _, rfl, ⟨_, v, rfl, hopen, hv⟩, hclose⟩ := h
    rw [matches_char] at hopen hclose
    subst hopen hclose
    exact ⟨v, fun hmem => absurd (hv '"' hmem) (by decide), rfl⟩
  · intro h
    obtain ⟨v, hv, rfl⟩ := h
    refine ⟨'"' :: v, ['"'], rfl, ⟨['"'], v, rfl, matches_char.2 rfl, fun c hc => ?_⟩, matches_char.2 rfl⟩
    have hne : c ≠ '"' := fun h => hv (h ▸ hc)
    simpa [CharSet.contains] using hne

theorem count_quote_of_quoted (hm : quoted.Matches m) : m.count '"' = 2 := by
  obtain ⟨v, hv, rfl⟩ := matches_quoted.1 hm
  rw [Text.count_quote_pair hv, List.count_nil]

theorem quote_of_quoted {rest : Text} (hm : quoted.Matches m) (h : c :: s = m ++ rest) : c = '"' := by
  obtain ⟨v, -, rfl⟩ := matches_quoted.1 hm
  exact (List.cons_eq_cons.1 h).1

/-- A quote that has another one behind it starts a quoted text. -/
theorem exists_quoted (h : '"' ∈ s) : ∃ m rest, '"' :: s = m ++ rest ∧ quoted.Matches m := by
  obtain ⟨v, rest, rfl, hv⟩ := List.eq_append_cons_of_mem h
  exact ⟨'"' :: (v ++ ['"']), rest, by simp, matches_quoted.2 ⟨v, hv, rfl⟩⟩

/-- A line with one quote or none has no quoted text. -/
theorem erases_of_count_lt (h : s.count '"' < 2) : quoted.Erases s s := by
  refine .done fun u m rest hs hm => ?_
  rw [hs, List.count_append, List.count_append, count_quote_of_quoted hm] at h
  omega

/-- A character in front that is no quote stays. -/
theorem Erases.cons (hc : c ≠ '"') (h : quoted.Erases s out) : quoted.Erases (c :: s) (c :: out) := by
  cases h with
  | done hnone =>
    refine .done fun u m rest hs hm => ?_
    cases u with
    | nil => exact hc (quote_of_quoted hm hs)
    | cons x u => exact hnone u m rest (List.cons_eq_cons.1 hs).2 hm
  | @first u m rest out hm hleft hbehind =>
    refine Erases.first (u := c :: u) hm (fun u' m' rest' hs hm' => ?_) hbehind
    cases u' with
    | nil => exact absurd (quote_of_quoted hm' hs) hc
    | cons x u' =>
      have hle := hleft u' m' rest' (List.cons_eq_cons.1 hs).2 hm'
      rw [List.length_cons, List.length_cons]
      omega

theorem erases_unquoted (line : Text) : quoted.Erases line (Text.unquoted line) := by
  induction line using Text.quotes_induction with
  | nil => exact erases_of_count_lt (by decide)
  | plain c s hc ih =>
    rw [Text.unquoted_cons hc]
    exact ih.cons hc
  | unpaired v hv =>
    rw [Text.unquoted_unpaired hv]
    exact erases_of_count_lt (by rw [Text.count_quote_unpaired hv]; decide)
  | pair v rest hv ih =>
    have hm : quoted.Matches ('"' :: (v ++ ['"'])) := matches_quoted.2 ⟨v, hv, rfl⟩
    have herased := Erases.first (u := []) hm (fun _ _ _ _ _ => Nat.zero_le _) ih
    have hline : [] ++ ('"' :: (v ++ ['"']) ++ rest) = '"' :: (v ++ '"' :: rest) := by simp
    rw [Text.unquoted_pair hv]
    rwa [hline] at herased

/-- There is no quote in front of the first quoted text, and so what is taken away are the
pairs. -/
theorem Erases.eq_unquoted (h : quoted.Erases line out) : out = Text.unquoted line := by
  induction h with
  | @done s hnone =>
    by_cases hs : '"' ∈ s
    · obtain ⟨u, v, rfl, hu⟩ := List.eq_append_cons_of_mem hs
      have hv : '"' ∉ v := by
        intro hmem
        obtain ⟨m, rest, hrest, hm⟩ := exists_quoted hmem
        exact hnone u m rest (by rw [hrest]) hm
      rw [Text.unquoted_append hu, Text.unquoted_unpaired hv]
    · rw [Text.unquoted_of_not_mem hs]
  | @first u m rest out hm hleft hbehind ih =>
    obtain ⟨v, hv, rfl⟩ := matches_quoted.1 hm
    have hu : '"' ∉ u := by
      intro hmem
      obtain ⟨a, b, rfl, -⟩ := List.eq_append_cons_of_mem hmem
      obtain ⟨m', rest', hrest, hm'⟩ :=
        exists_quoted (s := b ++ ('"' :: (v ++ ['"']) ++ rest)) (by simp)
      have hle := hleft a m' rest' (by rw [← hrest]; simp) hm'
      rw [List.length_append, List.length_cons] at hle
      omega
    have hpair : '"' :: (v ++ ['"']) ++ rest = '"' :: (v ++ '"' :: rest) := by simp
    rw [Text.unquoted_append hu, hpair, Text.unquoted_pair hv, ih]

/-- Taking away the quoted texts leaves what is outside of pairs. -/
theorem erases_quoted_iff : quoted.Erases line out ↔ out = Text.unquoted line := by
  constructor
  · exact Erases.eq_unquoted
  · intro h
    exact h ▸ erases_unquoted line

end Pattern

/-! ## Pairing -/

namespace Text

/-- What stands outside of the paired quotes of a line, and what pairing has to do with the
line that follows. -/
structure PairsQuotes (line : Text) : Prop where
  /-- It is what one pass over the line keeps. -/
  scanned : unquoted line = dropPairs line
  /-- It is what is left when the quoted texts are taken away from left to right. -/
  erased : ∀ out, Pattern.quoted.Erases line out ↔ out = unquoted line
  atMostOne : (unquoted line).count '"' ≤ 1
  /-- The quote that is left is the last of an odd number, -/
  leftover : '"' ∈ unquoted line ↔ Odd (line.count '"')
  /-- and it stays with all that follows it. -/
  behind : ∀ u v, line = u ++ '"' :: v → Even (u.count '"') → '"' ∉ v →
    unquoted line = unquoted u ++ '"' :: v
  idempotent : unquoted (unquoted line) = unquoted line
  /-- If all quotes have partners, what follows is paired by itself, -/
  append : Even (line.count '"') → ∀ rest, unquoted (line ++ rest) = unquoted line ++ unquoted rest
  /-- and its braces are counted by themselves. -/
  balance : Even (line.count '"') → ∀ rest,
    Braces.balance (line ++ rest) = Braces.balance line + Braces.balance rest

/-- The quotes of every line pair up from left to right. -/
theorem pairsQuotes (line : Text) : PairsQuotes line where
  scanned := unquoted_eq_dropPairs line
  erased _ := Pattern.erases_quoted_iff
  atMostOne := by
    rw [count_unquoted]
    omega
  leftover := by
    rw [← List.count_pos_iff, count_unquoted, Nat.odd_iff]
    omega
  behind u v hline heven hv := by
    rw [hline, unquoted_append_of_even heven, unquoted_unpaired hv]
  idempotent := unquoted_unquoted line
  append heven rest := unquoted_append_of_even heven rest
  balance heven rest := Braces.balance_append_of_even heven rest

/-- Of two lines one after the other, the first has a brace in quotes and the second one
behind a quote without a partner. -/
theorem pairsQuotes_braces :
    let line := "s = \"\x7b\"; ".toList
    let rest := "\" \x7b".toList
    Even (line.count '"') ∧ Braces.balance (line ++ rest) = 0 + 1 := by
  intro line rest
  have heven : Even (line.count '"') := by decide
  have hbalance := (pairsQuotes line).balance heven rest
  have hline : Braces.balance line = 0 := by decide
  have hrest : Braces.balance rest = 1 := by decide
  rw [hline, hrest] at hbalance
  exact ⟨heven, hbalance⟩

end Text

end SJava
