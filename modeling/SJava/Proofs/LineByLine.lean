import Mathlib.Data.Set.Card
import Mathlib.Order.Interval.Finset.Nat
import SJava.Proofs.Decoding

/-!
# Reading line by line

A file is read line by line, up to and including each line feed, and what is read is decoded
and loses all line feeds and carriage returns at its end. A line of a file is shown by
decoding the whole and cutting the text, where a line loses its line feed and at most one
carriage return, and then what carriage returns are left. Both see the same lines.

* `Reading.readOn_eq`: reading line by line gives the readings of the file;
* `Content.lineAt?_eq`: what is shown is cut out of the text;
* `Content.mem_readings_iff`: the lines that are read are those shown under their numbers;
* `Content.isSome_lineAt?_iff`: and every line that is counted can be shown.
-/

namespace SJava

/-! ## Cutting behind line feeds -/

/-- Cuts behind every `newline`. What follows the last one is a piece if it is not empty. -/
def cutBehind {α : Type} [BEq α] (newline : α) : List α → List (List α)
  | [] => []
  | x :: s =>
    if x == newline then [x] :: cutBehind newline s
    else
      match cutBehind newline s with
      | [] => [[x]]
      | piece :: pieces => (x :: piece) :: pieces

section

variable {α : Type} [BEq α] [LawfulBEq α] {newline : α} {line : List α}

theorem cutBehind_cons_of_ne {x : α} (h : x ≠ newline) (s : List α) :
    cutBehind newline (x :: s) =
      match cutBehind newline s with
      | [] => [[x]]
      | piece :: pieces => (x :: piece) :: pieces := by
  rw [cutBehind, if_neg (by simpa using h)]

theorem cutBehind_ended (h : newline ∉ line) (rest : List α) :
    cutBehind newline (line ++ newline :: rest) = (line ++ [newline]) :: cutBehind newline rest := by
  induction line with
  | nil => simp [cutBehind]
  | cons x line ih =>
    rw [List.mem_cons, not_or] at h
    rw [List.cons_append, cutBehind_cons_of_ne (Ne.symm h.1), ih h.2]
    rfl

theorem cutBehind_last (h : newline ∉ line) (hne : line ≠ []) : cutBehind newline line = [line] := by
  induction line with
  | nil => exact absurd rfl hne
  | cons x line ih =>
    rw [List.mem_cons, not_or] at h
    rw [cutBehind_cons_of_ne (Ne.symm h.1)]
    by_cases hline : line = []
    · rw [hline]
      rfl
    · rw [ih h.2 hline]

end

/-! ## Ends of lines -/

namespace Text

/-- The lines of a text, each without the line feed that ends it and one carriage return in front of
that. -/
def lines (s : Text) : List Text :=
  (cutBehind '\n' s).map fun piece =>
    if piece.getLast? = some '\n' then dropFinal '\r' piece.dropLast else piece

theorem dropEndWhile_congr {p q : Char → Bool} {s : Text} (h : ∀ c ∈ s, p c = q c) :
    dropEndWhile p s = dropEndWhile q s := by
  have hdrop : ∀ t : Text, (∀ c ∈ t, p c = q c) → t.dropWhile p = t.dropWhile q := by
    intro t
    induction t with
    | nil => intro _; rfl
    | cons c t ih =>
      intro ht
      obtain ⟨hc, ht⟩ := List.forall_mem_cons.1 ht
      rw [List.dropWhile_cons, List.dropWhile_cons, hc, ih ht]
  rw [dropEndWhile, dropEndWhile, hdrop _ fun c hc => h c (List.mem_reverse.1 hc)]

theorem dropEndWhile_concat {p : Char → Bool} {c : Char} (h : p c = true) (s : Text) :
    dropEndWhile p (s ++ [c]) = dropEndWhile p s := by
  simp [dropEndWhile, h]

/-- A line that is decoded holds no line feed. -/
theorem newline_not_mem_of_decode? {line : List UInt8} {raw : Text} (h : decode? line = some raw)
    (hline : 10 ∉ line) : '\n' ∉ raw := by
  intro hraw
  rw [decode?_eq_some_iff_flatMap.1 h] at hline
  exact hline (List.mem_flatMap.2 ⟨'\n', hraw, by decide⟩)

theorem decode?_ended (line : List UInt8) :
    decode? (line ++ [10]) = (decode? line).map (· ++ ['\n']) :=
  decode?_concat line (c := '\n') (by decide)

end Text

namespace Reading

open Text

/-- A line without the line feeds and carriage returns at its end. -/
def withoutFeeds (raw : Text) : Text := dropEndWhile (fun c => c == '\n' || c == '\r') raw

theorem withoutFeeds_of_not_mem {raw : Text} (h : '\n' ∉ raw) : withoutFeeds raw = withoutEnding raw := by
  refine dropEndWhile_congr fun c hc => ?_
  have hne : (c == '\n') = false := beq_eq_false_iff_ne.2 (ne_of_mem_of_not_mem hc h)
  rw [hne, Bool.false_or]

theorem withoutFeeds_ended {raw : Text} (h : '\n' ∉ raw) :
    withoutFeeds (raw ++ ['\n']) = withoutEnding raw := by
  rw [← withoutFeeds_of_not_mem h]
  exact dropEndWhile_concat rfl raw

/-- Where all carriage returns are dropped, one can be dropped before. -/
theorem withoutEnding_dropFinal (raw : Text) : withoutEnding (dropFinal '\r' raw) = withoutEnding raw := by
  unfold dropFinal
  split
  · next h =>
    obtain ⟨s, rfl⟩ := List.getLast?_eq_some_iff.1 h
    rw [List.dropLast_concat, withoutEnding_return]
  · rfl

theorem map_withoutEnding_lines (t : Text) :
    (Text.lines t).map withoutEnding = (physicalLines '\n' t).map withoutEnding := by
  induction t using lines_induction '\n' with
  | nil => rfl
  | last line hline hne =>
    have hlast : line.getLast? ≠ some '\n' := fun h => hline (List.mem_of_getLast? h)
    rw [Text.lines, cutBehind_last hline hne, physicalLines_of_not_mem hline hne, List.map_singleton,
      if_neg hlast]
  | ended line rest hline ih =>
    rw [Text.lines] at ih ⊢
    rw [cutBehind_ended hline, physicalLines_ended hline, List.map_cons, List.map_cons, List.map_cons, ih,
      if_pos List.getLast?_concat, List.dropLast_concat, withoutEnding_dropFinal]

/-- Reads pieces of a file as they come, when `before` lines have been read: what there is to check,
and the number of lines read in the end. A piece that is not UTF-8 is not counted. -/
def readOn (marker : Text) (before : Nat) : List (List UInt8) → List Reading × Nat
  | [] => ([], before)
  | piece :: pieces =>
    match decode? piece with
    | none =>
      let (found, read) := readOn marker before pieces
      (unreadable before :: found, read)
    | some raw =>
      let raw := withoutFeeds raw
      let (found, read) := readOn marker (before + 1) pieces
      (if isIgnored marker raw then found else line ⟨before + 1, trim raw⟩ :: found, read)

theorem readOn_cons_none {piece : List UInt8} (h : decode? piece = none) (marker : Text) (before : Nat)
    (pieces : List (List UInt8)) :
    readOn marker before (piece :: pieces) =
      (unreadable before :: (readOn marker before pieces).1, (readOn marker before pieces).2) := by
  rw [readOn, h]

theorem readOn_cons_some {piece : List UInt8} {raw : Text} (h : decode? piece = some raw)
    (marker : Text) (before : Nat) (pieces : List (List UInt8)) :
    readOn marker before (piece :: pieces) =
      (if isIgnored marker (withoutFeeds raw) then (readOn marker (before + 1) pieces).1
        else line ⟨before + 1, trim (withoutFeeds raw)⟩ :: (readOn marker (before + 1) pieces).1,
        (readOn marker (before + 1) pieces).2) := by
  rw [readOn, h]

/-- Reading a file line by line gives the readings of the file. -/
theorem readOn_eq (marker : Text) (before : Nat) (bytes : List UInt8) :
    readOn marker before (cutBehind 10 bytes) =
      (all marker before (Content.bytes bytes).physical, before + (Content.bytes bytes).linesRead) := by
  simp only [Content.linesRead, Content.physical]
  induction bytes using lines_induction (10 : UInt8) generalizing before with
  | nil => rfl
  | last line hline hne =>
    rw [cutBehind_last hline hne, physicalLines_of_not_mem hline hne, List.map_singleton]
    cases hread : decode? line with
    | none =>
      rw [readOn_cons_none hread]
      rfl
    | some raw =>
      rw [readOn_cons_some hread, withoutFeeds_of_not_mem (newline_not_mem_of_decode? hread hline)]
      rfl
  | ended line rest hline ih =>
    have hended := decode?_ended line
    rw [cutBehind_ended hline, physicalLines_ended hline, List.map_cons]
    cases hread : decode? line with
    | none =>
      rw [hread] at hended
      rw [readOn_cons_none hended, ih, List.countP_cons_of_neg (by decide)]
      rfl
    | some raw =>
      rw [hread] at hended
      rw [readOn_cons_some hended, ih, withoutFeeds_ended (newline_not_mem_of_decode? hread hline),
        List.countP_cons_of_pos rfl, ← Nat.add_assoc, Nat.add_right_comm]
      rfl

/-! ## Numbers -/

variable {marker : Text}

/-- What is read of lines that can all be read. -/
theorem mem_all_iff {before : Nat} {raws : List Text} {l : Line} :
    line l ∈ all marker before (raws.map some) ↔
      ∃ n raw, raws[n]? = some raw ∧ l.number = before + n + 1 ∧
        isIgnored marker (withoutEnding raw) = false ∧ l.text = trim (withoutEnding raw) := by
  induction raws generalizing before with
  | nil => simp [all]
  | cons r raws ih =>
    have hsplit : (∃ n raw, (r :: raws)[n]? = some raw ∧ l.number = before + n + 1 ∧
        isIgnored marker (withoutEnding raw) = false ∧ l.text = trim (withoutEnding raw)) ↔
        (l.number = before + 1 ∧ isIgnored marker (withoutEnding r) = false ∧
          l.text = trim (withoutEnding r)) ∨ line l ∈ all marker (before + 1) (raws.map some) := by
      rw [ih]
      constructor
      · rintro ⟨n, raw, hn, hnumber, h⟩
        cases n with
        | zero =>
          cases hn
          exact .inl ⟨hnumber, h⟩
        | succ n => exact .inr ⟨n, raw, hn, by omega, h⟩
      · rintro (⟨hnumber, h⟩ | ⟨n, raw, hn, hnumber, h⟩)
        · exact ⟨0, r, rfl, hnumber, h⟩
        · exact ⟨n + 1, raw, hn, by omega, h⟩
    rw [hsplit]
    simp only [List.map_cons, all]
    cases hignored : isIgnored marker (withoutEnding r) with
    | true => simp
    | false =>
      obtain ⟨number, text⟩ := l
      simp

/-- The lines are numbered upwards. -/
theorem pairwise_all (before : Nat) (raws : List Text) :
    ((all marker before (raws.map some)).map linesRead).Pairwise (· < ·) ∧
      ∀ r ∈ all marker before (raws.map some), before < r.linesRead := by
  induction raws generalizing before with
  | nil => simp [all]
  | cons raw raws ih =>
    obtain ⟨hpairs, hafter⟩ := ih (before + 1)
    simp only [List.map_cons, all]
    split
    · exact ⟨hpairs, fun r hr => by have := hafter r hr; omega⟩
    · refine ⟨?_, ?_⟩
      · rw [List.map_cons, List.pairwise_cons]
        refine ⟨fun n hn => ?_, hpairs⟩
        obtain ⟨r, hr, rfl⟩ := List.mem_map.1 hn
        exact hafter r hr
      · rw [List.forall_mem_cons]
        exact ⟨Nat.lt_succ_self before, fun r hr => by have := hafter r hr; omega⟩

end Reading

/-! ## What is shown of a file -/

namespace Content

open Reading

variable {marker : Text} {bytes : List UInt8} {t : Text}

theorem lineAt?_bytes (h : Text.decode? bytes = some t) (n : Nat) :
    (Content.bytes bytes).lineAt? n =
      if n = 0 then none else (physicalLines '\n' t)[n - 1]?.map withoutEnding := by
  simp only [lineAt?, h]
  split <;> rfl

/-- What is shown of a file is cut out of its text. -/
theorem lineAt?_eq (h : Text.decode? bytes = some t) (n : Nat) :
    (Content.bytes bytes).lineAt? n =
      if n = 0 then none else (Text.lines t)[n - 1]?.map withoutEnding := by
  rw [lineAt?_bytes h, ← List.getElem?_map, ← List.getElem?_map, map_withoutEnding_lines]

theorem readings_of_decode? (h : Text.decode? bytes = some t) :
    (Content.bytes bytes).readings marker = all marker 0 ((physicalLines '\n' t).map some) := by
  rw [readings, physical_of_decode? h, physical]

theorem linesRead_of_decode? (h : Text.decode? bytes = some t) :
    (Content.bytes bytes).linesRead = (physicalLines '\n' t).length := by
  rw [linesRead, physical_of_decode? h, physical, List.countP_map]
  exact List.countP_eq_length.2 fun _ _ => rfl

theorem not_isIgnored_iff {raw : Text} :
    isIgnored marker raw = false ↔ (∃ c ∈ raw, Text.isBlank c = false) ∧ ¬marker <+: raw := by
  rw [Bool.eq_false_iff, ne_eq, isIgnored_iff, not_or]
  simp

/-- The lines that are read are those that are shown under their numbers, but for the ones that are
skipped. -/
theorem mem_readings_iff (h : Text.decode? bytes = some t) {n : Nat} {text : Text} :
    line ⟨n, text⟩ ∈ (Content.bytes bytes).readings marker ↔
      ∃ raw, (Content.bytes bytes).lineAt? n = some raw ∧ (∃ c ∈ raw, Text.isBlank c = false) ∧
        ¬marker <+: raw ∧ Text.trim raw = text := by
  rw [readings_of_decode? h, mem_all_iff, lineAt?_bytes h]
  constructor
  · rintro ⟨k, raw, hk, hnumber, hkept, htext⟩
    obtain rfl : n = k + 1 := by simpa using hnumber
    obtain ⟨hblank, hmarker⟩ := not_isIgnored_iff.1 hkept
    exact ⟨withoutEnding raw, by simp [hk], hblank, hmarker, htext.symm⟩
  · rintro ⟨raw, hraw, hblank, hmarker, rfl⟩
    cases n with
    | zero => cases hraw
    | succ k =>
      obtain ⟨line, hline, rfl⟩ := Option.map_eq_some_iff.1 hraw
      have hnumber : k + 1 = 0 + k + 1 := by omega
      exact ⟨k, line, hline, hnumber, not_isIgnored_iff.2 ⟨hblank, hmarker⟩, rfl⟩

/-- The lines that are counted are those that can be shown. -/
theorem isSome_lineAt?_iff (h : Text.decode? bytes = some t) {n : Nat} :
    ((Content.bytes bytes).lineAt? n).isSome = true ↔ n ∈ Finset.Icc 1 (Content.bytes bytes).linesRead := by
  rw [lineAt?_bytes h, linesRead_of_decode? h, Finset.mem_Icc]
  split
  · next hn => simp [hn]
  · next hn =>
    rw [Option.isSome_map, ← Option.ne_none_iff_isSome, ne_eq, List.getElem?_eq_none_iff]
    omega

theorem ncard_lineAt? (h : Text.decode? bytes = some t) :
    {n | ((Content.bytes bytes).lineAt? n).isSome = true}.ncard = (Content.bytes bytes).linesRead := by
  have hset : {n | ((Content.bytes bytes).lineAt? n).isSome = true} =
      (Finset.Icc 1 (Content.bytes bytes).linesRead : Set Nat) := by
    ext n
    exact isSome_lineAt?_iff h
  rw [hset, Set.ncard_coe_finset, Nat.card_Icc, Nat.add_sub_cancel]

end Content

end SJava
