import SJava.Proofs.Respacing

/-!
# Sources in bytes

A file is cut into lines at the byte of the line feed and every line is decoded by itself; a
text is cut at the character. The byte stands for nothing but the character, so a file that
is UTF-8 holds the lines of its text, and one that is not has a line that is not.

* `Text.splitOn_encoded`: cutting at the byte or at the character is the same;
* `lines_induction`: what holds of a source line by line;
* `physicalLines_encoded`, `Content.physical_of_decode?`: the lines of a file and of its text;
* `FirstUnreadable`, `exists_firstUnreadable`: where a file stops being UTF-8;
* `bytesAnswer`: the answer to any file.
-/

namespace SJava

namespace Text

theorem newline_mem_utf8EncodeChar {c : Char} (h : 10 ∈ String.utf8EncodeChar c) : c = '\n' := by
  have hc : c.toNat = 10 := utf8EncodeChar_of_mem h (by decide)
  exact Char.toNat_inj.1 hc

/-- Cutting behind a beginning without a separator leaves the beginning whole. -/
theorem splitOn_append_of_not_mem {α : Type} [BEq α] [LawfulBEq α] {a : α} {u : List α} (h : a ∉ u)
    (s : List α) : (u ++ s).splitOn a = (s.splitOn a).modifyHead (u ++ ·) := by
  induction u with
  | nil => exact (congrFun List.modifyHead_id _).symm
  | cons x u ih =>
    rw [List.mem_cons, not_or] at h
    have hx : (x == a) = false := beq_eq_false_iff_ne.2 (Ne.symm h.1)
    rw [List.cons_append, List.splitOn_cons_eq_if_modifyHead, hx, if_neg Bool.false_ne_true, ih h.2,
      List.modifyHead_modifyHead]
    rfl

theorem splitOn_encoded (s : Text) :
    (s.flatMap String.utf8EncodeChar).splitOn 10 =
      (s.splitOn '\n').map (·.flatMap String.utf8EncodeChar) := by
  induction s with
  | nil => rfl
  | cons c s ih =>
    rw [List.flatMap_cons, List.splitOn_cons_eq_if_modifyHead]
    split
    · next hc =>
      obtain rfl : c = '\n' := beq_iff_eq.1 hc
      show (10 :: s.flatMap String.utf8EncodeChar).splitOn 10 = _
      rw [List.splitOn_cons_eq_if_modifyHead, if_pos (beq_self_eq_true 10), ih]
      rfl
    · next hc =>
      have hmem : (10 : UInt8) ∉ String.utf8EncodeChar c := fun h =>
        hc (beq_iff_eq.2 (newline_mem_utf8EncodeChar h))
      rw [splitOn_append_of_not_mem hmem, ih]
      cases s.splitOn '\n' <;> rfl

theorem decode?_encoded (s : Text) : decode? (s.flatMap String.utf8EncodeChar) = some s :=
  decode?_eq_some_iff_flatMap.2 rfl

theorem decode?_newline {u v : List UInt8} {s t : Text} (hu : decode? u = some s)
    (hv : decode? v = some t) : decode? (u ++ 10 :: v) = some (s ++ '\n' :: t) := by
  rw [decode?_eq_some_iff_flatMap] at hu hv ⊢
  rw [List.flatMap_append, List.flatMap_cons, ← hu, ← hv]
  rfl

end Text

/-! ## The lines of a file -/

/-- A source is empty, or one line that nothing ends, or a line with what follows its end. -/
@[elab_as_elim]
theorem lines_induction {α : Type} [BEq α] [LawfulBEq α] (newline : α) {motive : List α → Prop}
    (nil : motive []) (last : ∀ line, newline ∉ line → line ≠ [] → motive line)
    (ended : ∀ line rest, newline ∉ line → motive rest → motive (line ++ newline :: rest))
    (s : List α) : motive s := by
  induction hn : s.length using Nat.strong_induction_on generalizing s with
  | _ n ih =>
    by_cases hs : newline ∈ s
    · obtain ⟨line, rest, rfl, hline⟩ := List.eq_append_cons_of_mem hs
      refine ended line rest hline (ih _ ?_ rest rfl)
      rw [← hn, List.length_append, List.length_cons]
      omega
    · by_cases hne : s = []
      · exact hne ▸ nil
      · exact last s hs hne

theorem physicalLines_encoded (s : Text) :
    physicalLines 10 (s.flatMap String.utf8EncodeChar) =
      (physicalLines '\n' s).map (·.flatMap String.utf8EncodeChar) := by
  simp only [physicalLines, Text.splitOn_encoded, List.getLast?_map]
  rcases (s.splitOn '\n').getLast? with _ | piece
  · rfl
  · cases piece with
    | nil => exact List.map_dropLast.symm
    | cons c piece =>
      obtain ⟨b, bytes, hb⟩ := List.exists_cons_of_ne_nil (String.utf8EncodeChar_ne_nil (c := c))
      simp [List.flatMap_cons, hb]

theorem physicalLines_ended {α : Type} [BEq α] [LawfulBEq α] {newline : α} {line : List α}
    (h : newline ∉ line) (rest : List α) :
    physicalLines newline (line ++ newline :: rest) = line :: physicalLines newline rest := by
  rw [physicalLines_append_cons, List.splitOn_eq_singleton h, List.singleton_append]

theorem physicalLines_append {α : Type} [BEq α] [LawfulBEq α] {newline : α} {lines : List (List α)}
    (h : ∀ line ∈ lines, newline ∉ line) (s : List α) :
    physicalLines newline (Edit.source newline lines ++ s) = lines ++ physicalLines newline s := by
  induction lines with
  | nil => rfl
  | cons line lines ih =>
    obtain ⟨hline, hlines⟩ := List.forall_mem_cons.1 h
    rw [Edit.source, List.flatMap_cons, List.append_assoc, List.append_assoc, List.singleton_append,
      physicalLines_ended hline, ← Edit.source, ih hlines, List.cons_append]

/-- The first line of what is left of a source, if it is not empty. -/
theorem exists_physicalLines_eq_cons {α : Type} [BEq α] [LawfulBEq α] {newline : α} {line rest : List α}
    (hline : newline ∉ line) (hne : line ≠ []) (hrest : ∀ x, rest.head? = some x → x = newline) :
    ∃ lines, physicalLines newline (line ++ rest) = line :: lines := by
  cases rest with
  | nil => exact ⟨[], by rw [List.append_nil, physicalLines_of_not_mem hline hne]⟩
  | cons x rest =>
    obtain rfl : x = newline := hrest x rfl
    exact ⟨physicalLines x rest, physicalLines_ended hline rest⟩

namespace Content

variable {bytes : List UInt8} {t : Text}

/-- A file that is UTF-8 holds the lines of its text. -/
theorem physical_of_decode? (h : Text.decode? bytes = some t) :
    (Content.bytes bytes).physical = (text t).physical := by
  rw [Text.decode?_eq_some_iff_flatMap.1 h, physical, physical, physicalLines_encoded, List.map_map]
  exact List.map_congr_left fun line _ => Text.decode?_encoded line

/-- The physical lines decide. -/
theorem verify_congr {c c' : Content} (h : c.physical = c'.physical) (marker : Text) :
    c.verify marker = c'.verify marker := by
  simp only [verify, script, readings, linesRead, h]

end Content

/-! ## Files that are not UTF-8 -/

/-- Behind `lines`, each of them UTF-8 and ended by a line feed, `bad` is the first line of the file
that is not UTF-8. -/
structure FirstUnreadable (bytes : List UInt8) (lines : List (List UInt8)) (bad : List UInt8) : Prop where
  eq : ∃ rest, bytes = Edit.source 10 lines ++ (bad ++ rest) ∧ ∀ b, rest.head? = some b → b = 10
  oneLine : ∀ line ∈ lines, 10 ∉ line
  readable : ∀ line ∈ lines, Text.decode? line ≠ none
  badLine : 10 ∉ bad
  unreadable : Text.decode? bad = none

namespace FirstUnreadable

variable {bytes : List UInt8} {lines : List (List UInt8)} {bad : List UInt8}

theorem cons {line : List UInt8} (h : FirstUnreadable bytes lines bad) (hline : 10 ∉ line)
    (hread : Text.decode? line ≠ none) : FirstUnreadable (line ++ 10 :: bytes) (line :: lines) bad where
  eq := by
    obtain ⟨rest, rfl, hrest⟩ := h.eq
    exact ⟨rest, by simp [Edit.source], hrest⟩
  oneLine := List.forall_mem_cons.2 ⟨hline, h.oneLine⟩
  readable := List.forall_mem_cons.2 ⟨hread, h.readable⟩
  badLine := h.badLine
  unreadable := h.unreadable

theorem physical_eq (h : FirstUnreadable bytes lines bad) :
    ∃ below, (Content.bytes bytes).physical = lines.map Text.decode? ++ none :: below := by
  obtain ⟨rest, rfl, hrest⟩ := h.eq
  have hne : bad ≠ [] := by
    rintro rfl
    exact absurd h.unreadable (by decide)
  obtain ⟨below, hbelow⟩ := exists_physicalLines_eq_cons h.badLine hne hrest
  refine ⟨below.map Text.decode?, ?_⟩
  rw [Content.physical, physicalLines_append h.oneLine, hbelow, List.map_append, List.map_cons, h.unreadable]

theorem none_not_mem (h : FirstUnreadable bytes lines bad) : none ∉ lines.map Text.decode? := by
  rintro hnone
  obtain ⟨line, hline, hread⟩ := List.mem_map.1 hnone
  exact h.readable line hline hread

/-- A line that is not UTF-8 spoils the file. -/
theorem decode?_eq_none (h : FirstUnreadable bytes lines bad) : Text.decode? bytes = none := by
  rw [Option.eq_none_iff_forall_ne_some]
  intro t ht
  obtain ⟨below, hbelow⟩ := h.physical_eq
  have hmem : none ∈ (Content.text t).physical := by
    rw [← Content.physical_of_decode? ht, hbelow]
    exact List.mem_append_right _ List.mem_cons_self
  simp [Content.physical] at hmem

/-- The file fails at that line, which is not counted. -/
theorem verify_eq (h : FirstUnreadable bytes lines bad) (marker : Text) :
    (Content.bytes bytes).verify marker = .error ⟨invalidUtf8, lines.length⟩ := by
  obtain ⟨below, hbelow⟩ := h.physical_eq
  rw [Content.verify, Content.script_of_unreadable marker hbelow h.none_not_mem, List.length_map]

end FirstUnreadable

/-- A file all of whose lines are UTF-8 is UTF-8. -/
theorem exists_firstUnreadable {bytes : List UInt8} (h : Text.decode? bytes = none) :
    ∃ lines bad, FirstUnreadable bytes lines bad := by
  have hbad {line rest : List UInt8} (hline : 10 ∉ line) (hread : Text.decode? line = none)
      (hrest : ∀ b, rest.head? = some b → b = 10) : FirstUnreadable (line ++ rest) [] line :=
    ⟨⟨rest, rfl, hrest⟩, by simp, by simp, hline, hread⟩
  induction bytes using lines_induction (10 : UInt8) with
  | nil => exact absurd h (by decide)
  | last line hline _ =>
    have hfirst : FirstUnreadable (line ++ []) [] line := hbad hline h (by simp)
    rw [List.append_nil] at hfirst
    exact ⟨_, _, hfirst⟩
  | ended line rest hline ih =>
    cases hread : Text.decode? line with
    | none => exact ⟨_, _, hbad hline hread (by simp [eq_comm])⟩
    | some s =>
      have hrest : Text.decode? rest = none := by
        rw [Option.eq_none_iff_forall_ne_some]
        intro t ht
        rw [Text.decode?_newline hread ht] at h
        cases h
      obtain ⟨lines, bad, hfirst⟩ := ih hrest
      exact ⟨line :: lines, bad, hfirst.cons hline (by simp [hread])⟩

/-! ## The answer -/

/-- The same diagnostic for a source of another name. -/
def Diagnostic.named (name : Text) (d : Diagnostic) : Diagnostic :=
  { d with position := { d.position with source := name } }

/-- A file that is UTF-8 is answered as its text is, but for the name of the source. Any other file
fails at its first line that is not, with the number of lines in front of it. -/
theorem bytesAnswer (config : Config) (path : Text) (bytes : List UInt8) :
    (∀ t, Text.decode? bytes = some t →
      Opened.verify config.marker path (.ok (.file bytes)) =
        (verifyText config t).mapError (·.named path)) ∧
    (Text.decode? bytes = none ↔ ∃ lines bad, FirstUnreadable bytes lines bad) ∧
    ∀ lines bad, FirstUnreadable bytes lines bad →
      (Content.bytes bytes).verify config.marker = .error ⟨invalidUtf8, lines.length⟩ ∧
        Opened.verify config.marker path (.ok (.file bytes)) =
          .error ⟨invalidUtf8, UInt32.ofNat lines.length, path⟩ := by
  refine ⟨fun t ht => ?_, ⟨exists_firstUnreadable, ?_⟩, fun lines bad h => ?_⟩
  · have hsame := Content.verify_congr (Content.physical_of_decode? ht) config.marker
    simp only [Opened.verify, verifyText, hsame]
    cases (Content.text t).verify config.marker <;> rfl
  · rintro ⟨lines, bad, h⟩
    exact h.decode?_eq_none
  · have hfails := h.verify_eq config.marker
    refine ⟨hfails, ?_⟩
    rw [Opened.verify, hfails]
    rfl

/-- A comment that is not UTF-8 comes before the brace that closes nothing, and an accent is
nothing to complain about. -/
theorem bytesAnswer_comment :
    let good : List UInt8 := [0x7d, 10, 0x2f, 0x2f, 0xc3, 0xa9]
    let bad : List UInt8 := [0x2f, 0x2f, 0xc3, 0x28]
    (∃ t, Text.decode? good = some t ∧ Opened.verify ({} : Config).marker ['f'] (.ok (.file good)) =
      (verifyText {} t).mapError (·.named ['f'])) ∧
    FirstUnreadable (0x7d :: 10 :: bad) [[0x7d]] bad ∧
      Opened.verify ({} : Config).marker ['f'] (.ok (.file (0x7d :: 10 :: bad))) =
        .error ⟨invalidUtf8, 1, ['f']⟩ := by
  intro good bad
  have hgood : Text.decode? good = some "\x7d\n//é".toList :=
    Text.decode?_eq_some_iff_flatMap.2 (by decide)
  have hbad : FirstUnreadable (0x7d :: 10 :: bad) [[0x7d]] bad :=
    { eq := ⟨[], rfl, by simp⟩
      oneLine := by decide
      readable := by decide +kernel
      badLine := by decide
      unreadable := by decide +kernel }
  exact ⟨⟨_, hgood, (bytesAnswer {} ['f'] good).1 _ hgood⟩, hbad,
    ((bytesAnswer {} ['f'] _).2.2 _ _ hbad).2⟩

end SJava
