import SJava.Text.Blank

/-!
# Trimming

What trimming keeps and what it drops.

* `trim_around`: the blanks around a text are dropped, and nothing else;
* `mem_trim_or_isBlank`: what trimming drops is blank.
-/

namespace SJava.Text

/-- What is decided of the characters one by one holds of all. -/
theorem forall_of_all {p : Char → Prop} [DecidablePred p] {s : Text} (h : s.all (p ·) = true) :
    ∀ c ∈ s, p c :=
  fun c hc => of_decide_eq_true (List.all_eq_true.1 h c hc)

/-- A text that neither starts nor ends with a blank, and is not empty. -/
structure IsTrimmed (s : Text) : Prop where
  head : ∃ c, s.head? = some c ∧ isBlank c = false
  last : ∃ c, s.getLast? = some c ∧ isBlank c = false

theorem IsTrimmed.ne_nil {s : Text} (h : IsTrimmed s) : s ≠ [] := by
  rintro rfl
  obtain ⟨c, hc, -⟩ := h.head
  cases hc

/-- A text without any blanks. -/
theorem IsTrimmed.of_forall {s : Text} (hs : s ≠ []) (h : ∀ c ∈ s, isBlank c = false) :
    IsTrimmed s where
  head := by
    cases s with
    | nil => exact absurd rfl hs
    | cons c s => exact ⟨c, rfl, h c List.mem_cons_self⟩
  last := ⟨s.getLast hs, List.getLast?_eq_some_getLast hs, h _ (List.getLast_mem hs)⟩

theorem IsTrimmed.append {s t u : Text} (hs : IsTrimmed s) (hu : IsTrimmed u) :
    IsTrimmed (s ++ t ++ u) where
  head := by
    obtain ⟨c, hc, hb⟩ := hs.head
    exact ⟨c, by rw [List.append_assoc, List.head?_append, hc]; rfl, hb⟩
  last := by
    obtain ⟨c, hc, hb⟩ := hu.last
    exact ⟨c, by rw [List.getLast?_append, hc]; rfl, hb⟩

/-! ## One end at a time -/

theorem trimStart_append {u : Text} (hu : ∀ c ∈ u, isBlank c = true) (s : Text) :
    trimStart (u ++ s) = trimStart s :=
  List.dropWhile_append_of_pos hu

theorem trimStart_eq_self {s : Text} {c : Char} (h : s.head? = some c) (hc : isBlank c = false) :
    trimStart s = s := by
  obtain ⟨t, rfl⟩ := List.head?_eq_some_iff.1 h
  exact List.dropWhile_cons_of_neg (by simp [hc])

theorem trimEnd_append {v : Text} (hv : ∀ c ∈ v, isBlank c = true) (s : Text) :
    trimEnd (s ++ v) = trimEnd s := by
  rw [trimEnd, dropEndWhile, List.reverse_append,
    List.dropWhile_append_of_pos fun c hc => hv c (List.mem_reverse.1 hc), trimEnd, dropEndWhile]

theorem trimEnd_eq_self {s : Text} {c : Char} (h : s.getLast? = some c) (hc : isBlank c = false) :
    trimEnd s = s := by
  obtain ⟨t, rfl⟩ := List.getLast?_eq_some_iff.1 h
  simp [trimEnd, dropEndWhile, hc]

/-! ## Both ends -/

theorem IsTrimmed.trim_eq {s : Text} (h : IsTrimmed s) : trim s = s := by
  obtain ⟨c, hc, hb⟩ := h.head
  obtain ⟨d, hd, hb'⟩ := h.last
  rw [trim, trimStart_eq_self hc hb, trimEnd_eq_self hd hb']

/-- The blanks around a text are dropped. -/
theorem trim_around {u s v : Text} (hu : ∀ c ∈ u, isBlank c = true) (h : IsTrimmed s)
    (hv : ∀ c ∈ v, isBlank c = true) : trim (u ++ s ++ v) = s := by
  obtain ⟨c, hc, hb⟩ := h.head
  have hstart : trimStart (u ++ (s ++ v)) = s ++ v := by
    rw [trimStart_append hu, trimStart_eq_self (c := c) (by rw [List.head?_append, hc]; rfl) hb]
  obtain ⟨d, hd, hb'⟩ := h.last
  rw [trim, List.append_assoc, hstart, trimEnd_append hv, trimEnd_eq_self hd hb']

theorem mem_dropWhile_or {p : Char → Bool} {c : Char} {s : Text} (h : c ∈ s) :
    c ∈ s.dropWhile p ∨ p c = true := by
  induction s with
  | nil => cases h
  | cons x s ih =>
    cases hx : p x with
    | false =>
      rw [List.dropWhile_cons_of_neg (by simp [hx])]
      exact .inl h
    | true =>
      rw [List.dropWhile_cons_of_pos hx]
      rcases List.mem_cons.1 h with rfl | hc
      · exact .inr hx
      · exact ih hc

/-- What trimming drops is blank. -/
theorem mem_trim_or_isBlank {s : Text} {c : Char} (h : c ∈ s) :
    c ∈ trim s ∨ isBlank c = true := by
  simp only [trim, trimEnd, trimStart, dropEndWhile, List.mem_reverse]
  rcases mem_dropWhile_or (p := isBlank) h with hc | hc
  · exact mem_dropWhile_or (List.mem_reverse.2 hc)
  · exact .inr hc

end SJava.Text
