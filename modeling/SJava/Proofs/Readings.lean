import SJava.Proofs.Legality

/-!
# What a source holds to be checked

Checking a source reads the physical lines that are not skipped, each as the trimmed
text `lineText`. Their numbers matter for messages alone.

* `Content.exists_script_iff`: which sources can be read, and the texts of their lines;
* `Content.exists_physical`: the number of a line is that of the physical line it is read from;
* `Content.verify_eq_ok_iff_legal`: when a source is legal, and with which globals and
  methods;
* `Content.verify_lines_iff`: the same of what is written line by line.
-/

namespace SJava

open SJava.Tree

theorem exists_map_some {α : Type} {xs : List (Option α)} (h : none ∉ xs) :
    ∃ ys : List α, xs = ys.map some := by
  induction xs with
  | nil => exact ⟨[], rfl⟩
  | cons x xs ih =>
    rw [List.mem_cons, not_or] at h
    obtain ⟨ys, rfl⟩ := ih h.2
    obtain ⟨y, rfl⟩ := Option.ne_none_iff_exists'.1 (Ne.symm h.1)
    exact ⟨y :: ys, rfl⟩

namespace Reading

/-- Whether a physical line is skipped. One that is not UTF-8 never is. -/
def isSkipped (marker : Text) : Option Text → Bool
  | none => false
  | some raw => isIgnored marker (withoutEnding raw)

/-- What a physical line holds to be checked. -/
def lineText (raw : Text) : Text := Text.trim (withoutEnding raw)

theorem findSome?_unreadable?_all (marker : Text) (before : Nat) (physical : List (Option Text)) :
    (all marker before physical).findSome? unreadable? = none ↔ none ∉ physical := by
  induction physical generalizing before with
  | nil => simp [all]
  | cons p physical ih =>
    cases p with
    | none => simp [all, unreadable?]
    | some raw =>
      simp only [all]
      split
      · simpa using ih (before + 1)
      · simpa [unreadable?] using ih (before + 1)

theorem texts_all (marker : Text) (before : Nat) (physical : List (Option Text)) :
    ((all marker before physical).filterMap line?).map (·.text) =
      (physical.filter (!isSkipped marker ·)).filterMap (·.map lineText) := by
  induction physical generalizing before with
  | nil => rfl
  | cons p physical ih =>
    cases p with
    | none =>
      have hline : line? (unreadable before) = none := rfl
      simpa [all, hline, isSkipped] using ih before
    | some raw =>
      simp only [all]
      split
      · next h => simpa [isSkipped, h] using ih (before + 1)
      · next h => simpa [isSkipped, h, line?, lineText] using ih (before + 1)

/-- Where all lines can be read, they are numbered from the first one on, skipped or not. -/
theorem exists_physical {marker : Text} {before : Nat} {physical : List (Option Text)}
    (hreadable : none ∉ physical) {l : Line} (hl : line l ∈ all marker before physical) :
    ∃ n raw, l.number = before + n + 1 ∧ physical[n]? = some (some raw) ∧ l.text = lineText raw := by
  induction physical generalizing before with
  | nil => cases hl
  | cons p physical ih =>
    rw [List.mem_cons, not_or] at hreadable
    have hrest (hl : line l ∈ all marker (before + 1) physical) : ∃ n raw,
        l.number = before + n + 1 ∧ (p :: physical)[n]? = some (some raw) ∧ l.text = lineText raw := by
      obtain ⟨n, raw, hnumber, hn, htext⟩ := ih hreadable.2 hl
      exact ⟨n + 1, raw, by omega, by simpa using hn, htext⟩
    cases p with
    | none => exact absurd rfl hreadable.1
    | some raw =>
      simp only [all] at hl
      split at hl
      · exact hrest hl
      · rcases List.mem_cons.1 hl with hfirst | hl
        · cases hfirst
          exact ⟨0, raw, rfl, rfl, rfl⟩
        · exact hrest hl

end Reading

namespace Content

open Reading

variable {marker : Text} {c : Content}

/-- The physical lines that are not skipped. -/
def kept (marker : Text) (c : Content) : List (Option Text) :=
  c.physical.filter (!isSkipped marker ·)

theorem none_mem_kept : none ∈ c.kept marker ↔ none ∈ c.physical := by
  simp [kept, isSkipped]

/-- A source all of which can be read. -/
theorem exists_script_iff {texts : List Text} :
    (∃ script, c.script marker = .ok script ∧ script.lines.map (·.text) = texts) ↔
      ∃ raws : List Text, c.kept marker = raws.map some ∧ texts = raws.map lineText := by
  have hreadable := findSome?_unreadable?_all marker 0 c.physical
  have htexts := texts_all marker 0 c.physical
  have hkept : none ∈ c.kept marker ↔ none ∈ c.physical := none_mem_kept
  rw [← kept] at htexts
  rw [script, readings]
  constructor
  · rintro ⟨script, hscript, rfl⟩
    split at hscript
    · cases hscript
    · next hnone =>
      cases hscript
      rw [hreadable, ← hkept] at hnone
      obtain ⟨raws, hraws⟩ := exists_map_some hnone
      exact ⟨raws, hraws, by simp [htexts, hraws]⟩
  · rintro ⟨raws, hraws, rfl⟩
    have hnone : none ∉ c.physical := by
      rw [← hkept, hraws]
      simp
    rw [hreadable.2 hnone]
    exact ⟨_, rfl, by simp [htexts, hraws]⟩

/-- The lines to be checked are physical lines of the source, under their own numbers. -/
theorem exists_physical {script : Script} (hscript : c.script marker = .ok script) {l : Line}
    (hl : l ∈ script.lines) :
    ∃ n raw, l.number = n + 1 ∧ c.physical[n]? = some (some raw) ∧ l.text = lineText raw := by
  rw [Content.script, readings] at hscript
  split at hscript
  · cases hscript
  · next hnone =>
    cases hscript
    obtain ⟨r, hr, hline⟩ := List.mem_filterMap.1 hl
    cases r with
    | unreadable before => cases hline
    | line l' =>
      cases hline
      obtain ⟨n, raw, hnumber, hn, htext⟩ :=
        Reading.exists_physical ((findSome?_unreadable?_all marker 0 c.physical).1 hnone) hr
      exact ⟨n, raw, by omega, hn, htext⟩

theorem verify_eq_ok_iff {s : State} :
    c.verify marker = .ok s ↔ ∃ script, c.script marker = .ok script ∧ script.verify = .ok s := by
  rw [verify]
  cases c.script marker <;> simp

/-- A source is legal when it can be read and its lines are those of a legal one. -/
theorem verify_eq_ok_iff_legal {s : State} :
    c.verify marker = .ok s ↔
      ∃ (raws : List Text) (known : Scope × Registry), c.kept marker = raws.map some ∧
        Legal (raws.map lineText) known ∧ s = outside known := by
  rw [verify_eq_ok_iff]
  constructor
  · rintro ⟨script, hscript, h⟩
    obtain ⟨known, rfl, hlegal⟩ := Script.verify_eq_ok_iff_legal.1 h
    obtain ⟨raws, hraws, htexts⟩ := exists_script_iff.1 ⟨script, hscript, rfl⟩
    exact ⟨raws, known, hraws, htexts ▸ hlegal, rfl⟩
  · rintro ⟨raws, known, hraws, hlegal, rfl⟩
    obtain ⟨script, hscript, htexts⟩ := exists_script_iff.2 ⟨raws, hraws, rfl⟩
    exact ⟨script, hscript, Script.verify_eq_ok_iff_legal.2 ⟨known, rfl, htexts ▸ hlegal⟩⟩

/-- What is written line by line is legal when the lines are. -/
theorem verify_lines_iff {lines : List Text} {s : State} (h : ∀ line ∈ lines, IsLine marker line) :
    (text (lines.flatMap (· ++ ['\n']))).verify marker = .ok s ↔
      ∃ known, Legal lines known ∧ s = outside known := by
  have htexts : lines.map lineText = lines := by
    refine (List.map_congr_left fun line hline => ?_).trans (List.map_id lines)
    rw [lineText, withoutEnding_eq (h line hline).trimmed, (h line hline).trimmed.trim_eq]
    rfl
  have hkept : (text (lines.flatMap (· ++ ['\n']))).kept marker = lines.map some := by
    rw [kept, physical, physicalLines_render fun line hline => (h line hline).newline_not_mem,
      List.filter_eq_self]
    refine List.forall_mem_map.2 fun line hline => ?_
    have hignored := (h line hline).not_ignored
    rw [isSkipped, withoutEnding_eq (h line hline).trimmed, hignored]
    rfl
  rw [verify_eq_ok_iff_legal, hkept]
  constructor
  · rintro ⟨raws, known, hraws, hlegal, rfl⟩
    obtain rfl : lines = raws := (List.map_inj_right fun _ _ => Option.some.inj).1 hraws
    exact ⟨known, htexts ▸ hlegal, rfl⟩
  · rintro ⟨known, hlegal, rfl⟩
    exact ⟨lines, known, rfl, htexts.symm ▸ hlegal, rfl⟩

end Content

end SJava
