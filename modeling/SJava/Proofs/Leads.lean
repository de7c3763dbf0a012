import Mathlib.Data.List.TakeWhile
import SJava.Proofs.LineBraces

/-!
# The word a line starts with

Of most kinds of lines, the word that a line starts with and the character that
follows it tell already that it is of no other kind.

* `Text.leadWord`, `Text.behindLead`: that word and what follows it;
* `Text.lead_of_blanks`: how to read them off a line;
* `Kind.lead_of_header`, `Kind.lead_of_condition` and so on: what the form of each kind says
  about them.
-/

namespace SJava

/-- The characters of a name are not blank. -/
theorem CharSet.isBlank_of_namePart {c : Char} (h : CharSet.namePart.contains c = true) :
    Text.isBlank c = false := by
  have hrange : 48 ≤ c.toNat ∧ c.toNat ≤ 57 ∨ 65 ≤ c.toNat ∧ c.toNat ≤ 90 ∨ c.toNat = 95 ∨
      97 ≤ c.toNat ∧ c.toNat ≤ 122 := by
    simp only [namePart, letter, digit, Union.union, contains, Bool.or_eq_true, Bool.and_eq_true,
      decide_eq_true_eq, beq_iff_eq] at h
    have le (a b : Char) (hab : a ≤ b) : a.toNat ≤ b.toNat := hab
    rcases h with ((⟨h₁, h₂⟩ | ⟨h₁, h₂⟩) | ⟨h₁, h₂⟩) | rfl
    · exact .inr (.inl ⟨le _ _ h₁, le _ _ h₂⟩)
    · exact .inr (.inr (.inr ⟨le _ _ h₁, le _ _ h₂⟩))
    · exact .inl ⟨le _ _ h₁, le _ _ h₂⟩
    · exact .inr (.inr (.inl rfl))
  simp only [Text.isBlank, Bool.or_eq_false_iff, Bool.and_eq_false_iff, decide_eq_false_iff_not,
    beq_eq_false_iff_ne, ne_eq]
  omega

namespace Text

/-- Whether names may hold the character. -/
def isNamePart (c : Char) : Bool := CharSet.namePart.contains c

/-- The word that a text starts with, behind any blanks. -/
def leadWord (s : Text) : Text := (trimStart s).takeWhile isNamePart

/-- What follows that word. -/
def behindLead (s : Text) : Text := (trimStart s).dropWhile isNamePart

theorem lead_of_blanks {u w : Text} (rest : Text) (hu : ∀ c ∈ u, isBlank c = true) (hw : w ≠ [])
    (hname : ∀ c ∈ w, isNamePart c = true) (hrest : ∀ c, rest.head? = some c → isNamePart c = false) :
    leadWord (u ++ (w ++ rest)) = w ∧ behindLead (u ++ (w ++ rest)) = rest := by
  have hstart : trimStart (u ++ (w ++ rest)) = w ++ rest := by
    rw [trimStart_append hu]
    cases w with
    | nil => exact absurd rfl hw
    | cons c w => exact trimStart_eq_self rfl (CharSet.isBlank_of_namePart (hname c List.mem_cons_self))
  have hstop : rest.takeWhile isNamePart = [] ∧ rest.dropWhile isNamePart = rest := by
    cases rest with
    | nil => exact ⟨rfl, rfl⟩
    | cons c rest =>
      have hc := hrest c rfl
      exact ⟨List.takeWhile_cons_of_neg (by simp [hc]), List.dropWhile_cons_of_neg (by simp [hc])⟩
  rw [leadWord, behindLead, hstart, List.takeWhile_append_of_pos hname,
    List.dropWhile_append_of_pos hname, hstop.1, hstop.2, List.append_nil]
  exact ⟨rfl, rfl⟩

theorem lead_of_name {w : Text} (rest : Text) (hw : w ≠ []) (hname : ∀ c ∈ w, isNamePart c = true)
    (hrest : ∀ c, rest.head? = some c → isNamePart c = false) :
    leadWord (w ++ rest) = w ∧ behindLead (w ++ rest) = rest :=
  lead_of_blanks (u := []) rest (by simp) hw hname hrest

theorem not_isNamePart_of_isBlank {c : Char} (h : isBlank c = true) : isNamePart c = false := by
  rw [Bool.eq_false_iff]
  intro hc
  rw [CharSet.isBlank_of_namePart hc] at h
  cases h

/-- The word is followed by a blank. -/
def BlankBehindLead (s : Text) : Prop := ∃ c rest, behindLead s = c :: rest ∧ isBlank c = true

/-- The first character behind the word and the blanks that follow it. -/
def nextToLead (s : Text) : Option Char := (trimStart (behindLead s)).head?

theorem isPrefixOf?_eq_some_iff {w s rest : Text} : w.isPrefixOf? s = some rest ↔ s = w ++ rest := by
  induction w generalizing s with
  | nil =>
    show some s = some rest ↔ s = rest
    rw [Option.some.injEq]
  | cons c w ih =>
    cases s with
    | nil =>
      show none = some rest ↔ [] = c :: w ++ rest
      simp
    | cons d s =>
      show (if c == d then w.isPrefixOf? s else none) = some rest ↔ _
      by_cases hc : c = d
      · simp [hc, ih]
      · simp [hc, Ne.symm hc]

/-- A text that starts with a word and a blank has that word as its lead. -/
theorem lead_of_afterWord? {w s : Text} (hw : w ≠ []) (hname : ∀ c ∈ w, isNamePart c = true)
    (h : (afterWord? w s).isSome = true) : leadWord s = w ∧ BlankBehindLead s := by
  unfold afterWord? at h
  split at h
  · next c rest hprefix =>
    split at h
    · next hc =>
      have htrim := isPrefixOf?_eq_some_iff.1 hprefix
      have hblanks : ∀ c ∈ s.takeWhile isBlank, isBlank c = true := fun c hc => List.mem_takeWhile_imp hc
      have hs : s = s.takeWhile isBlank ++ (w ++ c :: rest) := by
        rw [← htrim, trimStart, List.takeWhile_append_dropWhile]
      have hlead := lead_of_blanks (c :: rest) hblanks hw hname fun x hx => by
        cases hx
        exact not_isNamePart_of_isBlank hc
      rw [← hs] at hlead
      exact ⟨hlead.1, c, rest, hlead.2, hc⟩
    · cases h
  · cases h

end Text

namespace Pattern

/-- How a sequence of patterns is bracketed does not matter. -/
theorem matches_assoc {p q r : Pattern} {s : Text} :
    (p ++ q ++ r).Matches s ↔ (p ++ (q ++ r)).Matches s := by
  constructor
  · rintro ⟨_, w, rfl, ⟨u, v, rfl, hu, hv⟩, hw⟩
    exact ⟨u, v ++ w, List.append_assoc u v w, hu, v, w, rfl, hv, hw⟩
  · rintro ⟨u, _, rfl, hu, v, w, rfl, hv, hw⟩
    exact ⟨u ++ v, w, (List.append_assoc u v w).symm, ⟨u, v, rfl, hu, hv⟩, hw⟩

theorem Matches.append {p q : Pattern} {u v : Text} (hp : p.Matches u) (hq : q.Matches v) :
    (p ++ q).Matches (u ++ v) := ⟨u, v, rfl, hp, hq⟩

theorem matches_no_blanks : blanks.Matches [] := fun _ hc => absurd hc List.not_mem_nil

/-- Blanks that a pattern allows can be left out. -/
theorem Matches.behind_blanks {q : Pattern} {v : Text} (hq : q.Matches v) : (blanks ++ q).Matches v :=
  ⟨[], v, rfl, matches_no_blanks, hq⟩

theorem matches_space : (oneOrMore .blank).Matches [' '] :=
  matches_oneOrMore.2 ⟨by simp, Text.forall_of_all (by decide)⟩

theorem matches_parenthesized {k : CharSet} {s : Text} (h : ∀ c ∈ s, k.contains c = true) :
    (Kind.parenthesized k).Matches ('(' :: s ++ [')']) :=
  ⟨'(' :: s, [')'], rfl, ⟨['('], s, rfl, matches_char.2 rfl, h⟩, matches_char.2 rfl⟩

end Pattern

namespace Kind

open Pattern

theorem isNamePart_of_letter {c : Char} (h : CharSet.letter.contains c = true) :
    Text.isNamePart c = true := by
  simp only [Text.isNamePart, CharSet.namePart, Union.union, CharSet.contains, h, Bool.true_or]

theorem isNamePart_of_first {c : Char} (h : (CharSet.letter ∪ .char '_').contains c = true) :
    Text.isNamePart c = true := by
  rcases Bool.or_eq_true_iff.1 h with h | h
  · exact isNamePart_of_letter h
  · rw [beq_iff_eq.1 h]
    decide

/-- A name is a word. -/
theorem isNamePart_of_name {first : CharSet} {w : Text} (hw : (namePattern first).Matches w)
    (hfirst : ∀ c, first.contains c = true → Text.isNamePart c = true) :
    w ≠ [] ∧ ∀ c ∈ w, Text.isNamePart c = true := by
  obtain ⟨_, v, rfl, ⟨c, hc, rfl⟩, hv⟩ := hw
  refine ⟨by simp, fun d hd => ?_⟩
  rcases List.mem_cons.1 hd with rfl | hd
  · exact hfirst d hc
  · exact hv d hd

section

variable {p : Pattern} {line w : Text}

/-- A word with blanks behind it. -/
theorem lead_of_word_blank {u b rest : Text} (hu : ∀ c ∈ u, Text.isBlank c = true) (hw : w ≠ [])
    (hname : ∀ c ∈ w, Text.isNamePart c = true) (hb : (oneOrMore .blank).Matches b) :
    Text.leadWord (u ++ (w ++ (b ++ rest))) = w ∧ Text.BlankBehindLead (u ++ (w ++ (b ++ rest))) := by
  obtain ⟨hne, hblank⟩ := matches_oneOrMore.1 hb
  cases b with
  | nil => exact absurd rfl hne
  | cons c b =>
    have hc := hblank c List.mem_cons_self
    obtain ⟨hlead, hbehind⟩ := Text.lead_of_blanks (c :: b ++ rest) hu hw hname fun x hx => by
      cases hx
      exact Text.not_isNamePart_of_isBlank hc
    exact ⟨hlead, c, b ++ rest, hbehind, hc⟩

theorem nextToLead_of_word_blank {u b rest : Text} (hu : ∀ c ∈ u, Text.isBlank c = true) (hw : w ≠ [])
    (hname : ∀ c ∈ w, Text.isNamePart c = true) (hb : (oneOrMore .blank).Matches b) :
    Text.nextToLead (u ++ (w ++ (b ++ rest))) = (Text.trimStart rest).head? := by
  obtain ⟨_, b, rfl, ⟨c, hc, rfl⟩, hb⟩ := hb
  have hbehind := (Text.lead_of_blanks ([c] ++ b ++ rest) hu hw hname fun x hx => by
    cases hx
    exact Text.not_isNamePart_of_isBlank hc).2
  have hblanks : ∀ x ∈ [c] ++ b, Text.isBlank x = true := List.forall_mem_cons.2 ⟨hc, hb⟩
  rw [Text.nextToLead, hbehind, Text.trimStart_append hblanks]

/-- A word with a character behind it that is in no name, and blanks between them or
none. -/
theorem lead_of_word_char {u b rest : Text} {c : Char} (hu : ∀ c ∈ u, Text.isBlank c = true)
    (hw : w ≠ []) (hname : ∀ c ∈ w, Text.isNamePart c = true) (hb : ∀ c ∈ b, Text.isBlank c = true)
    (hc : Text.isNamePart c = false) (hc' : Text.isBlank c = false) :
    Text.leadWord (u ++ (w ++ (b ++ c :: rest))) = w ∧
      Text.nextToLead (u ++ (w ++ (b ++ c :: rest))) = some c := by
  obtain ⟨hlead, hbehind⟩ := Text.lead_of_blanks (b ++ c :: rest) hu hw hname fun x hx => by
    cases b with
    | nil =>
      cases hx
      exact hc
    | cons y b =>
      cases hx
      exact Text.not_isNamePart_of_isBlank (hb x List.mem_cons_self)
  refine ⟨hlead, ?_⟩
  rw [Text.nextToLead, hbehind, Text.trimStart_append hb, Text.trimStart_eq_self rfl hc']
  rfl

/-- A header starts with `void` and a blank. -/
theorem lead_of_header (h : methodHeader.form.Matches line) :
    Text.leadWord line = Keyword.voidWord ∧ Text.BlankBehindLead line := by
  simp only [form, matches_assoc] at h
  obtain ⟨u, _, rfl, hu, w, _, rfl, hw, b, rest, rfl, hb, -⟩ := h
  rw [matches_word] at hw
  subst hw
  exact lead_of_word_blank hu (by decide) (Text.forall_of_all (by decide)) hb

/-- A condition starts with `if` or `while` and a parenthesis behind it. -/
theorem lead_of_condition (h : condition.form.Matches line) :
    (Text.leadWord line = Keyword.ifWord ∨ Text.leadWord line = Keyword.whileWord) ∧
      Text.nextToLead line = some '(' := by
  simp only [form, parenthesized, matches_assoc] at h
  obtain ⟨u, _, rfl, hu, w, _, rfl, hw, b, _, rfl, hb, _, rest, rfl, hpar, -⟩ := h
  obtain ⟨_, _, rfl, ⟨_, _, rfl, hopen, -⟩, -⟩ := hpar
  rw [matches_char] at hopen
  subst hopen
  rw [matches_or, matches_word, matches_word] at hw
  simp only [List.cons_append, List.nil_append]
  have hlead {w : Text} (hw : w ≠ []) (hname : ∀ c ∈ w, Text.isNamePart c = true) (rest : Text) :
      Text.leadWord (u ++ (w ++ (b ++ '(' :: rest))) = w ∧
        Text.nextToLead (u ++ (w ++ (b ++ '(' :: rest))) = some '(' :=
    lead_of_word_char hu hw hname hb (by decide) (by decide)
  rcases hw with rfl | rfl
  · obtain ⟨hword, hnext⟩ := hlead (w := Keyword.ifWord) (by decide) (Text.forall_of_all (by decide)) _
    exact ⟨.inl hword, hnext⟩
  · obtain ⟨hword, hnext⟩ := hlead (w := Keyword.whileWord) (by decide) (Text.forall_of_all (by decide)) _
    exact ⟨.inr hword, hnext⟩

/-- A return is a word with a semicolon behind it. -/
theorem lead_of_return (h : returnStatement.form.Matches line) :
    Text.leadWord line = Keyword.returnWord ∧ Text.nextToLead line = some ';' := by
  simp only [form, matches_assoc] at h
  obtain ⟨u, _, rfl, hu, w, _, rfl, hw, b, _, rfl, hb, _, rest, rfl, hend, -⟩ := h
  rw [matches_word] at hw
  rw [matches_char] at hend
  subst hw hend
  exact lead_of_word_char hu (by decide) (Text.forall_of_all (by decide)) hb (by decide) (by decide)

/-- A call is a word with a parenthesis behind it. -/
theorem lead_of_call (h : call.form.Matches line) : Text.nextToLead line = some '(' := by
  simp only [form, parenthesized, matches_assoc] at h
  obtain ⟨u, _, rfl, hu, w, _, rfl, hw, b, _, rfl, hb, _, rest, rfl, hpar, -⟩ := h
  obtain ⟨_, _, rfl, ⟨_, _, rfl, hopen, -⟩, -⟩ := hpar
  rw [matches_char] at hopen
  subst hopen
  obtain ⟨hne, hname⟩ := isNamePart_of_name hw fun c => isNamePart_of_letter
  simp only [List.cons_append, List.nil_append]
  exact (lead_of_word_char hu hne hname hb (by decide) (by decide)).2

/-- A declaration starts with a word and a blank. -/
theorem lead_of_declaration (h : declaration.form.Matches line) : Text.BlankBehindLead line := by
  simp only [form, matches_assoc] at h
  obtain ⟨u, _, rfl, hu, w, _, rfl, hw, t, _, rfl, ht, b, rest, rfl, hb, -⟩ := h
  rcases matches_optional.1 hw with rfl | ⟨f, b', rfl, hf, hb'⟩
  · rw [List.nil_append]
    simp only [matches_or, matches_word] at ht
    rcases ht with (((rfl | rfl) | rfl) | rfl) | rfl <;>
      exact (lead_of_word_blank hu (by decide) (Text.forall_of_all (by decide)) hb).2
  · rw [matches_word] at hf
    subst hf
    rw [List.append_assoc]
    exact (lead_of_word_blank hu (by decide) (Text.forall_of_all (by decide)) hb').2

end

/-! ## The kind of a line by its lead -/

variable {line : Text}

/-- A line with another ending is not of the kind. -/
theorem not_fits_of_getLast? {kind : Kind} {c : Char} (ht : isTerminated line = true)
    (hk : kind.ending? = some c) (hl : line.getLast? ≠ some c) : kind.fits line = false := by
  rw [Bool.eq_false_iff]
  intro hfits
  have hne : kind ≠ assignment := by
    rintro rfl
    cases hk
  obtain ⟨u, v, rfl, hv⟩ := exists_ending hk ((fits_iff_matches hne).1 hfits)
  exact hl (getLast?_of_blanks_behind ht hv)

theorem not_fits_of_matches {kind : Kind} (hne : kind ≠ assignment)
    (h : ¬kind.form.Matches line) : kind.fits line = false := by
  rw [Bool.eq_false_iff, ne_eq, fits_iff_matches hne]
  exact h

theorem of_eq_header (ht : isTerminated line = true) (h : methodHeader.fits line = true) :
    of line = .ok methodHeader := by
  rw [of_eq_ok_iff]
  exact ⟨ht, fun _ => h, by simp [all, h]⟩

theorem lead_of_startsVoid (h : startsVoid line = true) :
    Text.leadWord line = Keyword.voidWord ∧ Text.BlankBehindLead line :=
  Text.lead_of_afterWord? (by decide) (Text.forall_of_all (by decide)) h

/-- A line that does not start with `void` and a blank is no header, and is not taken
for one. -/
theorem of_eq_ok_of_not_void {kind : Kind} (ht : isTerminated line = true)
    (hvoid : ¬(Text.leadWord line = Keyword.voidWord ∧ Text.BlankBehindLead line))
    (hfind : others.find? (·.fits line) = some kind) : of line = .ok kind := by
  have hheader : methodHeader.fits line = false :=
    not_fits_of_matches (by decide) fun h => hvoid (lead_of_header h)
  rw [of_eq_ok_iff]
  refine ⟨ht, fun h => absurd (lead_of_startsVoid h) hvoid, ?_⟩
  rw [all, List.find?_cons_of_neg (by simp [hheader])]
  exact hfind

theorem of_eq_condition (ht : isTerminated line = true) (h : condition.fits line = true) :
    of line = .ok condition := by
  refine of_eq_ok_of_not_void ht ?_ (by simp [others, h])
  rintro ⟨hvoid, -⟩
  rcases (lead_of_condition ((fits_iff_matches (by decide)).1 h)).1 with hw | hw <;>
  · rw [hvoid] at hw
    exact absurd hw (by decide)

variable (ht : line.getLast? = some ';')
include ht

theorem isTerminated_of_semicolon : isTerminated line = true := by
  simp [isTerminated, ht]

theorem not_condition_of_semicolon : condition.fits line = false :=
  not_fits_of_getLast? (isTerminated_of_semicolon ht) rfl (by simp [ht])

/-- A call that does not start as a header does. -/
theorem of_eq_call (h : call.fits line = true)
    (hvoid : ¬(Text.leadWord line = Keyword.voidWord ∧ Text.BlankBehindLead line)) :
    of line = .ok call := by
  have hreturn : returnStatement.fits line = false := by
    refine not_fits_of_matches (by decide) fun hm => ?_
    have hnext := lead_of_call ((fits_iff_matches (by decide)).1 h)
    rw [(lead_of_return hm).2] at hnext
    exact absurd hnext (by decide)
  refine of_eq_ok_of_not_void (isTerminated_of_semicolon ht) hvoid ?_
  simp [others, not_condition_of_semicolon ht, hreturn, h]

/-- A declaration, told by what follows its first word. -/
theorem of_eq_declaration (h : declaration.fits line = true)
    (hword : Text.leadWord line ≠ Keyword.voidWord) (hopen : Text.nextToLead line ≠ some '(')
    (hend : Text.nextToLead line ≠ some ';') : of line = .ok declaration := by
  have hreturn : returnStatement.fits line = false :=
    not_fits_of_matches (by decide) (fun hm => hend (lead_of_return hm).2)
  have hcall : call.fits line = false := not_fits_of_matches (by decide) (hopen ∘ lead_of_call)
  refine of_eq_ok_of_not_void (isTerminated_of_semicolon ht) (fun hv => hword hv.1) ?_
  simp [others, not_condition_of_semicolon ht, hreturn, hcall, h]

/-- An assignment with no blank behind its first target. -/
theorem of_eq_assignment (h : assignment.fits line = true) (hbehind : ¬Text.BlankBehindLead line)
    (hnext : Text.nextToLead line = some '=') : of line = .ok assignment := by
  have hreturn : returnStatement.fits line = false := by
    refine not_fits_of_matches (by decide) fun hm => ?_
    rw [(lead_of_return hm).2] at hnext
    exact absurd hnext (by decide)
  have hcall : call.fits line = false := by
    refine not_fits_of_matches (by decide) fun hm => ?_
    rw [lead_of_call hm] at hnext
    exact absurd hnext (by decide)
  have hdeclaration : declaration.fits line = false :=
    not_fits_of_matches (by decide) (hbehind ∘ lead_of_declaration)
  refine of_eq_ok_of_not_void (isTerminated_of_semicolon ht) (fun hv => hbehind hv.2) ?_
  simp [others, not_condition_of_semicolon ht, hreturn, hcall, hdeclaration, h]

end Kind

end SJava
