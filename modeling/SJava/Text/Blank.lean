/-!
# Texts and blanks

A text is a list of characters. Blanks are the characters with the Unicode
property White_Space; they separate words and are trimmed off both ends.

* `isBlank_of_isWhitespace`: ASCII white space is blank;
* `trim_eq_nil_iff`: a text trims to nothing exactly when it is all blank.
-/

namespace SJava

/-- A sequence of Unicode scalar values. -/
abbrev Text := List Char

namespace Text

/-- A blank is a character with the Unicode property White_Space. -/
def isBlank (c : Char) : Bool :=
  let n := c.toNat
  (0x9 ≤ n && n ≤ 0xD) || n == 0x20 || n == 0x85 || n == 0xA0 || n == 0x1680 ||
    (0x2000 ≤ n && n ≤ 0x200A) || n == 0x2028 || n == 0x2029 || n == 0x202F || n == 0x205F ||
    n == 0x3000

theorem isBlank_of_isWhitespace {c : Char} (h : c.isWhitespace = true) : isBlank c = true := by
  simp only [Char.isWhitespace, Bool.or_eq_true, decide_eq_true_eq] at h
  rcases h with ((rfl | rfl) | rfl) | rfl <;> decide

/-- Drops the longest ending whose characters all satisfy `p`. -/
def dropEndWhile (p : Char → Bool) (s : Text) : Text := (s.reverse.dropWhile p).reverse

/-- Removes the blanks in front. -/
def trimStart (s : Text) : Text := s.dropWhile isBlank

/-- Removes the blanks at the end. -/
def trimEnd (s : Text) : Text := dropEndWhile isBlank s

/-- Removes the blanks at both ends. -/
def trim (s : Text) : Text := trimEnd (trimStart s)

/-- The maximal runs of characters that are not blank, from left to right. -/
def words (s : Text) : List Text := (s.splitOnP isBlank).filter (!·.isEmpty)

theorem dropWhile_eq_nil_iff {p : Char → Bool} {s : Text} :
    s.dropWhile p = [] ↔ ∀ c ∈ s, p c = true := by
  induction s with
  | nil => simp
  | cons c s ih => by_cases h : p c = true <;> simp [h, ih]

theorem dropEndWhile_eq_nil_iff {p : Char → Bool} {s : Text} :
    dropEndWhile p s = [] ↔ ∀ c ∈ s, p c = true := by
  simp only [dropEndWhile, List.reverse_eq_nil_iff, dropWhile_eq_nil_iff, List.mem_reverse]

/-- A text trims to nothing exactly when it holds blanks only. -/
theorem trim_eq_nil_iff {s : Text} : trim s = [] ↔ ∀ c ∈ s, isBlank c = true := by
  simp only [trim, trimEnd, trimStart, dropEndWhile_eq_nil_iff]
  induction s with
  | nil => simp
  | cons c s ih => by_cases h : isBlank c = true <;> simp [h, ih]

end Text

end SJava
