import SJava.Text.Blank

/-!
# Patterns

A pattern describes a set of texts, `Matches`. `accepts` decides it in one walk
over the text, keeping the list of patterns that the rest of the text may still
match (`after`).

* `accepts_iff`: `accepts` decides `Matches`;
* `matches_word`, `matches_oneOrMore`, `matches_optional`: the derived forms.
-/

namespace SJava

/-- A set of characters. -/
inductive CharSet where
  | char (c : Char)
  | range (first last : Char)
  | blank
  | union (k l : CharSet)
  | compl (k : CharSet)
  deriving DecidableEq

namespace CharSet

instance : Union CharSet := ⟨union⟩

/-- Whether the character is in the set. -/
def contains : CharSet → Char → Bool
  | char x, c => c == x
  | range first last, c => first ≤ c && c ≤ last
  | blank, c => Text.isBlank c
  | union k l, c => k.contains c || l.contains c
  | compl k, c => !k.contains c

/-- The ASCII digits. -/
def digit : CharSet := range '0' '9'

/-- The ASCII letters. -/
def letter : CharSet := range 'A' 'Z' ∪ range 'a' 'z'

/-- The characters a name may go on with. -/
def namePart : CharSet := letter ∪ digit ∪ char '_'

/-- The characters that can stand on one line. -/
def notNewline : CharSet := compl (char '\n')

end CharSet

/-- A regular expression in which only sets of characters are repeated. -/
inductive Pattern where
  | empty
  | one (k : CharSet)
  | many (k : CharSet)
  | seq (p q : Pattern)
  | alt (p q : Pattern)
  deriving DecidableEq

namespace Pattern

instance : Append Pattern := ⟨seq⟩
instance : OrOp Pattern := ⟨alt⟩

/-- The texts a pattern describes. -/
def Matches : Pattern → Text → Prop
  | empty, s => s = []
  | one k, s => ∃ c, k.contains c = true ∧ s = [c]
  | many k, s => ∀ c ∈ s, k.contains c = true
  | seq p q, s => ∃ u v, s = u ++ v ∧ p.Matches u ∧ q.Matches v
  | alt p q, s => p.Matches s ∨ q.Matches s

/-- One or more characters of `k`. -/
def oneOrMore (k : CharSet) : Pattern := one k ++ many k

/-- A text that `p` describes, or nothing. -/
def optional (p : Pattern) : Pattern := empty ||| p

/-- Exactly the character `c`. -/
def char (c : Char) : Pattern := one (.char c)

/-- Exactly the text `w`. -/
def word (w : Text) : Pattern := w.foldr (fun c p => char c ++ p) empty

/-- Any number of blanks. -/
def blanks : Pattern := many .blank

/-- Whether the empty text matches. -/
def nullable : Pattern → Bool
  | empty => true
  | one _ => false
  | many _ => true
  | seq p q => p.nullable && q.nullable
  | alt p q => p.nullable || q.nullable

/-- The patterns of which the rest of a text that starts with `c` must match
one. -/
def after (c : Char) : Pattern → List Pattern
  | empty => []
  | one k => if k.contains c then [empty] else []
  | many k => if k.contains c then [many k] else []
  | seq p q => (p.after c).map (· ++ q) ++ if p.nullable then q.after c else []
  | alt p q => p.after c ++ q.after c

/-- Whether the text matches one of the patterns `ps`. -/
def acceptsOne (ps : List Pattern) : Text → Bool
  | [] => ps.any nullable
  | c :: s => acceptsOne (ps.flatMap (after c)).eraseDups s

/-- Whether the text matches. -/
def accepts (p : Pattern) (s : Text) : Bool := acceptsOne [p] s

@[simp] theorem matches_empty {s : Text} : empty.Matches s ↔ s = [] := Iff.rfl

@[simp] theorem matches_one {k : CharSet} {s : Text} :
    (one k).Matches s ↔ ∃ c, k.contains c = true ∧ s = [c] := Iff.rfl

@[simp] theorem matches_many {k : CharSet} {s : Text} :
    (many k).Matches s ↔ ∀ c ∈ s, k.contains c = true := Iff.rfl

@[simp] theorem matches_append {p q : Pattern} {s : Text} :
    (p ++ q).Matches s ↔ ∃ u v, s = u ++ v ∧ p.Matches u ∧ q.Matches v := Iff.rfl

@[simp] theorem matches_or {p q : Pattern} {s : Text} :
    (p ||| q).Matches s ↔ p.Matches s ∨ q.Matches s := Iff.rfl

@[simp] theorem matches_char {c : Char} {s : Text} : (char c).Matches s ↔ s = [c] := by
  simp [char, CharSet.contains]

theorem matches_oneOrMore {k : CharSet} {s : Text} :
    (oneOrMore k).Matches s ↔ s ≠ [] ∧ ∀ c ∈ s, k.contains c = true := by
  constructor
  · rintro ⟨_, v, rfl, ⟨c, hc, rfl⟩, hv⟩
    exact ⟨by simp, by simpa [hc] using hv⟩
  · rintro ⟨hs, h⟩
    cases s with
    | nil => exact absurd rfl hs
    | cons c s => exact ⟨[c], s, rfl, ⟨c, h c (by simp), rfl⟩, fun d hd => h d (by simp [hd])⟩

theorem matches_optional {p : Pattern} {s : Text} :
    p.optional.Matches s ↔ s = [] ∨ p.Matches s := by simp [optional]

theorem matches_word {w s : Text} : (word w).Matches s ↔ s = w := by
  induction w generalizing s with
  | nil => simp [word]
  | cons c w ih =>
    have : word (c :: w) = char c ++ word w := rfl
    simp [this, ih]

theorem nullable_iff {p : Pattern} : p.nullable = true ↔ p.Matches [] := by
  induction p with
  | seq p q ihp ihq =>
    simp only [nullable, Bool.and_eq_true, ihp, ihq, Matches]
    constructor
    · rintro ⟨hp, hq⟩
      exact ⟨[], [], rfl, hp, hq⟩
    · rintro ⟨u, v, h, hp, hq⟩
      obtain ⟨rfl, rfl⟩ := List.append_eq_nil_iff.1 h.symm
      exact ⟨hp, hq⟩
  | alt p q ihp ihq => simp [nullable, Matches, ihp, ihq]
  | _ => simp [nullable, Matches]

theorem matches_cons_iff {p : Pattern} {c : Char} {s : Text} :
    p.Matches (c :: s) ↔ ∃ q ∈ p.after c, q.Matches s := by
  induction p generalizing s with
  | empty => simp [after, Matches]
  | one k =>
    constructor
    · rintro ⟨d, hd, h⟩
      obtain ⟨rfl, rfl⟩ := List.cons_eq_cons.1 h
      exact ⟨empty, by simp [after, hd], rfl⟩
    · rintro ⟨q, hq, hs⟩
      by_cases h : k.contains c = true
      · simp only [after, h, if_true, List.mem_singleton] at hq
        subst hq
        exact ⟨c, h, by rw [matches_empty.1 hs]⟩
      · simp [after, h] at hq
  | many k => by_cases h : k.contains c <;> simp [after, Matches, h]
  | alt p q ihp ihq =>
    simp only [Matches, ihp, ihq, after, List.mem_append, or_and_right, exists_or]
  | seq p q ihp ihq =>
    have split : (∃ u v, c :: s = u ++ v ∧ p.Matches u ∧ q.Matches v) ↔
        (p.Matches [] ∧ q.Matches (c :: s)) ∨
          ∃ u v, s = u ++ v ∧ p.Matches (c :: u) ∧ q.Matches v := by
      constructor
      · rintro ⟨u, v, h, hp, hq⟩
        cases u with
        | nil => exact .inl ⟨hp, by simpa [h] using hq⟩
        | cons x u => simp at h; exact .inr ⟨u, v, h.2, h.1 ▸ hp, hq⟩
      · rintro (⟨hp, hq⟩ | ⟨u, v, rfl, hp, hq⟩)
        · exact ⟨[], _, rfl, hp, hq⟩
        · exact ⟨c :: u, v, rfl, hp, hq⟩
    show (∃ u v, c :: s = u ++ v ∧ p.Matches u ∧ q.Matches v) ↔ _
    have rest : (∃ r ∈ (p.after c).map (· ++ q), r.Matches s) ↔
        ∃ u v, s = u ++ v ∧ p.Matches (c :: u) ∧ q.Matches v := by
      simp only [List.mem_map, ihp]
      constructor
      · rintro ⟨_, ⟨r, hr, rfl⟩, u, v, hs, hu, hv⟩
        exact ⟨u, v, hs, ⟨r, hr, hu⟩, hv⟩
      · rintro ⟨u, v, hs, ⟨r, hr, hu⟩, hv⟩
        exact ⟨_, ⟨r, hr, rfl⟩, u, v, hs, hu, hv⟩
    rw [split, ← rest, ← nullable_iff, ihq]
    simp only [after, List.mem_append, or_and_right, exists_or]
    cases p.nullable <;> simp [or_comm]

theorem acceptsOne_iff {ps : List Pattern} {s : Text} :
    acceptsOne ps s = true ↔ ∃ p ∈ ps, p.Matches s := by
  induction s generalizing ps with
  | nil => simp [acceptsOne, nullable_iff]
  | cons c s ih =>
    simp only [acceptsOne, ih, List.mem_eraseDups, List.mem_flatMap, matches_cons_iff]
    constructor
    · rintro ⟨q, ⟨p, hp, hq⟩, hs⟩
      exact ⟨p, hp, q, hq, hs⟩
    · rintro ⟨p, hp, q, hq, hs⟩
      exact ⟨q, ⟨p, hp, hq⟩, hs⟩

/-- Walking over the text decides whether it matches. -/
theorem accepts_iff {p : Pattern} {s : Text} : p.accepts s = true ↔ p.Matches s := by
  simp [accepts, acceptsOne_iff]

end Pattern

end SJava
