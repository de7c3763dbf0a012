import SJava.Name
import SJava.Ty
import SJava.Proofs.Leads

/-!
# Literals

What the literals of each type look like, and what keeps them apart from names.

* `Pattern.Matches.exists_set`: a text is made of the characters its pattern names;
* `Ty.Widens.holds`: a literal stays valid when its type widens;
* `Ty.holds_char_iff`, `Ty.holds_string_iff`, `Ty.holds_boolean_iff`, `Ty.mem_number`:
  literals by type;
* `Ty.isTrimmed_of_holds`, `Ty.isNameLike_of_holds`: no literal has blanks around it, and
  none is read as a name;
* `Ty.widens_iff_literals`: widening is inclusion of the literals.
-/

namespace SJava

/-- No name starts with a digit. -/
theorem CharSet.not_nameStart_of_digit {c : Char} (h : digit.contains c = true) :
    (letter ∪ .char '_').contains c = false := by
  have le (a b : Char) (hab : a ≤ b) : a.toNat ≤ b.toNat := hab
  simp only [digit, contains, Bool.and_eq_true, decide_eq_true_eq] at h
  have hlast := le _ _ h.2
  rw [Bool.eq_false_iff]
  intro hc
  simp only [letter, Union.union, contains, Bool.or_eq_true, Bool.and_eq_true, decide_eq_true_eq,
    beq_iff_eq] at hc
  rcases hc with (⟨hfirst, -⟩ | ⟨hfirst, -⟩) | rfl
  · exact absurd ((le _ _ hfirst).trans hlast) (by decide)
  · exact absurd ((le _ _ hfirst).trans hlast) (by decide)
  · exact absurd hlast (by decide)

namespace Pattern

/-- The sets of characters that a pattern is made of. -/
def sets : Pattern → List CharSet
  | empty => []
  | one k | many k => [k]
  | seq p q | alt p q => p.sets ++ q.sets

/-- A text is made of the characters its pattern names. -/
theorem Matches.exists_set {p : Pattern} {s : Text} (h : p.Matches s) {c : Char} (hc : c ∈ s) :
    ∃ k ∈ p.sets, k.contains c = true := by
  induction p generalizing s with
  | empty =>
    rw [matches_empty.1 h] at hc
    cases hc
  | one k =>
    obtain ⟨d, hd, rfl⟩ := h
    obtain rfl := List.mem_singleton.1 hc
    exact ⟨k, List.mem_singleton_self k, hd⟩
  | many k => exact ⟨k, List.mem_singleton_self k, h c hc⟩
  | seq p q ihp ihq =>
    obtain ⟨u, v, rfl, hu, hv⟩ := h
    rcases List.mem_append.1 hc with hc | hc
    · obtain ⟨k, hk, hkc⟩ := ihp hu hc
      exact ⟨k, List.mem_append_left _ hk, hkc⟩
    · obtain ⟨k, hk, hkc⟩ := ihq hv hc
      exact ⟨k, List.mem_append_right _ hk, hkc⟩
  | alt p q ihp ihq =>
    rcases h with h | h
    · obtain ⟨k, hk, hkc⟩ := ihp h hc
      exact ⟨k, List.mem_append_left _ hk, hkc⟩
    · obtain ⟨k, hk, hkc⟩ := ihq h hc
      exact ⟨k, List.mem_append_right _ hk, hkc⟩

/-- A pattern between two characters. -/
theorem matches_between {p : Pattern} {a b : Char} {s : Text} :
    (char a ++ p ++ char b).Matches s ↔ ∃ t, s = a :: (t ++ [b]) ∧ p.Matches t := by
  constructor
  · rintro ⟨_, _, rfl, ⟨_, t, rfl, ha, ht⟩, hb⟩
    rw [matches_char.1 ha, matches_char.1 hb]
    exact ⟨t, rfl, ht⟩
  · rintro ⟨t, rfl, ht⟩
    exact ⟨a :: t, [b], rfl, ⟨[a], t, rfl, matches_char.2 rfl, ht⟩, matches_char.2 rfl⟩

end Pattern

/-! ## Names -/

namespace Name

open Pattern

variable {name : Text}

/-- The name of a variable is a word. -/
theorem matches_word_of_check (h : checkVariable name = .ok ()) : wordPattern.Matches name := by
  obtain ⟨-, hpattern⟩ := check_eq_ok_iff.1 h
  rcases hpattern with ⟨u, v, rfl, ⟨c, hc, rfl⟩, hv⟩ | ⟨u, v, rfl, ⟨x, y, rfl, hx, c, hc, rfl⟩, hv⟩
  · exact ⟨[c], v, rfl, ⟨c, Bool.or_eq_true_iff.2 (.inl hc), rfl⟩, hv⟩
  · obtain rfl := matches_char.1 hx
    have hc' : CharSet.namePart.contains c = true := Bool.or_eq_true_iff.2 (.inl hc)
    exact ⟨['_'], c :: v, rfl, ⟨'_', by decide, rfl⟩, List.forall_mem_cons.2 ⟨hc', hv⟩⟩

/-- The name of a variable is read as one. -/
theorem isNameLike_of_check (h : checkVariable name = .ok ()) : isNameLike name = true := by
  obtain ⟨hreserved, -⟩ := check_eq_ok_iff.1 h
  have htrue : name ≠ Keyword.trueWord := by
    rintro rfl
    exact hreserved (by decide)
  have hfalse : name ≠ Keyword.falseWord := by
    rintro rfl
    exact hreserved (by decide)
  simp [isNameLike, accepts_iff.2 (matches_word_of_check h), htrue, hfalse]

end Name

/-! ## Literals -/

namespace Ty

open Pattern

variable {ty : Ty} {v : Text}

theorem holds_iff : ty.holds v = true ↔ ty.literal.Matches v := accepts_iff

theorem ne_nil_of_holds (h : ty.holds v = true) : v ≠ [] := by
  rintro rfl
  rw [holds_iff, ← nullable_iff] at h
  cases ty <;> exact absurd h (by decide)

theorem checkValue_of_holds (h : ty.holds v = true) : ty.checkValue v = .ok () := by
  rw [checkValue, if_pos h]

/-! ## Widening -/

theorem holds_double_of_int (h : int.holds v = true) : double.holds v = true := by
  obtain ⟨sign, digits, rfl, hsign, hdigits⟩ := holds_iff.1 h
  exact holds_iff.2 ⟨sign, digits, rfl, hsign, .inl (.inl (.inl hdigits))⟩

theorem holds_boolean_of_double (h : double.holds v = true) : boolean.holds v = true :=
  holds_iff.2 (.inr (holds_iff.1 h))

/-- A literal stays valid when its type widens. -/
theorem Widens.holds {source target : Ty} (h : Widens source target) (hv : source.holds v = true) :
    target.holds v = true := by
  cases source <;> cases target <;> first
    | exact hv
    | exact absurd h (by decide)
    | exact holds_double_of_int hv
    | exact holds_boolean_of_double hv
    | exact holds_boolean_of_double (holds_double_of_int hv)

/-! ## Shapes -/

theorem holds_boolean_iff :
    boolean.holds v = true ↔ v = Keyword.trueWord ∨ v = Keyword.falseWord ∨ double.holds v = true := by
  rw [holds_iff, holds_iff]
  show (Pattern.word _ ||| Pattern.word _ ||| _).Matches v ↔ _
  rw [matches_or, matches_or, matches_word, matches_word, or_assoc]
  rfl

theorem holds_char_iff : char.holds v = true ↔ ∃ c, c ≠ '\n' ∧ v = ['\'', c, '\''] := by
  rw [holds_iff]
  refine matches_between.trans ⟨?_, ?_⟩
  · rintro ⟨_, rfl, c, hc, rfl⟩
    exact ⟨c, by simpa [CharSet.notNewline, CharSet.contains] using hc, rfl⟩
  · rintro ⟨c, hc, rfl⟩
    exact ⟨[c], rfl, c, by simpa [CharSet.notNewline, CharSet.contains] using hc, rfl⟩

theorem holds_string_iff : string.holds v = true ↔
    ∃ s : Text, v = '"' :: (s ++ ['"']) ∧ ∀ c ∈ s, c ≠ ',' ∧ c ≠ '\'' ∧ c ≠ '"' ∧ c ≠ '\\' := by
  rw [holds_iff]
  refine matches_between.trans (exists_congr fun s => and_congr_right fun _ => ?_)
  refine forall₂_congr fun c _ => ?_
  show (!(((c == ',') || (c == '\'')) || (c == '"') || (c == '\\'))) = true ↔ _
  simp [and_assoc]

/-- What numbers are made of. -/
theorem mem_number (h : double.holds v = true) {c : Char} (hc : c ∈ v) :
    CharSet.digit.contains c = true ∨ c = '.' ∨ c = '+' ∨ c = '-' := by
  obtain ⟨k, hk, hkc⟩ := (holds_iff.1 h).exists_set hc
  have sets : ∀ k ∈ double.literal.sets,
      k = (.char '+' ∪ .char '-') ∨ k = .digit ∨ k = .char '.' := by decide
  rcases sets k hk with rfl | rfl | rfl
  · rcases (Bool.or_eq_true _ _).mp hkc with hkc | hkc
    · exact .inr (.inr (.inl (eq_of_beq hkc)))
    · exact .inr (.inr (.inr (eq_of_beq hkc)))
  · exact .inl hkc
  · exact .inr (.inl (eq_of_beq hkc))

/-- A literal is a number, a truth value or a quotation. -/
theorem holds_cases (h : ty.holds v = true) :
    double.holds v = true ∨ v = Keyword.trueWord ∨ v = Keyword.falseWord ∨
      ∃ (q : Char) (s : Text), (q = '\'' ∨ q = '"') ∧ v = q :: (s ++ [q]) := by
  cases ty with
  | int => exact .inl (holds_double_of_int h)
  | double => exact .inl h
  | boolean =>
    rcases holds_boolean_iff.1 h with h | h | h
    · exact .inr (.inl h)
    · exact .inr (.inr (.inl h))
    · exact .inl h
  | char =>
    obtain ⟨c, -, rfl⟩ := holds_char_iff.1 h
    exact .inr (.inr (.inr ⟨'\'', [c], .inl rfl, rfl⟩))
  | string =>
    obtain ⟨s, rfl, -⟩ := holds_string_iff.1 h
    exact .inr (.inr (.inr ⟨'"', s, .inr rfl, rfl⟩))

theorem isBlank_of_mem_number (h : double.holds v = true) {c : Char} (hc : c ∈ v) :
    Text.isBlank c = false := by
  rcases mem_number h hc with hd | rfl | rfl | rfl
  · exact CharSet.isBlank_of_namePart (by simp [CharSet.namePart, CharSet.contains, Union.union, hd])
  all_goals decide

/-- No literal has blanks around it. -/
theorem isTrimmed_of_holds (h : ty.holds v = true) : Text.IsTrimmed v := by
  rcases holds_cases h with hn | rfl | rfl | ⟨q, s, hq, rfl⟩
  · exact .of_forall (ne_nil_of_holds hn) fun c => isBlank_of_mem_number hn
  · exact .of_forall (by decide) (Text.forall_of_all (by decide))
  · exact .of_forall (by decide) (Text.forall_of_all (by decide))
  · have hblank : Text.isBlank q = false := by rcases hq with rfl | rfl <;> decide
    exact ⟨⟨q, rfl, hblank⟩, q, List.getLast?_concat (l := q :: s), hblank⟩

/-- No literal can be read as a variable. -/
theorem isNameLike_of_holds (h : ty.holds v = true) : Name.isNameLike v = false := by
  rw [Bool.eq_false_iff]
  intro hname
  simp only [Name.isNameLike, Bool.and_eq_true, bne_iff_ne, accepts_iff] at hname
  obtain ⟨⟨⟨_, rest, rfl, ⟨c, hc, rfl⟩, -⟩, htrue⟩, hfalse⟩ := hname
  rcases holds_cases h with hn | hv | hv | ⟨q, s, hq, hv⟩
  · rcases mem_number hn (c := c) (by simp) with hd | rfl | rfl | rfl
    · rw [CharSet.not_nameStart_of_digit hd] at hc
      cases hc
    all_goals exact absurd hc (by decide)
  · exact htrue hv
  · exact hfalse hv
  · obtain rfl := (List.cons_eq_cons.1 hv).1
    rcases hq with rfl | rfl <;> exact absurd hc (by decide)

/-! ## Widening is inclusion -/

/-- A literal that no type can hold but those its own type widens to. -/
def specimen : Ty → Text
  | int => ['0']
  | double => ['0', '.']
  | boolean => Keyword.trueWord
  | char => ['\'', '0', '\'']
  | string => ['"', '"']

theorem holds_specimen (ty : Ty) : ty.holds ty.specimen = true := by
  cases ty <;> decide

theorem widens_of_holds_specimen {source target : Ty} (h : target.holds source.specimen = true) :
    Widens source target := by
  revert h
  cases source <;> cases target <;> decide

/-- No truth value holds a quote. -/
theorem quote_not_mem_of_boolean (h : boolean.holds v = true) : '\'' ∉ v ∧ '"' ∉ v := by
  rcases holds_boolean_iff.1 h with rfl | rfl | hn
  · decide
  · decide
  · exact ⟨fun hc => absurd (mem_number hn hc) (by decide), fun hc => absurd (mem_number hn hc) (by decide)⟩

/-- A type widens to another exactly when all its literals are literals of the other, and no
text is a literal of two among `boolean`, `char` and `String`. -/
theorem widens_iff_literals :
    (∀ source target, Widens source target ↔ ∀ v, source.holds v = true → target.holds v = true) ∧
      ∀ v, [boolean, char, string].Pairwise fun s t => ¬(s.holds v = true ∧ t.holds v = true) := by
  refine ⟨fun source target => ⟨fun h v => h.holds, fun h => ?_⟩, fun v => ?_⟩
  · exact widens_of_holds_specimen (h source.specimen source.holds_specimen)
  · have hchar : ¬(boolean.holds v = true ∧ char.holds v = true) := by
      rintro ⟨hb, hc⟩
      obtain ⟨c, -, rfl⟩ := holds_char_iff.1 hc
      exact (quote_not_mem_of_boolean hb).1 List.mem_cons_self
    have hstring : ¬(boolean.holds v = true ∧ string.holds v = true) := by
      rintro ⟨hb, hs⟩
      obtain ⟨s, rfl, -⟩ := holds_string_iff.1 hs
      exact (quote_not_mem_of_boolean hb).2 List.mem_cons_self
    have hquotes : ¬(char.holds v = true ∧ string.holds v = true) := by
      rintro ⟨hc, hs⟩
      obtain ⟨c, -, rfl⟩ := holds_char_iff.1 hc
      obtain ⟨s, h, -⟩ := holds_string_iff.1 hs
      exact absurd (List.cons_eq_cons.1 h).1 (by decide)
    exact .cons (List.forall_mem_cons.2 ⟨hchar, List.forall_mem_singleton.2 hstring⟩)
      (List.pairwise_pair.2 hquotes)

end Ty

end SJava
