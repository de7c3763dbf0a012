import SJava.Proofs.Faults
import SJava.Proofs.Structured.Extraction

/-!
# Kinds of lines, and what they are taken apart into

The kind of a line is told by its form, but the line is taken apart at its parentheses,
commas and blanks. The two agree: a line of a kind can be taken apart, or is refused for
the one reason that its kind leaves open, and the parts have the form that the kind
promises.

* `Text.mem_splitOnP_iff`: where the pieces of a text stand in it;
* `Header.ofLine_eq`, `Declaration.ofLine_eq`: a header and a declaration taken apart;
* `Text.takenApart`: all kinds.
-/

namespace SJava

/-! ## Pieces, words and trimmed texts -/

namespace Text

/-- The pieces of a text are the parts without a separator that stand between separators
or its ends. -/
theorem mem_splitOnP_iff {p : Char → Bool} {s piece : Text} :
    piece ∈ s.splitOnP p ↔ (∀ c ∈ piece, p c = false) ∧ ∃ front back, s = front ++ piece ++ back ∧
      (∀ c, front.getLast? = some c → p c = true) ∧ ∀ c, back.head? = some c → p c = true := by
  constructor
  · -- along the text, from one separator to the next
    induction hn : s.length using Nat.strong_induction_on generalizing s with
    | _ n ih =>
      intro h
      have hs : s = s.takeWhile (!p ·) ++ s.dropWhile (!p ·) := List.takeWhile_append_dropWhile.symm
      have hword : ∀ c ∈ s.takeWhile (!p ·), p c = false := fun c hc => by
        simpa using List.mem_takeWhile_imp hc
      cases hrest : s.dropWhile (!p ·) with
      | nil =>
        rw [hrest, List.append_nil] at hs
        rw [← hs] at hword
        rw [List.splitOnP_eq_singleton hword, List.mem_singleton] at h
        exact ⟨h ▸ hword, [], [], by simp [h], by simp, by simp⟩
      | cons sep rest =>
        have hsep : p sep = true := by
          have := List.head?_dropWhile_not (!p ·) s
          simpa [hrest] using this
        rw [hrest] at hs
        rw [hs, List.splitOnP_append_cons_of_forall_mem hword sep hsep, List.mem_cons] at h
        rcases h with rfl | h
        · exact ⟨hword, [], sep :: rest, by rw [List.nil_append]; exact hs, by simp, by simpa using hsep⟩
        · have hlt : rest.length < n := by
            rw [← hn, hs]
            simp
            omega
          obtain ⟨hpiece, front, back, rfl, hfront, hback⟩ := ih _ hlt rfl h
          refine ⟨hpiece, s.takeWhile (!p ·) ++ sep :: front, back, by simpa using hs, ?_, hback⟩
          intro c hc
          cases front with
          | nil =>
            rw [List.getLast?_concat] at hc
            cases hc
            exact hsep
          | cons x front =>
            refine hfront c ?_
            simpa [List.getLast?_append, List.getLast?_cons] using hc
  · rintro ⟨hpiece, front, back, rfl, hfront, hback⟩
    have hmid : piece ∈ (piece ++ back).splitOnP p := by
      cases back with
      | nil => simp [List.splitOnP_eq_singleton hpiece]
      | cons y back => simp [List.splitOnP_append_cons_of_forall_mem hpiece y (hback y rfl)]
    rcases List.eq_nil_or_concat' front with rfl | ⟨front, x, rfl⟩
    · exact hmid
    · rw [List.append_assoc, List.append_assoc, List.singleton_append,
        List.splitOnP_append_cons _ _ (hfront x List.getLast?_concat)]
      exact List.mem_append_right _ hmid

theorem not_mem_of_mem_splitOn {c : Char} {s piece : Text} (h : piece ∈ s.splitOn c) : c ∉ piece := by
  intro hc
  have := (mem_splitOnP_iff.1 h).1 c hc
  simp at this

/-- What the words of a text are made of. -/
theorem mem_words {s w : Text} (h : w ∈ words s) :
    w ≠ [] ∧ ∀ c ∈ w, c ∈ s ∧ isBlank c = false := by
  rw [words, List.mem_filter] at h
  obtain ⟨hmem, hne⟩ := h
  obtain ⟨hw, front, back, rfl, -, -⟩ := mem_splitOnP_iff.1 hmem
  exact ⟨by simpa using hne, fun c hc => ⟨by simp [hc], hw c hc⟩⟩

/-- Trimming leaves out blanks at both ends. -/
theorem exists_trim (s : Text) : ∃ u v, s = u ++ trim s ++ v ∧ (∀ c ∈ u, isBlank c = true) ∧
    ∀ c ∈ v, isBlank c = true := by
  refine ⟨s.takeWhile isBlank, ((trimStart s).reverse.takeWhile isBlank).reverse, ?_,
    fun c hc => List.mem_takeWhile_imp hc,
    fun c hc => List.mem_takeWhile_imp (List.mem_reverse.1 hc)⟩
  rw [trim, trimEnd, dropEndWhile, List.append_assoc, ← List.reverse_append,
    List.takeWhile_append_dropWhile, List.reverse_reverse, trimStart, List.takeWhile_append_dropWhile]

theorem mem_of_mem_trim {s : Text} {c : Char} (h : c ∈ trim s) : c ∈ s := by
  obtain ⟨u, v, hs, -, -⟩ := exists_trim s
  rw [hs]
  simp [h]

/-- What trimming leaves starts and ends with no blank. -/
theorem isTrimmed_trim {s : Text} (h : trim s ≠ []) : IsTrimmed (trim s) where
  head := by
    obtain ⟨c, t, ht⟩ := List.exists_cons_of_ne_nil h
    refine ⟨c, by rw [ht]; rfl, ?_⟩
    have hstart : (trimStart s).head? = some c := by
      have hs : trimStart s = trim s ++ ((trimStart s).reverse.takeWhile isBlank).reverse := by
        rw [trim, trimEnd, dropEndWhile, ← List.reverse_append, List.takeWhile_append_dropWhile,
          List.reverse_reverse]
      rw [hs, ht]
      rfl
    have := List.head?_dropWhile_not isBlank s
    rw [trimStart] at hstart
    simpa [hstart] using this
  last := by
    have hne : (trimStart s).reverse.dropWhile isBlank ≠ [] := by
      intro hnil
      simp [trim, trimEnd, dropEndWhile, hnil] at h
    obtain ⟨c, t, ht⟩ := List.exists_cons_of_ne_nil hne
    refine ⟨c, by simp [trim, trimEnd, dropEndWhile, ht], ?_⟩
    have := List.head?_dropWhile_not isBlank (trimStart s).reverse
    simpa [ht] using this

/-- What trimming leaves of blanks in front of a text that needs none. -/
theorem trim_append {u s : Text} (hu : ∀ c ∈ u, isBlank c = true) (hs : IsTrimmed s) :
    trim (u ++ s) = s ∧ trimStart (u ++ s) = s := by
  have htrim := trim_around hu hs (v := []) (by simp)
  rw [List.append_nil] at htrim
  obtain ⟨c, hc, hblank⟩ := hs.head
  exact ⟨htrim, by rw [trimStart_append hu, trimStart_eq_self hc hblank]⟩

/-- A text that goes on to blanks and a word is trimmed to a part of the word. -/
theorem not_isBlank_of_mem_trim {s v b w : Text} (h : s ++ v = b ++ w)
    (hb : ∀ c ∈ b, isBlank c = true) (hw : ∀ c ∈ w, isBlank c = false) :
    ∀ c ∈ trim s, isBlank c = false := by
  intro c hc
  rcases List.append_eq_append_iff.1 h with ⟨b', rfl, -⟩ | ⟨w', rfl, rfl⟩
  · rw [trim_eq_nil_iff.2 fun x hx => hb x (List.mem_append_left _ hx)] at hc
    cases hc
  · rw [trim, trimStart_append hb] at hc
    exact hw c (List.mem_append_left _ (mem_of_mem_trim hc))

end Text

/-! ## Headers -/

/-- The parts of a parameter are words of it. -/
theorem Parameter.mem_words_of_ofText {piece : Text} {p : Parameter} (h : Parameter.ofText piece = .ok p) :
    p.typeToken ∈ Text.words piece ∧ p.name ∈ Text.words piece := by
  unfold Parameter.ofText at h
  split at h
  · next hwords =>
    cases h
    simp [hwords]
  · next hwords =>
    split at h
    · cases h
      simp [hwords]
    · cases h
  · cases h

theorem Parameter.raises_ofText (piece : Text) :
    Raises (· = .invalidParameters) (Parameter.ofText piece) := by
  unfold Parameter.ofText
  split
  · exact .ok _
  · split
    · exact .ok _
    · exact .error rfl
  · exact .error rfl

/-- A header line has a name, and parameters between its parentheses. -/
theorem Header.ofLine_eq {line : Text} (h : Kind.of line = .ok .methodHeader) :
    ∃ name inside : Text, Name.methodPattern.Matches name ∧
      (∀ c ∈ inside, (CharSet.namePart ∪ .blank ∪ .char ',').contains c = true) ∧
      Header.ofLine line = (if inside.isEmpty then .ok [] else
        (inside.splitOn ',').mapM Parameter.ofText : Except Fault _).map (Header.mk name) := by
  have hm := (Kind.fits_iff_matches (by decide)).1 (Kind.fits_of_eq_ok h)
  simp only [Kind.form, Kind.parenthesized, Pattern.matches_assoc] at hm
  obtain ⟨u, _, rfl, hu, _, _, rfl, hvoid, b₁, _, rfl, hb₁, name, _, rfl, hname, b₂, _, rfl, hb₂, _, _, rfl,
    ⟨_, _, rfl, ⟨_, inside, rfl, hopen, hinside⟩, hclose⟩, b₃, _, rfl, hb₃, _, b₄, rfl, hbrace, hb₄⟩ := hm
  rw [Pattern.matches_word] at hvoid
  rw [Pattern.matches_char] at hopen hclose hbrace
  subst hvoid hopen hclose hbrace
  obtain ⟨-, hb₁⟩ := Pattern.matches_oneOrMore.1 hb₁
  obtain ⟨hne, hpart⟩ := Kind.isNamePart_of_name hname fun _ => Kind.isNamePart_of_letter
  have hline : u ++ (Keyword.voidWord ++ (b₁ ++ (name ++ (b₂ ++ (['('] ++ inside ++ [')'] ++
      (b₃ ++ (['\x7b'] ++ b₄))))))) =
      u ++ (Keyword.voidWord ++ (b₁ ++ name ++ b₂ ++ '(' :: (inside ++ ')' :: b₃)) ++ ['\x7b']) ++ b₄ := by
    simp
  have htrimmed : Text.IsTrimmed
      (Keyword.voidWord ++ (b₁ ++ name ++ b₂ ++ '(' :: (inside ++ ')' :: b₃)) ++ ['\x7b']) :=
    .append ⟨⟨'v', rfl, by decide⟩, ⟨'d', rfl, by decide⟩⟩ ⟨⟨_, rfl, by decide⟩, ⟨_, rfl, by decide⟩⟩
  have hsignature : Keyword.voidWord.isPrefixOf?
      (Text.trim (u ++ (Keyword.voidWord ++ (b₁ ++ name ++ b₂ ++ '(' :: (inside ++ ')' :: b₃)) ++
        ['\x7b']) ++ b₄)) = some (b₁ ++ name ++ b₂ ++ '(' :: (inside ++ ')' :: (b₃ ++ ['\x7b']))) := by
    rw [Text.trim_around hu htrimmed hb₄]
    exact Text.isPrefixOf?_eq_some_iff.2 (by simp)
  have hclose : ')' ∉ inside := fun hc => absurd (hinside _ hc) (by decide)
  have hparts := Tree.parts?_append (b₃ ++ ['\x7b'])
    (Text.not_mem_around hb₁ hpart hb₂ (by decide) (by decide))
    (Text.not_mem_around hb₁ hpart hb₂ (by decide) (by decide)) hclose
  refine ⟨name, Text.trim inside, hname, fun c hc => hinside c (Text.mem_of_mem_trim hc), ?_⟩
  rw [hline, Header.ofLine, hsignature]
  simp only [hparts, Text.trim_around hb₁ (.of_name hne hpart) hb₂]
  split <;> rfl

/-- The parts of a header. -/
structure Header.WellFormed (h : Header) : Prop where
  name : Name.methodPattern.Matches h.name
  parameters : ∀ p ∈ h.parameters, (Pattern.oneOrMore .namePart).Matches p.typeToken ∧
    (Pattern.oneOrMore .namePart).Matches p.name

theorem Header.raises_ofLine {line : Text} (h : Kind.of line = .ok .methodHeader) :
    Raises (· = .invalidParameters) (Header.ofLine line) := by
  obtain ⟨name, inside, -, -, hline⟩ := Header.ofLine_eq h
  rw [hline]
  refine .map ?_
  split
  · exact .ok _
  · exact .mapM Parameter.raises_ofText _

theorem Header.wellFormed_of_ofLine {line : Text} {header : Header} (h : Kind.of line = .ok .methodHeader)
    (hok : Header.ofLine line = .ok header) : header.WellFormed := by
  obtain ⟨name, inside, hname, hinside, hline⟩ := Header.ofLine_eq h
  rw [hline] at hok
  obtain ⟨parameters, hparams, rfl⟩ := map_eq_ok_iff.1 hok
  refine ⟨hname, fun p hp => ?_⟩
  split at hparams
  · cases hparams
    cases hp
  · obtain ⟨piece, hpiece, hp⟩ := exists_of_forall₂ (mapM_eq_ok_iff.1 hparams) hp
    have hword {w : Text} (hw : w ∈ Text.words piece) : (Pattern.oneOrMore .namePart).Matches w := by
      obtain ⟨hne, hw⟩ := Text.mem_words hw
      refine Pattern.matches_oneOrMore.2 ⟨hne, fun c hc => ?_⟩
      obtain ⟨hmem, hblank⟩ := hw c hc
      obtain ⟨hcomma, front, back, hsplit, -, -⟩ := Text.mem_splitOnP_iff.1 hpiece
      have hin := hinside c (by simp [hsplit, hmem])
      have hcomma := hcomma c hmem
      simp only [Union.union, CharSet.contains, hblank, hcomma, Bool.or_false] at hin
      exact hin
    obtain ⟨hty, hname⟩ := Parameter.mem_words_of_ofText hp
    exact ⟨hword hty, hword hname⟩

/-! ## Conditions -/

/-- There are operands, and none is blank. -/
theorem Condition.isTrimmed_of_operands {line : Text} {operands : List Text}
    (h : Condition.operands line = .ok operands) :
    operands ≠ [] ∧ ∀ operand ∈ operands, Text.IsTrimmed operand := by
  obtain ⟨⟨_, inside⟩, -, h⟩ := bind_eq_ok_iff.1 h
  dsimp only at h
  split at h
  · exact absurd h throw_ne_ok
  · next hblank =>
    cases h
    refine ⟨?_, fun operand hmem => ?_⟩
    · obtain ⟨piece, pieces, hpieces⟩ :=
        List.exists_cons_of_ne_nil (Text.splitOnDouble_ne_nil '|' inside)
      simp [hpieces, Text.splitOnDouble_ne_nil]
    · have hne : operand ≠ [] := by
        rintro rfl
        exact hblank (List.any_eq_true.2 ⟨[], hmem, rfl⟩)
      obtain ⟨piece, -, rfl⟩ := List.mem_map.1 hmem
      exact Text.isTrimmed_trim hne

/-! ## Declarations -/

namespace Declaration

/-- The line starts, behind any blanks, with `final` and a blank. -/
def StartsFinal (line : Text) : Prop :=
  ∃ c rest, Text.trimStart line = Keyword.finalWord ++ c :: rest ∧ Text.isBlank c = true

/-- What starts with another word does not start with `final`. -/
theorem not_startsFinal {ty : Ty} {line back : Text} {c : Char} (hc : Text.isBlank c = true)
    (hline : Text.trimStart line = ty.keyword ++ c :: back) :
    Text.leadWord (ty.keyword ++ c :: back) ≠ Keyword.finalWord ∧ ¬StartsFinal line := by
  have hlead {w : Text} {c : Char} (rest : Text) (hw : w ≠ [])
      (hname : ∀ c ∈ w, Text.isNamePart c = true) (hc : Text.isBlank c = true) :
      Text.leadWord (w ++ c :: rest) = w :=
    (Text.lead_of_name (c :: rest) hw hname fun x hx => by
      cases hx
      exact Text.not_isNamePart_of_isBlank hc).1
  have hkeyword := hlead back (Tree.keyword_ne_nil ty) (Tree.isNamePart_keyword ty) hc
  have hne : ty.keyword ≠ Keyword.finalWord := by cases ty <;> decide
  refine ⟨by rwa [hkeyword], ?_⟩
  rintro ⟨e, rest, hfinal, he⟩
  rw [hline] at hfinal
  rw [hfinal, hlead rest (by decide) (Text.forall_of_all (by decide)) he] at hkeyword
  exact hne hkeyword.symm

open Pattern in
/-- How a declaration begins: with its type, which may have `final` in front of it, and the
blanks behind the type. -/
def lead : Pattern :=
  blanks ++ optional (word Keyword.finalWord ++ oneOrMore .blank) ++
    (word Keyword.intWord ||| word Keyword.doubleWord ||| word Keyword.stringWord |||
      word Keyword.booleanWord ||| word Keyword.charWord) ++
    oneOrMore .blank

/-- What stands in front of a declared name: the type, with blanks behind it and perhaps
with `final` in front. -/
inductive IsTyped : Bool → Text → Text → Prop
  | plain {u token b : Text} : (∀ c ∈ u, Text.isBlank c = true) →
      (Pattern.oneOrMore .blank).Matches b → IsTyped false token (u ++ (token ++ b))
  | final {u b' token b : Text} : (∀ c ∈ u, Text.isBlank c = true) →
      (Pattern.oneOrMore .blank).Matches b' → (Pattern.oneOrMore .blank).Matches b →
        IsTyped true token (u ++ (Keyword.finalWord ++ (b' ++ (token ++ b))))

/-- A declaration begins with a type. -/
theorem exists_isTyped {front : Text} (h : lead.Matches front) :
    ∃ isFinal ty, IsTyped isFinal (Ty.keyword ty) front := by
  simp only [lead, Pattern.matches_assoc] at h
  obtain ⟨u, _, rfl, hu, f, _, rfl, hf, w, b, rfl, hw, hb⟩ := h
  have hw : ∃ ty : Ty, w = ty.keyword := by
    simp only [Pattern.matches_or, Pattern.matches_word] at hw
    rcases hw with (((rfl | rfl) | rfl) | rfl) | rfl
    exacts [⟨.int, rfl⟩, ⟨.double, rfl⟩, ⟨.string, rfl⟩, ⟨.boolean, rfl⟩, ⟨.char, rfl⟩]
  obtain ⟨ty, rfl⟩ := hw
  rcases Pattern.matches_optional.1 hf with rfl | ⟨_, b', rfl, hfinal, hb'⟩
  · exact ⟨false, ty, .plain hu hb⟩
  · rw [Pattern.matches_word] at hfinal
    subst hfinal
    rw [List.append_assoc]
    exact ⟨true, ty, .final hu hb' hb⟩

/-- How the line starts in which a type stands in front of what is declared. -/
theorem IsTyped.lead {isFinal : Bool} {ty : Ty} {front : Text}
    (h : IsTyped isFinal ty.keyword front) (rest : Text) :
    Text.leadWord (front ++ rest) = (if isFinal then Keyword.finalWord else ty.keyword) ∧
      Text.BlankBehindLead (front ++ rest) ∧
        Text.nextToLead (front ++ rest) =
          if isFinal then ty.keyword.head? else (Text.trimStart rest).head? := by
  have hname := Tree.isNamePart_keyword ty
  cases h with
  | @plain u _ b hu hb =>
    have hline : u ++ (ty.keyword ++ b) ++ rest = u ++ (ty.keyword ++ (b ++ rest)) := by simp
    rw [hline]
    obtain ⟨hlead, hbehind⟩ := Kind.lead_of_word_blank hu (Tree.keyword_ne_nil ty) hname hb
    exact ⟨hlead, hbehind, Kind.nextToLead_of_word_blank hu (Tree.keyword_ne_nil ty) hname hb⟩
  | @final u b' _ b hu hb' hb =>
    have hline : u ++ (Keyword.finalWord ++ (b' ++ (ty.keyword ++ b))) ++ rest =
        u ++ (Keyword.finalWord ++ (b' ++ (ty.keyword ++ (b ++ rest)))) := by simp
    have hfinal : ∀ c ∈ Keyword.finalWord, Text.isNamePart c = true := Text.forall_of_all (by decide)
    obtain ⟨hlead, hbehind⟩ := Kind.lead_of_word_blank hu (by decide) hfinal hb'
    have hnext : Text.nextToLead (u ++ (Keyword.finalWord ++ (b' ++ (ty.keyword ++ (b ++ rest))))) =
        (Text.trimStart (ty.keyword ++ (b ++ rest))).head? :=
      Kind.nextToLead_of_word_blank hu (by decide) hfinal hb'
    rw [hline]
    refine ⟨hlead, hbehind, hnext.trans ?_⟩
    obtain ⟨c, w, hw, hc⟩ := Tree.exists_cons_of_name (Tree.keyword_ne_nil ty) hname
    rw [hw]
    exact congrArg List.head? (Text.trimStart_eq_self rfl (CharSet.isBlank_of_namePart hc))

/-- The type can be taken off a declaration, down to the blanks behind it. -/
theorem takeFinal_of_isTyped {isFinal : Bool} {ty : Ty} {front : Text}
    (h : IsTyped isFinal ty.keyword front) :
    ∃ c back, Text.isBlank c = true ∧ (∀ x ∈ back, Text.isBlank x = true) ∧ ∀ rest,
      takeFinal (Text.trim (front ++ rest ++ [';'])) = (isFinal, ty.keyword ++ c :: (back ++ rest ++ [';'])) ∧
        (isFinal = true ↔ StartsFinal (front ++ rest ++ [';'])) := by
  have hkeyword : Text.IsTrimmed ty.keyword := .of_name (Tree.keyword_ne_nil ty) (Tree.isNamePart_keyword ty)
  have hend : Text.IsTrimmed [';'] := .of_forall (by simp) (Text.forall_of_all (by decide))
  have hrest (c : Char) (b rest : Text) : Text.IsTrimmed (ty.keyword ++ c :: (b ++ rest ++ [';'])) := by
    simpa using hkeyword.append (t := c :: (b ++ rest)) hend
  cases h with
  | @plain u _ _ hu hblanks =>
    obtain ⟨_, b, rfl, ⟨c, hc, rfl⟩, hb⟩ := hblanks
    refine ⟨c, b, hc, hb, fun rest => ?_⟩
    have hline : u ++ (ty.keyword ++ ([c] ++ b)) ++ rest ++ [';'] =
        u ++ (ty.keyword ++ c :: (b ++ rest ++ [';'])) := by simp
    obtain ⟨htrim, hstart⟩ := Text.trim_append hu (hrest c b rest)
    obtain ⟨hlead, hnot⟩ := not_startsFinal hc hstart
    rw [hline]
    exact ⟨by rw [htrim, takeFinal_of_lead hlead], iff_of_false Bool.false_ne_true hnot⟩
  | @final u _ _ _ hu hblanks' hblanks =>
    obtain ⟨_, b', rfl, ⟨c', hc', rfl⟩, hb'⟩ := hblanks'
    obtain ⟨_, b, rfl, ⟨c, hc, rfl⟩, hb⟩ := hblanks
    refine ⟨c, b, hc, hb, fun rest => ?_⟩
    have hline : u ++ (Keyword.finalWord ++ ([c'] ++ b' ++ (ty.keyword ++ ([c] ++ b)))) ++ rest ++ [';'] =
        u ++ (Keyword.finalWord ++ c' :: (b' ++ (ty.keyword ++ c :: (b ++ rest ++ [';'])))) := by simp
    have hfinal : Text.IsTrimmed Keyword.finalWord := .of_forall (by decide) (Text.forall_of_all (by decide))
    have htrimmed := hfinal.append (t := c' :: b') (hrest c b rest)
    rw [List.append_assoc, List.cons_append] at htrimmed
    obtain ⟨htrim, hstart⟩ := Text.trim_append hu htrimmed
    rw [hline]
    refine ⟨?_, iff_of_true rfl ⟨c', _, hstart, hc'⟩⟩
    rw [htrim, takeFinal_append hc', (Text.trim_append hb' (hrest c b rest)).2]

/-- A declaration line begins as a declaration does. -/
theorem exists_lead_of_form {line : Text} (h : Kind.declaration.form.Matches line) :
    ∃ front rest, line = front ++ rest ++ [';'] ∧ lead.Matches front := by
  obtain ⟨_, _, rfl, ⟨front, rest, rfl, hfront, -⟩, hend⟩ := h
  rw [Pattern.matches_char] at hend
  exact ⟨front, rest, by rw [hend], hfront⟩

theorem getLast?_of_form {line : Text} (h : Kind.declaration.form.Matches line) :
    line.getLast? = some ';' := by
  obtain ⟨front, rest, rfl, -⟩ := exists_lead_of_form h
  exact List.getLast?_concat

/-- A declaration starts with `final` and a word, or with a type and a blank. -/
theorem lead_of_form {line : Text} (h : Kind.declaration.form.Matches line) :
    (Text.leadWord line = Keyword.finalWord ∧
      ∃ c, Text.nextToLead line = some c ∧ Text.isNamePart c = true) ∨
    ∃ ty : Ty, Text.leadWord line = ty.keyword ∧ Text.BlankBehindLead line := by
  obtain ⟨front, rest, rfl, hfront⟩ := exists_lead_of_form h
  obtain ⟨isFinal, ty, htyped⟩ := exists_isTyped hfront
  obtain ⟨hlead, hbehind, hnext⟩ := htyped.lead (rest ++ [';'])
  rw [List.append_assoc]
  cases isFinal with
  | false => exact .inr ⟨ty, hlead, hbehind⟩
  | true =>
    obtain ⟨c, w, hw, hc⟩ := Tree.exists_cons_of_name (Tree.keyword_ne_nil ty) (Tree.isNamePart_keyword ty)
    exact .inl ⟨hlead, c, by rw [hnext, if_pos rfl, hw]; rfl, hc⟩

theorem exists_lead {line : Text} (h : Kind.of line = .ok .declaration) :
    ∃ front rest, line = front ++ rest ++ [';'] ∧ lead.Matches front :=
  exists_lead_of_form ((Kind.fits_iff_matches (by decide)).1 (Kind.fits_of_eq_ok h))

/-- A declaration line has a type behind its `final`, with a blank that follows it. -/
theorem takeFinal_trim {line : Text} (h : Kind.of line = .ok .declaration) :
    ∃ isFinal ty c back, takeFinal (Text.trim line) = (isFinal, Ty.keyword ty ++ c :: back) ∧
      Text.isBlank c = true ∧ (isFinal = true ↔ StartsFinal line) := by
  obtain ⟨front, rest, rfl, hfront⟩ := exists_lead h
  obtain ⟨isFinal, ty, htyped⟩ := exists_isTyped hfront
  obtain ⟨c, back, hc, -, htake⟩ := takeFinal_of_isTyped htyped
  exact ⟨isFinal, ty, c, _, (htake rest).1, hc, (htake rest).2⟩

/-- So it can be taken apart at its commas. -/
theorem ofLine_eq {line : Text} (h : Kind.of line = .ok .declaration) :
    ∃ isFinal ty c back, takeFinal (Text.trim line) = (isFinal, Ty.keyword ty ++ c :: back) ∧
      Text.isBlank c = true ∧ (isFinal = true ↔ StartsFinal line) ∧
      Declaration.ofLine line = (((Text.statementBody (c :: back)).splitOn ',').mapM Clause.ofText).map
        (Declaration.mk isFinal (Ty.keyword ty)) := by
  obtain ⟨isFinal, ty, c, back, htake, hc, hfinal⟩ := takeFinal_trim h
  refine ⟨isFinal, ty, c, back, htake, hc, hfinal, ?_⟩
  obtain ⟨hword, hrest⟩ := Text.takeWhile_word
    (fun c hc => CharSet.isBlank_of_namePart (Tree.isNamePart_keyword ty c hc)) hc back
  rw [Declaration.ofLine, htake]
  simp only [hword, hrest, List.isEmpty_iff, Tree.keyword_ne_nil, if_false]
  cases ((Text.statementBody (c :: back)).splitOn ',').mapM Clause.ofText <;> rfl

end Declaration

/-! ## Assignments -/

/-- The body of a statement stands on its line between blanks and semicolons. -/
theorem Text.exists_statementBody (line : Text) :
    ∃ u v, line = u ++ statementBody line ++ v ∧ (∀ c ∈ u, isBlank c = true) ∧
      ∀ c ∈ v, isBlank c = true ∨ c = ';' := by
  have hfinal : ∃ e, trim line = dropFinal ';' (trim line) ++ e ∧ ∀ c ∈ e, c = ';' := by
    unfold dropFinal
    split
    · next hlast =>
      obtain ⟨t, ht⟩ := List.getLast?_eq_some_iff.1 hlast
      exact ⟨[';'], by rw [ht, List.dropLast_concat], by simp⟩
    · exact ⟨[], by simp, by simp⟩
  obtain ⟨u, v, hline, hu, hv⟩ := exists_trim line
  obtain ⟨e, htrim, he⟩ := hfinal
  obtain ⟨u', v', hbody, hu', hv'⟩ := exists_trim (dropFinal ';' (trim line))
  refine ⟨u ++ u', v' ++ (e ++ v), ?_, fun c hc => (List.mem_append.1 hc).elim (hu c) (hu' c), ?_⟩
  · calc line = u ++ trim line ++ v := hline
      _ = u ++ (u' ++ statementBody line ++ v' ++ e) ++ v := by rw [statementBody, ← hbody, ← htrim]
      _ = u ++ u' ++ statementBody line ++ (v' ++ (e ++ v)) := by simp
  · intro c hc
    rcases List.mem_append.1 hc with hc | hc
    · exact .inl (hv' c hc)
    · exact (List.mem_append.1 hc).elim (fun hc => .inr (he c hc)) fun hc => .inl (hv c hc)

namespace Assignment

/-- An assignment as its line has it. -/
structure WellFormed (a : Assignment) : Prop where
  target : Name.wordPattern.Matches a.target
  value : ∀ c ∈ a.value, Text.isBlank c = false

/-- What stands between the commas of an assignment line has, with blanks in front of
it and blanks and semicolons behind, the form of an assignment. -/
theorem matches_of_mem_splitOn {line piece : Text} (h : Kind.of line = .ok .assignment)
    (hp : piece ∈ (Text.statementBody line).splitOn ',') :
    ∃ u v, (∀ c ∈ u, Text.isBlank c = true) ∧ Kind.assignment.form.Matches (u ++ piece ++ v) := by
  have hfits : ∀ p ∈ line.splitOn ',', Kind.assignment.form.Matches p := fun p hp =>
    Pattern.accepts_iff.1 (List.all_eq_true.1 (Kind.fits_of_eq_ok h) p hp)
  obtain ⟨u, v, hline, hu, hv⟩ := Text.exists_statementBody line
  obtain ⟨hpiece, front, back, hbody, hfront, hback⟩ := Text.mem_splitOnP_iff.1 hp
  have hnot {c : Char} (hc : Text.isBlank c = true ∨ c = ';') : (c == ',') = false := by
    rw [beq_eq_false_iff_ne]
    rintro rfl
    exact absurd hc (by decide)
  -- at the ends of the body, its first and last pieces go on to those of the line
  obtain ⟨front', u', hu', hfront', hleft⟩ : ∃ front' u', (∀ c ∈ u', Text.isBlank c = true) ∧
      (∀ c, front'.getLast? = some c → (c == ',') = true) ∧ u ++ front = front' ++ u' := by
    cases hf : front with
    | nil => exact ⟨[], u, hu, by simp, by simp⟩
    | cons x t =>
      refine ⟨u ++ front, [], by simp, fun c hc => hfront c ?_, by simp [hf]⟩
      simpa [hf, List.getLast?_append, List.getLast?_cons] using hc
  obtain ⟨back', v', hv', hback', hright⟩ : ∃ back' v', (∀ c ∈ v', (c == ',') = false) ∧
      (∀ c, back'.head? = some c → (c == ',') = true) ∧ back ++ v = v' ++ back' := by
    cases hb : back with
    | nil => exact ⟨[], v, fun c hc => hnot (hv c hc), by simp, by simp⟩
    | cons x t =>
      exact ⟨back ++ v, [], by simp, fun c hc => hback c (by simpa [hb] using hc), by simp [hb]⟩
  refine ⟨u', v', hu', hfits _ (Text.mem_splitOnP_iff.2 ⟨?_, front', back', ?_, hfront', hback'⟩)⟩
  · intro c hc
    simp only [List.mem_append] at hc
    rcases hc with (hc | hc) | hc
    · exact hnot (.inl (hu' c hc))
    · exact hpiece c hc
    · exact hv' c hc
  · calc line = (u ++ front) ++ piece ++ (back ++ v) := by rw [hline, hbody]; simp
      _ = front' ++ (u' ++ piece ++ v') ++ back' := by rw [hleft, hright]; simp

theorem wellFormed_of_ofText {u v piece : Text} {a : Assignment} (hu : ∀ c ∈ u, Text.isBlank c = true)
    (hm : Kind.assignment.form.Matches (u ++ piece ++ v)) (h : Assignment.ofText piece = .ok a) :
    a.WellFormed := by
  unfold Assignment.ofText at h
  split at h
  · next target value hsplit =>
    cases h
    have hpiece : piece = target ++ '=' :: value := by
      have hjoin : ['='].intercalate (piece.splitOn '=') = piece := List.intercalate_splitOn '='
      rw [← hjoin, hsplit]
      simp [List.intercalate_cons_cons]
    have htarget : '=' ∉ target := Text.not_mem_of_mem_splitOn (s := piece) (by simp [hsplit])
    have hfront : '=' ∉ u ++ target := by
      simp [htarget, Text.not_mem_of_blanks hu (c := '=') (by decide)]
    have hcut : Text.cut? '=' (u ++ piece ++ v) = some (u ++ target, value ++ v) :=
      Text.cut?_eq_some_iff.2 ⟨by simp [hpiece], hfront⟩
    simp only [Kind.form, Pattern.matches_assoc] at hm
    obtain ⟨u', _, hline, hu', name, _, rfl, hname, b, _, rfl, hb, _, _, rfl, heq, b', w, rfl, hb', hw⟩ := hm
    rw [Pattern.matches_char] at heq
    subst heq
    obtain ⟨hne, hpart⟩ := Kind.isNamePart_of_name hname fun _ => Kind.isNamePart_of_first
    have hcut' : Text.cut? '=' (u ++ piece ++ v) = some (u' ++ name ++ b, b' ++ w) :=
      Text.cut?_eq_some_iff.2
        ⟨by simpa using hline, Text.not_mem_around hu' hpart hb (by decide) (by decide)⟩
    obtain ⟨hleft, hright⟩ := Prod.mk.inj (Option.some.inj (hcut.symm.trans hcut'))
    have hname' : Text.trim target = name := by
      rw [← Text.trim_around hu' (.of_name hne hpart) hb, ← hleft, Text.trim, Text.trim,
        Text.trimStart_append hu]
    refine ⟨by rw [hname']; exact hname, Text.not_isBlank_of_mem_trim hright hb' fun c hc => ?_⟩
    simpa [CharSet.contains] using (Pattern.matches_oneOrMore.1 hw).2 c hc
  · cases h

/-- A line has at least one assignment, and each of them to a name. -/
theorem wellFormed_of_allOfLine {line : Text} {as : List Assignment} (h : Kind.of line = .ok .assignment)
    (hok : allOfLine line = .ok as) : as ≠ [] ∧ ∀ a ∈ as, a.WellFormed := by
  have hpieces := mapM_eq_ok_iff.1 hok
  refine ⟨?_, fun a ha => ?_⟩
  · rintro rfl
    exact List.splitOn_ne_nil _ _ (List.forall₂_nil_right_iff.1 hpieces)
  · obtain ⟨piece, hpiece, ha⟩ := exists_of_forall₂ hpieces ha
    obtain ⟨u, v, hu, hm⟩ := matches_of_mem_splitOn h hpiece
    exact wellFormed_of_ofText hu hm ha

end Assignment

/-! ## All kinds -/

/-- The parts of a declaration. -/
structure Declaration.WellFormed (line : Text) (d : Declaration) : Prop where
  typed : ∃ ty : Ty, d.typeToken = ty.keyword ∧ Ty.ofKeyword d.typeToken = .ok ty
  isFinal : d.isFinal = true ↔ StartsFinal line
  clauses : d.clauses ≠ []

theorem Declaration.wellFormed_of_ofLine {line : Text} {d : Declaration}
    (h : Kind.of line = .ok .declaration) (hok : Declaration.ofLine line = .ok d) : d.WellFormed line := by
  obtain ⟨isFinal, ty, c, back, -, -, hfinal, hline⟩ := Declaration.ofLine_eq h
  rw [hline] at hok
  obtain ⟨clauses, hclauses, rfl⟩ := map_eq_ok_iff.1 hok
  refine ⟨⟨ty, rfl, by cases ty <;> rfl⟩, hfinal, ?_⟩
  rintro rfl
  exact List.splitOn_ne_nil _ _ (List.forall₂_nil_right_iff.1 (mapM_eq_ok_iff.1 hclauses))

/-- What taking a line apart gives, for every kind of line that has parts. -/
structure Text.TakenApart (line : Text) : Prop where
  header_fault : Kind.of line = .ok .methodHeader → Raises (· = .invalidParameters) (Header.ofLine line)
  header : Kind.of line = .ok .methodHeader → ∀ h, Header.ofLine line = .ok h → h.WellFormed
  condition_fault : Kind.of line = .ok .condition →
    Raises (· = .invalidCondition) (Condition.operands line)
  condition : Kind.of line = .ok .condition → ∀ operands, Condition.operands line = .ok operands →
    operands ≠ [] ∧ ∀ operand ∈ operands, Text.IsTrimmed operand
  call : Kind.of line = .ok .call →
    ∃ call, Call.ofLine line = .ok call ∧ Name.methodPattern.Matches call.name
  declaration_fault : Kind.of line = .ok .declaration →
    Raises (· = .invalidLineFormat) (Declaration.ofLine line)
  /-- The type is the first word behind `final`, and what follows it is there to be cut. -/
  declaration_type : Kind.of line = .ok .declaration →
    ∃ token, (Text.words (Declaration.takeFinal (Text.trim line)).2).head? = some token ∧
      token <+: (Declaration.takeFinal (Text.trim line)).2
  declaration : Kind.of line = .ok .declaration → ∀ d, Declaration.ofLine line = .ok d →
    d.WellFormed line
  assignment_fault : Kind.of line = .ok .assignment →
    Raises (· = .invalidAssignment) (Assignment.allOfLine line)
  assignment : Kind.of line = .ok .assignment → ∀ as, Assignment.allOfLine line = .ok as →
    as ≠ [] ∧ ∀ a ∈ as, a.WellFormed

theorem Text.takenApart (line : Text) : TakenApart line where
  header_fault := Header.raises_ofLine
  header h _ := Header.wellFormed_of_ofLine h
  condition_fault := Condition.raises_operands
  condition _ _ := Condition.isTrimmed_of_operands
  call := Call.exists_ofLine
  declaration_fault _ := Declaration.raises_ofLine line
  declaration_type h := by
    obtain ⟨isFinal, ty, c, back, htake, hc, -⟩ := Declaration.takeFinal_trim h
    rw [htake]
    have hkeyword : ∀ c ∈ ty.keyword, Text.isBlank c = false :=
      fun c hc => CharSet.isBlank_of_namePart (Tree.isNamePart_keyword ty c hc)
    refine ⟨ty.keyword, ?_, List.prefix_append _ _⟩
    rw [Text.words_append (Tree.keyword_ne_nil ty) hkeyword hc, List.head?_cons]
  declaration h _ := Declaration.wellFormed_of_ofLine h
  assignment_fault _ := Assignment.raises_allOfLine line
  assignment h _ := Assignment.wellFormed_of_allOfLine h

end SJava
