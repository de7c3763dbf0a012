import SJava.Proofs.Arguments
import SJava.Proofs.Written

/-!
# Lists between parentheses

The parameters of a header, the arguments of a call and the operands of a condition are
read back as they are written, whatever blanks stand around them.

* `Header.ofLine_of_written`: the end is the first closing parenthesis, which no parameter
  holds;
* `Call.ofLine_of_written`, `Condition.operands_of_written`: it is the last one of the line,
  so arguments and operands can hold parentheses;
* `Text.ListsReadBack`, `Text.listsReadBack`: all three.
-/

namespace SJava

open SJava.Tree
open Text (Padded IsWhole)

/-! ## Words -/

namespace Text

/-- Blanks around a text part no words. -/
theorem words_of_blanks_around {u v : Text} (hu : ∀ c ∈ u, isBlank c = true)
    (hv : ∀ c ∈ v, isBlank c = true) (s : Text) : words (u ++ s ++ v) = words s := by
  have hblanks {v : Text} (hv : ∀ c ∈ v, isBlank c = true) : words v = [] :=
    List.eq_nil_iff_forall_not_mem.2 fun w hw => by
      obtain ⟨hne, hall⟩ := mem_words hw
      obtain ⟨c, hc⟩ := List.exists_mem_of_ne_nil w hne
      obtain ⟨hmem, hblank⟩ := hall c hc
      exact not_mem_of_blanks hv hblank hmem
  have hback : words (u ++ s ++ v) = words (u ++ s) := by
    cases v with
    | nil => rw [List.append_nil]
    | cons c v =>
      obtain ⟨hc, hv⟩ := List.forall_mem_cons.1 hv
      rw [words_append_cons hc, hblanks hv, List.append_nil]
  rw [hback]
  rcases List.eq_nil_or_concat' u with rfl | ⟨u, c, rfl⟩
  · rfl
  · obtain ⟨hu, hc⟩ := List.forall_mem_append.1 hu
    rw [List.append_assoc, List.singleton_append, words_append_cons (hc c (by simp)), hblanks hu,
      List.nil_append]

theorem words_trim (s : Text) : words (trim s) = words s := by
  obtain ⟨u, v, hs, hu, hv⟩ := exists_trim s
  conv_rhs => rw [hs]
  exact (words_of_blanks_around hu hv _).symm

/-- The first word of a text, and the others. -/
theorem words_cons {u w b : Text} (hu : ∀ c ∈ u, isBlank c = true) (hne : w ≠ [])
    (hw : ∀ c ∈ w, isBlank c = false) (hb : (Pattern.oneOrMore .blank).Matches b) (rest : Text) :
    words (u ++ (w ++ (b ++ rest))) = w :: words rest := by
  obtain ⟨_, b, rfl, ⟨c, hc, rfl⟩, hb⟩ := hb
  have hfront := words_of_blanks_around hu (v := []) (by simp) (w ++ c :: (b ++ rest))
  have hback := words_of_blanks_around hb (v := []) (by simp) rest
  rw [List.append_nil] at hfront hback
  rw [List.append_assoc, List.singleton_append, hfront, words_append hne hw hc, hback]

/-- A text that is one word, and that neither a comma nor a parenthesis cuts. -/
structure IsToken (w : Text) : Prop where
  ne_nil : w ≠ []
  word : ∀ c ∈ w, isBlank c = false
  whole : ∀ c ∈ [',', '(', ')'], c ∉ w

theorem isToken_iff {w : Text} : IsToken w ↔
    w ≠ [] ∧ w.all (!isBlank ·) = true ∧ ',' ∉ w ∧ '(' ∉ w ∧ ')' ∉ w := by
  constructor
  · rintro ⟨hne, hw, hwhole⟩
    exact ⟨hne, by simpa using hw, hwhole _ (by simp), hwhole _ (by simp), hwhole _ (by simp)⟩
  · rintro ⟨hne, hw, hcomma, hopen, hclose⟩
    exact ⟨hne, by simpa using hw, by simp [hcomma, hopen, hclose]⟩

instance : DecidablePred IsToken := fun _ => decidable_of_iff _ isToken_iff.symm

end Text

/-! ## Parameters -/

namespace Parameter

/-- A parameter of two words that stay whole in a header. -/
structure Plain (p : Parameter) : Prop where
  typeToken : Text.IsToken p.typeToken
  name : Text.IsToken p.name

instance : DecidablePred Plain := fun p =>
  decidable_of_iff (Text.IsToken p.typeToken ∧ Text.IsToken p.name)
    ⟨fun ⟨h, h'⟩ => ⟨h, h'⟩, fun ⟨h, h'⟩ => ⟨h, h'⟩⟩

/-- What can stand for a parameter between two commas. -/
inductive Written (p : Parameter) : Text → Prop
  | piece {front v : Text} : Declaration.IsTyped p.isFinal p.typeToken front →
      (∀ c ∈ v, Text.isBlank c = true) → Written p (front ++ p.name ++ v)

variable {p : Parameter} {piece : Text}

/-- A parameter reads the words of its piece alone. -/
theorem ofText_trim (piece : Text) : ofText (Text.trim piece) = ofText piece := by
  rw [ofText, ofText, Text.words_trim]

/-- A parameter is read off what is written for it. -/
theorem ofText_of_written (hp : p.Plain) (h : p.Written piece) : ofText piece = .ok p := by
  obtain ⟨isFinal, token, x⟩ := p
  obtain ⟨htoken, hx⟩ := hp
  obtain @⟨front, v, hfront, hv⟩ := h
  have hname : Text.words (x ++ v) = [x] := by
    have := Text.words_of_blanks_around (u := []) (by simp) hv x
    rwa [List.nil_append, Text.words_of_not_blank hx.ne_nil hx.word] at this
  cases hfront with
  | @plain u _ b hu hb =>
    have hwords := Text.words_cons hu htoken.ne_nil htoken.word hb (x ++ v)
    rw [hname] at hwords
    simp [ofText, hwords]
  | @final u b' _ b hu hb' hb =>
    have htyped := Text.words_cons (u := []) (by simp) htoken.ne_nil htoken.word hb (x ++ v)
    have hwords := Text.words_cons hu (w := Keyword.finalWord) (by decide)
      (Text.forall_of_all (by decide)) hb' (token ++ (b ++ (x ++ v)))
    rw [List.nil_append, hname] at htyped
    rw [htyped] at hwords
    simp [ofText, hwords]

theorem Written.not_mem (h : p.Written piece) (hp : p.Plain) {c : Char} (hc : c ∈ [',', '(', ')']) :
    c ∉ piece := by
  obtain ⟨isFinal, token, x⟩ := p
  obtain @⟨front, v, hfront, hv⟩ := h
  have hmarks : [',', '(', ')'].all (fun c => !Text.isBlank c && !Text.isNamePart c) = true := by decide
  obtain ⟨hblank, hpart⟩ : Text.isBlank c = false ∧ Text.isNamePart c = false := by
    simpa using List.all_eq_true.1 hmarks c hc
  have hblanks {u : Text} (hu : ∀ c ∈ u, Text.isBlank c = true) : c ∉ u := Text.not_mem_of_blanks hu hblank
  have hb {b : Text} (hb : (Pattern.oneOrMore .blank).Matches b) : c ∉ b :=
    hblanks (Pattern.matches_oneOrMore.1 hb).2
  have htoken := hp.typeToken.whole c hc
  have hname := hp.name.whole c hc
  cases hfront with
  | plain hu hb₁ => simp [hblanks hu, hb hb₁, hblanks hv, htoken, hname]
  | final hu hb₁ hb₂ =>
    have hfinal : c ∉ Keyword.finalWord := Text.not_mem_of_name (Text.forall_of_all (by decide)) hpart
    simp [hblanks hu, hb hb₁, hb hb₂, hblanks hv, htoken, hname, hfinal]

/-- `final type name` -/
def render (p : Parameter) : Text :=
  (if p.isFinal then Keyword.finalWord ++ [' '] else []) ++ p.typeToken ++ [' '] ++ p.name

theorem written_render (u : Text) (hu : ∀ c ∈ u, Text.isBlank c = true) (p : Parameter) :
    p.Written (u ++ p.render) := by
  obtain ⟨isFinal, token, x⟩ := p
  cases isFinal with
  | false =>
    have htyped : Declaration.IsTyped false token (u ++ (token ++ [' '])) := .plain hu Pattern.matches_space
    simpa [render] using Written.piece (p := ⟨false, token, x⟩) (v := []) htyped (by simp)
  | true =>
    have htyped : Declaration.IsTyped true token
        (u ++ (Keyword.finalWord ++ ([' '] ++ (token ++ [' '])))) :=
      .final hu Pattern.matches_space Pattern.matches_space
    simpa [render] using Written.piece (p := ⟨true, token, x⟩) (v := []) htyped (by simp)

/-- There is more than blanks in what is written for a parameter. -/
theorem Written.trim_ne_nil (h : p.Written piece) (hp : p.Plain) : Text.trim piece ≠ [] := by
  obtain @⟨front, v, -, -⟩ := h
  intro hnil
  obtain ⟨c, hc⟩ := List.exists_mem_of_ne_nil p.name hp.name.ne_nil
  have hblank := Text.trim_eq_nil_iff.1 hnil c (by simp [hc])
  rw [hp.name.word c hc] at hblank
  cases hblank

variable {parameters : List Parameter} {ps : List Text}

theorem not_mem_of_written (hplain : ∀ p ∈ parameters, p.Plain)
    (h : List.Forall₂ Written parameters ps) {c : Char} (hc : c ∈ [',', '(', ')']) :
    ∀ piece ∈ ps, c ∉ piece := by
  intro piece hpiece
  obtain ⟨p, hp, hwritten⟩ := exists_of_forall₂ h hpiece
  exact hwritten.not_mem (hplain p hp) hc

/-- Parameters are read off what is written for them, and none off nothing. -/
theorem mapM_ofText_of_written (hplain : ∀ p ∈ parameters, p.Plain)
    (h : List.Forall₂ Written parameters ps) :
    (if (Text.trim (commas ps)).isEmpty then pure []
      else ((Text.trim (commas ps)).splitOn ',').mapM ofText : Except Fault _) = .ok parameters := by
  by_cases hnil : ps = []
  · subst hnil
    obtain rfl : parameters = [] := List.forall₂_nil_right_iff.1 h
    rfl
  have hcomma := not_mem_of_written hplain h (c := ',') (by decide)
  have hblank : ps.map Text.trim ≠ [[]] := by
    intro hblank
    obtain ⟨piece, hpiece, htrim⟩ : ∃ piece ∈ ps, Text.trim piece = [] := by
      rw [← List.mem_map, hblank]
      exact List.mem_singleton_self []
    obtain ⟨p, hp, hwritten⟩ := exists_of_forall₂ h hpiece
    exact hwritten.trim_ne_nil (hplain p hp) htrim
  have hpieces : ((Text.trim (commas ps)).splitOn ',').map Text.trim = ps.map Text.trim := by
    rw [Text.map_trim_splitOn_trim (by decide), splitOn_commas hnil hcomma]
  rw [if_neg (by simpa using Text.trim_commas_ne_nil hnil hcomma hblank),
    Text.mapM_congr_of_trim ofText_trim hpieces, mapM_eq_ok_iff]
  exact ((List.forall₂_and_left _ _).2 ⟨hplain, h⟩).flip.imp fun _ _ h => ofText_of_written h.1 h.2

end Parameter

/-! ## Headers -/

namespace Header

/-- A header with a name and parameters that its parentheses do not cut. -/
structure Plain (h : Header) : Prop where
  opening : '(' ∉ h.name
  closing : ')' ∉ h.name
  parameters : ∀ p ∈ h.parameters, p.Plain

/-- The lines that can be written for a header: `void` and a blank, the name, the parameters
with commas between them in parentheses, and a brace. There can be more blanks around each of
these. -/
inductive Written (h : Header) : Text → Prop
  | line {u front b v : Text} {c : Char} {ps : List Text} : (∀ c ∈ u, Text.isBlank c = true) →
      Text.isBlank c = true → Padded h.name front → List.Forall₂ Parameter.Written h.parameters ps →
        (∀ c ∈ b, Text.isBlank c = true) → (∀ c ∈ v, Text.isBlank c = true) →
          Written h
            (u ++ (Keyword.voidWord ++ (c :: front ++ '(' :: (commas ps ++ ')' :: (b ++ ['\x7b'])))) ++ v)

variable {h : Header} {line : Text}

/-- A header is read off every line that can be written for it, with its name trimmed. -/
theorem ofLine_of_written (hh : h.Plain) (hline : h.Written line) :
    Header.ofLine line = .ok { h with name := Text.trim h.name } := by
  obtain ⟨x, parameters⟩ := h
  obtain ⟨hopen, hclose, hparameters⟩ := hh
  obtain @⟨u, front, b, v, c, ps, hu, hc, hfront, hps, hb, hv⟩ := hline
  have hinside : ')' ∉ commas ps := fun hmem => by
    rcases mem_commas hmem with hcomma | ⟨p, hp, hmem⟩
    · exact absurd hcomma (by decide)
    · exact Parameter.not_mem_of_written hparameters hps (by decide) p hp hmem
  have hname : Padded x (c :: front) := hfront.cons hc
  have hparts := parts?_append (b ++ ['\x7b']) (hname.not_mem (by decide) hopen)
    (hname.not_mem (by decide) hclose) hinside
  have htrimmed : Text.IsTrimmed
      (Keyword.voidWord ++ (c :: front ++ '(' :: (commas ps ++ ')' :: (b ++ ['\x7b'])))) :=
    ⟨⟨'v', rfl, by decide⟩, ⟨'\x7b', by simp [List.getLast?_append, List.getLast?_cons], by decide⟩⟩
  have hsignature := Text.isPrefixOf?_eq_some_iff.2
    (rfl : Keyword.voidWord ++ (c :: front ++ '(' :: (commas ps ++ ')' :: (b ++ ['\x7b']))) = _)
  rw [Header.ofLine, Text.trim_around hu htrimmed hv, hsignature]
  have hread := Parameter.mapM_ofText_of_written hparameters hps
  simp only [hparts, hname.trim_eq]
  split at hread
  · next hnone =>
    cases hread
    rw [if_pos hnone]
    rfl
  · next hsome =>
    rw [if_neg hsome, hread]
    rfl

/-- `void name(final type name, type name) {` -/
def render (h : Header) : Text :=
  Keyword.voidWord ++ [' '] ++ h.name ++ '(' :: (commas (Text.spaced (h.parameters.map (·.render))) ++
    [')', ' ', '\x7b'])

theorem written_render (h : Header) : h.Written h.render := by
  have hname : Padded h.name h.name := .refl _
  have hparameters := Text.forall₂_spaced Parameter.written_render h.parameters
  simpa [render] using Written.line (u := []) (c := ' ') (b := [' ']) (v := []) (by simp) (by decide) hname
    hparameters (Text.forall_of_all (by decide)) (by simp)

end Header

/-! ## Trimmed texts -/

namespace Text

variable {marks : List Char} {ss ps : List Text}

/-- Texts are read off what is written for them with blanks around. -/
theorem map_trim_of_padded (hss : ∀ s ∈ ss, IsWhole marks s) (h : List.Forall₂ Padded ss ps) :
    ps.map trim = ss := by
  induction h with
  | nil => rfl
  | @cons s p ss ps hp _ ih =>
    obtain ⟨hs, hss⟩ := List.forall_mem_cons.1 hss
    rw [List.map_cons, hp.trim_eq, hs.trimmed, ih hss]

theorem not_mem_of_padded (hss : ∀ s ∈ ss, IsWhole marks s) (h : List.Forall₂ Padded ss ps) {c : Char}
    (hblank : isBlank c = false) (hc : c ∈ marks) : ∀ p ∈ ps, c ∉ p := by
  intro p hp
  obtain ⟨s, hs, hpadded⟩ := exists_of_forall₂ h hp
  exact hpadded.not_mem hblank ((hss s hs).uncut c hc)

end Text

/-! ## Calls -/

namespace Call

/-- A call with texts that stay whole on a line. One empty argument is written as none are. -/
structure Plain (c : Call) : Prop where
  name : Text.trim c.name = c.name
  opening : '(' ∉ c.name
  arguments : ∀ a ∈ c.arguments, IsWhole [','] a
  blank : c.arguments ≠ [[]]

/-- The lines that can be written for a call: the name, the arguments with commas between them
in parentheses, and a semicolon, with any blanks around each of these. -/
inductive Written (c : Call) : Text → Prop
  | line {front b v : Text} {ps : List Text} : Padded c.name front →
      List.Forall₂ Padded c.arguments ps → (∀ c ∈ b, Text.isBlank c = true) →
        (∀ c ∈ v, Text.isBlank c = true) → Written c (Call.line front ps (b ++ ';' :: v))

variable {c : Call} {line : Text}

/-- A call is read off every line that can be written for it. -/
theorem ofLine_of_written (hc : c.Plain) (h : c.Written line) : Call.ofLine line = .ok c := by
  obtain @⟨front, b, v, ps, hfront, hps, hb, hv⟩ := h
  have hclose : Text.isBlank ')' = false := by decide
  have hparts : Parts front ps (b ++ ';' :: v) :=
    { front := hfront.not_mem (by decide) hc.opening
      comma := Text.not_mem_of_padded hc.arguments hps (by decide) (by simp)
      back := by simp [Text.not_mem_of_blanks hb hclose, Text.not_mem_of_blanks hv hclose] }
  have harguments := Text.map_trim_of_padded hc.arguments hps
  rw [ofLine_line hparts (by rw [harguments]; exact hc.blank), harguments, hfront.trim_eq, hc.name]

/-- `name(argument, argument);` -/
def render (c : Call) : Text := Call.line c.name (Text.spaced c.arguments) [';']

theorem written_render (c : Call) : c.Written c.render := by
  have harguments : List.Forall₂ Padded c.arguments (Text.spaced c.arguments) := by
    have hpadded (u : Text) (hu : ∀ c ∈ u, Text.isBlank c = true) (s : Text) : Padded s (u ++ s) :=
      ⟨u, [], hu, by simp, by simp⟩
    simpa using Text.forall₂_spaced (f := id) hpadded c.arguments
  exact .line (b := []) (v := []) (.refl _) harguments (by simp) (by simp)

end Call

/-! ## Conditions -/

namespace Condition

/-- The lines that can be written for the header of a block: `if` or `while`, the operands in
parentheses with `||` or `&&` between them, and a brace, with any blanks around each of
these. -/
inductive Written (operands : List Text) : Text → Prop
  | line {u b b' v piece : Text} {branch : Branch} {others : List (Joint × Text)} :
      (∀ c ∈ u, Text.isBlank c = true) → (∀ c ∈ b, Text.isBlank c = true) →
        List.Forall₂ Padded operands (piece :: others.map (·.2)) →
          (∀ c ∈ b', Text.isBlank c = true) → (∀ c ∈ v, Text.isBlank c = true) →
            Written operands (u ++ branch.keyword ++ b ++
              '(' :: ((piece ++ joinedTexts others) ++ ')' :: (b' ++ '\x7b' :: v)))

variable {operands : List Text} {line : Text}

/-- The operands of a condition are what is written for them, and none of them may be empty. -/
theorem operands_of_written (hoperands : ∀ s ∈ operands, IsWhole ['|', '&'] s) (h : Written operands line) :
    Condition.operands line = if [] ∈ operands then .error .invalidCondition else .ok operands := by
  obtain @⟨u, b, b', v, piece, branch, others, hu, hb, hpieces, hb', hv⟩ := h
  have hkeyword : '(' ∉ branch.keyword := by cases branch <;> decide
  have hopen : '(' ∉ u ++ branch.keyword ++ b := by
    have hblank : Text.isBlank '(' = false := by decide
    simp [Text.not_mem_of_blanks hu hblank, Text.not_mem_of_blanks hb hblank, hkeyword]
  have hclose : ')' ∉ b' ++ '\x7b' :: v := by
    have hblank : Text.isBlank ')' = false := by decide
    simp [Text.not_mem_of_blanks hb' hblank, Text.not_mem_of_blanks hv hblank]
  have hwhole : ∀ p ∈ piece :: others.map (·.2), '|' ∉ p ∧ '&' ∉ p := fun p hp =>
    ⟨Text.not_mem_of_padded hoperands hpieces (by decide) (by simp) p hp,
      Text.not_mem_of_padded hoperands hpieces (by decide) (by simp) p hp⟩
  have htrim := Text.map_trim_of_padded hoperands hpieces
  have hany : operands.any (·.isEmpty) = true ↔ [] ∈ operands := by simp
  rw [Condition.operands, parenthesized_append _ hopen hclose]
  simp only [ok_bind, flatMap_splitOnDouble_joinedTexts hwhole, htrim, hany]
  split <;> rfl

/-- `if (operand||operand&&operand) {` -/
def render (branch : Branch) (first : Text) (others : List (Joint × Text)) : Text :=
  branch.keyword ++ [' '] ++ '(' :: ((first ++ joinedTexts others) ++ [')', ' ', '\x7b'])

theorem written_render (branch : Branch) (first : Text) (others : List (Joint × Text)) :
    Written (first :: others.map (·.2)) (render branch first others) := by
  have hspace : ∀ c ∈ [' '], Text.isBlank c = true := Text.forall_of_all (by decide)
  have hpieces : List.Forall₂ Padded (first :: others.map (·.2)) (first :: others.map (·.2)) :=
    List.forall₂_same.2 fun s _ => .refl s
  exact .line (u := []) (v := []) (by simp) hspace hpieces hspace (by simp)

end Condition

/-! ## Reading back -/

/-- Reading a line with a list between parentheses undoes writing it. -/
structure Text.ListsReadBack (line : Text) : Prop where
  /-- The name comes back trimmed, so a header whose name is trimmed comes back as it was. -/
  header : ∀ h : Header, h.Plain → h.Written line →
    Header.ofLine line = .ok { h with name := trim h.name } ∧
      (trim h.name = h.name → Header.ofLine line = .ok h)
  header_render : ∀ h : Header, line = h.render → h.Written line
  call : ∀ c : Call, c.Plain → c.Written line → Call.ofLine line = .ok c
  call_render : ∀ c : Call, line = c.render → c.Written line
  condition : ∀ operands, (∀ s ∈ operands, IsWhole ['|', '&'] s) → Condition.Written operands line →
    [] ∉ operands → Condition.operands line = .ok operands
  condition_empty : ∀ operands, (∀ s ∈ operands, IsWhole ['|', '&'] s) →
    Condition.Written operands line → [] ∈ operands → Condition.operands line = .error .invalidCondition
  condition_render : ∀ branch first others, line = Condition.render branch first others →
    Condition.Written (first :: others.map (·.2)) line

theorem Text.listsReadBack (line : Text) : ListsReadBack line where
  header h hh hline := by
    have hread := Header.ofLine_of_written hh hline
    exact ⟨hread, fun htrim => by rw [hread, htrim]⟩
  header_render h hline := hline ▸ h.written_render
  call _ := Call.ofLine_of_written
  call_render c hline := hline ▸ c.written_render
  condition operands hoperands hline hnone := by
    rw [Condition.operands_of_written hoperands hline, if_neg hnone]
  condition_empty operands hoperands hline hsome := by
    rw [Condition.operands_of_written hoperands hline, if_pos hsome]
  condition_render branch first others hline := hline ▸ Condition.written_render branch first others

/-- Parentheses, quotes and semicolons within arguments and operands. -/
theorem Text.listsReadBack_nested :
    let h : Header := ⟨['f'], [⟨true, Keyword.intWord, ['n']⟩, ⟨false, ['T', ';'], Keyword.finalWord⟩]⟩
    let c : Call := ⟨['f'], ["g(1)".toList, ['"', ')', '"'], [], [';']]⟩
    let others : List (Joint × Text) := [(.and, "g(b)".toList), (.or, ['c'])]
    (h.Plain ∧ Header.ofLine "void f(final int n, T; final) \x7b".toList = .ok h) ∧
      (c.Plain ∧ Call.ofLine "f(g(1), \")\", , ;);".toList = .ok c) ∧
      ((∀ s ∈ ['a'] :: others.map (·.2), IsWhole ['|', '&'] s) ∧
        Condition.operands "while (a&&g(b)||c) \x7b".toList = .ok (['a'] :: others.map (·.2))) ∧
      ((∀ s ∈ [['a'], []], IsWhole ['|', '&'] s) ∧
        Condition.operands "if (a||) \x7b".toList = .error .invalidCondition) := by
  intro h c others
  have hh : h.Plain := ⟨by decide, by decide, by decide⟩
  have hc : c.Plain := ⟨by decide, by decide, by decide, by decide⟩
  have hoperands : ∀ s ∈ ['a'] :: others.map (·.2), IsWhole ['|', '&'] s := by decide
  have hempty : ∀ s ∈ [['a'], []], IsWhole ['|', '&'] s := by decide
  refine ⟨⟨hh, ?_⟩, ⟨hc, ?_⟩, ⟨hoperands, ?_⟩, ⟨hempty, ?_⟩⟩
  · have hread := listsReadBack "void f(final int n, T; final) \x7b".toList
    exact (hread.header h hh (hread.header_render h (by decide))).2 (by decide)
  · have hread := listsReadBack "f(g(1), \")\", , ;);".toList
    exact hread.call c hc (hread.call_render c (by decide))
  · have hread := listsReadBack "while (a&&g(b)||c) \x7b".toList
    exact hread.condition _ hoperands (hread.condition_render .loop _ others (by decide)) (by decide)
  · have hread := listsReadBack "if (a||) \x7b".toList
    exact hread.condition_empty _ hempty (hread.condition_render .conditional ['a'] [(.or, [])] (by decide))
      (by decide)

end SJava
