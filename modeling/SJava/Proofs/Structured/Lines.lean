import SJava.Proofs.Leads
import SJava.Proofs.Structured.Syntax

/-!
# The lines of a tree

What the lines of a tree look like: `Tree.Plain` says which characters they are made
of, and the kind of each is that of its statement.

* `Tree.Stmt.kind_of_render`, `Tree.Head.kind_of_render`,
  `Tree.MethodItem.kind_of_header`, `Tree.kind_of_blockEnd`.
-/

namespace SJava.Tree

/-! ## Characters -/

/-- A text without braces and without blanks but for spaces. -/
def Plain (s : Text) : Prop :=
  ∀ c ∈ s, (Text.isBlank c = false ∨ c = ' ') ∧ c ≠ '{' ∧ c ≠ '}'

theorem Plain.append {s t : Text} (hs : Plain s) (ht : Plain t) : Plain (s ++ t) := by
  intro c hc
  rcases List.mem_append.1 hc with hc | hc
  · exact hs c hc
  · exact ht c hc

theorem Plain.cons {c : Char} {s : Text}
    (hc : (Text.isBlank c = false ∨ c = ' ') ∧ c ≠ '{' ∧ c ≠ '}') (hs : Plain s) : Plain (c :: s) :=
  fun d hd => (List.mem_cons.1 hd).elim (fun e => e ▸ hc) (hs d)

theorem Plain.nil : Plain [] := fun _ hc => absurd hc List.not_mem_nil

theorem mem_commas {pieces : List Text} {c : Char} (h : c ∈ commas pieces) :
    c = ',' ∨ ∃ piece ∈ pieces, c ∈ piece := by
  induction pieces with
  | nil => cases h
  | cons piece pieces ih =>
    cases pieces with
    | nil => exact .inr ⟨piece, List.mem_cons_self, by simpa [commas] using h⟩
    | cons p ps =>
      rw [commas, List.intercalate_cons_cons, List.mem_append, List.mem_append] at h
      rcases h with (h | h) | h
      · exact .inr ⟨piece, List.mem_cons_self, h⟩
      · exact .inl (List.mem_singleton.1 h)
      · exact (ih h).imp_right fun ⟨q, hq, hc⟩ => ⟨q, List.mem_cons_of_mem _ hq, hc⟩

theorem Plain.commas {pieces : List Text} (h : ∀ piece ∈ pieces, Plain piece) :
    Plain (commas pieces) := by
  intro c hc
  rcases mem_commas hc with rfl | ⟨piece, hp, hc⟩
  · decide
  · exact h piece hp c hc

theorem Plain.commas_map {α : Type} {f : α → Text} (h : ∀ x, Plain (f x)) (xs : List α) :
    Plain (Tree.commas (xs.map f)) :=
  .commas (List.forall_mem_map.2 fun x _ => h x)

theorem Plain.not_newline {s : Text} (h : Plain s) : ∀ c ∈ s, CharSet.notNewline.contains c = true := by
  intro c hc
  have hne : c ≠ '\n' := by
    rintro rfl
    rcases (h _ hc).1 with h | h
    · exact absurd h (by decide)
    · exact absurd h (by decide)
  simp [CharSet.notNewline, CharSet.contains, hne]

/-- A name is made of the characters that names are made of. -/
theorem Plain.of_name {s : Text} (h : ∀ c ∈ s, Text.isNamePart c = true) : Plain s := by
  intro c hc
  have hname := h c hc
  refine ⟨.inl (CharSet.isBlank_of_namePart hname), ?_, ?_⟩
  · rintro rfl
    exact absurd hname (by decide)
  · rintro rfl
    exact absurd hname (by decide)

namespace Word

variable (w : Word)

theorem isNamePart {c : Char} (hc : c ∈ w.text) : Text.isNamePart c = true :=
  (Kind.isNamePart_of_name w.shape fun _ => Kind.isNamePart_of_first).2 c hc

theorem text_ne_nil : w.text ≠ [] := by
  obtain ⟨_, v, h, ⟨c, -, rfl⟩, -⟩ := w.shape
  rw [h]
  exact List.cons_ne_nil c v

theorem not_mem {c : Char} (hc : Text.isNamePart c = false) : c ∉ w.text := by
  intro h
  rw [w.isNamePart h] at hc
  cases hc

theorem plain : Plain w.text := .of_name fun _ => w.isNamePart

theorem isBlank {c : Char} (hc : c ∈ w.text) : Text.isBlank c = false :=
  CharSet.isBlank_of_namePart (w.isNamePart hc)

end Word

/-- The name of a method is a word. -/
def MethodName.toWord (m : MethodName) : Word where
  text := m.text
  shape := by
    obtain ⟨u, v, h, ⟨c, hc, hu⟩, hv⟩ := m.shape
    exact ⟨u, v, h, ⟨c, Bool.or_eq_true_iff.2 (.inl hc), hu⟩, hv⟩

namespace Value

variable (v : Value)

theorem isBlank {c : Char} (hc : c ∈ v.text) : Text.isBlank c = false := (v.plain c hc).1

theorem not_mem {c : Char} (hc : c ∈ separators) : c ∉ v.text := fun h => (v.plain c h).2 hc

theorem plain_text : Plain v.text := by
  intro c hc
  refine ⟨.inl (v.isBlank hc), ?_, ?_⟩
  · rintro rfl
    exact v.not_mem (by decide) hc
  · rintro rfl
    exact v.not_mem (by decide) hc

theorem text_ne_nil : v.text ≠ [] := by
  intro hnil
  rcases v.shape with h | ⟨ty, h⟩
  · rw [hnil, ← Pattern.nullable_iff] at h
    exact absurd h (by decide)
  · rw [hnil, ← Pattern.nullable_iff] at h
    cases ty <;> exact absurd h (by decide)

end Value

theorem isNamePart_keyword (ty : Ty) : ∀ c ∈ ty.keyword, Text.isNamePart c = true := by
  cases ty <;> exact Text.forall_of_all (by decide)

theorem keyword_ne_nil (ty : Ty) : ty.keyword ≠ [] := by
  cases ty <;> decide

theorem typed_plain (isFinal : Bool) (ty : Ty) : Plain (typed isFinal ty) := by
  refine Plain.append ?_ (.of_name (isNamePart_keyword ty))
  cases isFinal
  · exact .nil
  · exact .append (.of_name (Text.forall_of_all (by decide))) (.cons (by decide) .nil)

theorem Declarator.plain (d : Declarator) : Plain d.render := by
  unfold Declarator.render
  split
  · exact d.name.plain
  · next v _ => exact d.name.plain.append (.cons (by decide) v.plain_text)

theorem Setter.plain (a : Setter) : Plain a.render :=
  a.target.plain.append (.cons (by decide) a.value.plain_text)

theorem Param.plain (p : Param) : Plain p.render :=
  (typed_plain p.isFinal p.ty).append (.cons (by decide) p.name.plain)

theorem VarLine.plain (l : VarLine) : Plain l.render := by
  have hclauses : Plain (commas (l.clauses.map (·.render))) := .commas_map Declarator.plain _
  exact .append (.append (typed_plain _ _) (.cons (by decide) hclauses)) (.cons (by decide) .nil)

theorem SetLine.plain (l : SetLine) : Plain l.render :=
  .append (.commas_map Setter.plain _) (.cons (by decide) .nil)

theorem plain_arguments (vs : List Value) : Plain (commas (vs.map (·.text))) :=
  .commas_map Value.plain_text vs

theorem CallLine.plain (l : CallLine) : Plain l.render :=
  .append (.append l.name.toWord.plain (.cons (by decide) (plain_arguments _)))
    (.cons (by decide) (.cons (by decide) .nil))

theorem Stmt.plain (s : Stmt) : Plain s.render := by
  cases s with
  | vars l => exact l.plain
  | set l => exact l.plain
  | call l => exact l.plain
  | ret => exact .append (.of_name (Text.forall_of_all (by decide))) (.cons (by decide) .nil)

/-- The operands of a condition behind the first, each with what joins it. -/
def joined (others : List (Joint × Value)) : Text := others.flatMap fun o => o.1.render ++ o.2.text

theorem joined_plain (others : List (Joint × Value)) : Plain (joined others) := by
  intro c hc
  obtain ⟨⟨j, v⟩, -, hc⟩ := List.mem_flatMap.1 hc
  have hj : Plain j.render := by
    cases j <;> exact .cons (by decide) (.cons (by decide) .nil)
  exact hj.append v.plain_text c hc

theorem Branch.plain (b : Branch) : Plain b.keyword := by
  cases b <;> exact .of_name (Text.forall_of_all (by decide))

/-- The line without the brace it ends in. -/
def Head.front (h : Head) : Text :=
  h.branch.keyword ++ '(' :: h.first.text ++ joined h.others ++ [')']

theorem Head.render_eq (h : Head) : h.render = h.front ++ ['{'] := by
  simp [Head.render, Head.front, joined]

theorem Head.plain (h : Head) : Plain h.front :=
  .append (.append (.append h.branch.plain (.cons (by decide) h.first.plain_text)) (joined_plain _))
    (.cons (by decide) .nil)

/-- A method header up to its brace. -/
def MethodItem.front (m : MethodItem) : Text :=
  Keyword.voidWord ++ ' ' :: m.name.text ++ '(' :: commas (m.params.map (·.render)) ++ [')']

theorem MethodItem.header_eq (m : MethodItem) : m.header = m.front ++ ['{'] := by
  simp [MethodItem.header, MethodItem.front]

theorem MethodItem.plain (m : MethodItem) : Plain m.front := by
  have hvoid : Plain Keyword.voidWord := .of_name (Text.forall_of_all (by decide))
  have hparams : Plain (commas (m.params.map (·.render))) := .commas_map Param.plain _
  exact .append (.append (.append hvoid (.cons (by decide) m.name.toWord.plain))
    (.cons (by decide) hparams)) (.cons (by decide) .nil)

/-! ## Kinds -/

/-- A word and a space, with another word behind them. -/
theorem lead_of_space {w : Text} {c : Char} (rest : Text) (hw : w ≠ [])
    (hname : ∀ c ∈ w, Text.isNamePart c = true) (hc : Text.isNamePart c = true) :
    Text.leadWord (w ++ ' ' :: c :: rest) = w ∧ Text.nextToLead (w ++ ' ' :: c :: rest) = some c := by
  obtain ⟨hlead, hbehind⟩ := Text.lead_of_name (' ' :: c :: rest) hw hname fun x hx => by
    cases hx
    decide
  refine ⟨hlead, ?_⟩
  have hstart : Text.trimStart (' ' :: c :: rest) = c :: rest := by
    rw [Text.trimStart, List.dropWhile_cons_of_pos (by decide)]
    exact Text.trimStart_eq_self rfl (CharSet.isBlank_of_namePart hc)
  rw [Text.nextToLead, hbehind, hstart]
  rfl

/-- A word with a character behind it that is in no name. -/
theorem lead_of_char {w : Text} {c : Char} (rest : Text) (hw : w ≠ [])
    (hname : ∀ c ∈ w, Text.isNamePart c = true) (hc : Text.isNamePart c = false)
    (hc' : Text.isBlank c = false) :
    ¬Text.BlankBehindLead (w ++ c :: rest) ∧ Text.nextToLead (w ++ c :: rest) = some c := by
  obtain ⟨-, hbehind⟩ := Text.lead_of_name (c :: rest) hw hname fun x hx => by
    cases hx
    exact hc
  refine ⟨?_, ?_⟩
  · rintro ⟨d, r, hd, hblank⟩
    rw [hbehind] at hd
    cases hd
    rw [hc'] at hblank
    cases hblank
  · rw [Text.nextToLead, hbehind, Text.trimStart_eq_self rfl hc']
    rfl

theorem exists_cons_of_name {w : Text} (hw : w ≠ []) (hname : ∀ c ∈ w, Text.isNamePart c = true) :
    ∃ c rest, w = c :: rest ∧ Text.isNamePart c = true := by
  cases w with
  | nil => exact absurd rfl hw
  | cons c w => exact ⟨c, w, rfl, hname c List.mem_cons_self⟩

theorem commas_cons (p : Text) (ps : List Text) : commas (p :: ps) = p ++ ps.flatMap (',' :: ·) := by
  induction ps generalizing p with
  | nil => simp [commas]
  | cons q ps ih =>
    have hq := ih q
    rw [commas] at hq ⊢
    rw [List.intercalate_cons_cons, hq]
    simp

open Pattern

/-- The type of a declaration and what follows it. -/
theorem exists_lead_of_typed (isFinal : Bool) (ty : Ty) {c : Char} (rest : Text)
    (hc : Text.isNamePart c = true) : ∃ w d, Text.leadWord (typed isFinal ty ++ ' ' :: c :: rest) = w ∧
      Text.nextToLead (typed isFinal ty ++ ' ' :: c :: rest) = some d ∧ w ≠ Keyword.voidWord ∧
        Text.isNamePart d = true := by
  have hne := keyword_ne_nil ty
  have hname := isNamePart_keyword ty
  cases isFinal with
  | false =>
    obtain ⟨hlead, hnext⟩ := lead_of_space rest hne hname hc
    refine ⟨ty.keyword, c, hlead, hnext, ?_, hc⟩
    cases ty <;> decide
  | true =>
    obtain ⟨d, w, hw, hd⟩ := exists_cons_of_name hne hname
    obtain ⟨hlead, hnext⟩ := lead_of_space (w := Keyword.finalWord)
      (w ++ ' ' :: c :: rest) (by decide) (Text.forall_of_all (by decide)) hd
    have heq : typed true ty ++ ' ' :: c :: rest =
        Keyword.finalWord ++ ' ' :: d :: (w ++ ' ' :: c :: rest) := by
      simp [typed, hw]
    rw [heq]
    exact ⟨_, d, hlead, hnext, by decide, hd⟩

/-- A declaration goes on with a name behind its type. -/
theorem VarLine.exists_render (l : VarLine) : ∃ c rest, Text.isNamePart c = true ∧ Plain (c :: rest) ∧
    l.render = typed l.isFinal l.ty ++ ' ' :: c :: (rest ++ [';']) := by
  obtain ⟨c, w, hw, hc⟩ := exists_cons_of_name l.first.name.text_ne_nil fun _ => l.first.name.isNamePart
  obtain ⟨rest, hrest⟩ : ∃ rest, commas (l.clauses.map (·.render)) = c :: rest := by
    rw [VarLine.clauses, List.map_cons, commas_cons, Declarator.render]
    split <;> rw [hw] <;> exact ⟨_, rfl⟩
  refine ⟨c, rest, hc, ?_, ?_⟩
  · rw [← hrest]
    exact .commas_map Declarator.plain _
  · simp [VarLine.render, hrest]

theorem matches_typed (isFinal : Bool) (ty : Ty) :
    (optional (word Keyword.finalWord ++ oneOrMore .blank) ++
      (word Keyword.intWord ||| word Keyword.doubleWord ||| word Keyword.stringWord |||
        word Keyword.booleanWord ||| word Keyword.charWord)).Matches (typed isFinal ty) := by
  apply Matches.append
  · rw [matches_optional]
    cases isFinal with
    | false => exact .inl rfl
    | true => exact .inr (.append (matches_word.2 rfl) matches_space)
  · simp only [matches_or, matches_word]
    cases ty <;> simp [Ty.keyword]

/-- Behind the type of a declaration, anything may stand that is on one line. -/
theorem fits_typed (isFinal : Bool) (ty : Ty) {c : Char} {rest : Text} (hline : '\n' ∉ c :: rest) :
    Kind.declaration.fits (typed isFinal ty ++ ' ' :: c :: (rest ++ [';'])) = true := by
  have hrest : (oneOrMore .notNewline).Matches (c :: rest) := by
    refine matches_oneOrMore.2 ⟨by simp, fun d hd => ?_⟩
    have hne : d ≠ '\n' := fun h => hline (h ▸ hd)
    simp [CharSet.notNewline, CharSet.contains, hne]
  have hmatches := (matches_assoc.1 ((matches_typed isFinal ty).append (matches_space.append
    (hrest.append (matches_char.2 (rfl : [';'] = _)))))).behind_blanks
  rw [Kind.fits_iff_matches (by decide)]
  simp only [Kind.form, matches_assoc]
  simpa only [List.append_assoc, List.cons_append, List.nil_append] using hmatches

theorem kind_of_typed (isFinal : Bool) (ty : Ty) {c : Char} {rest : Text}
    (hc : Text.isNamePart c = true) (hline : '\n' ∉ c :: rest) :
    Kind.of (typed isFinal ty ++ ' ' :: c :: (rest ++ [';'])) = .ok .declaration := by
  have hlast : (typed isFinal ty ++ ' ' :: c :: (rest ++ [';'])).getLast? = some ';' := by
    rw [← List.cons_append, ← List.cons_append, ← List.append_assoc, List.getLast?_concat]
  obtain ⟨w, d, hlead, hnext, hvoid, hd⟩ := exists_lead_of_typed isFinal ty (rest ++ [';']) hc
  apply Kind.of_eq_declaration hlast (fits_typed isFinal ty hline) (hlead ▸ hvoid) <;>
  · rw [hnext]
    rintro ⟨⟩
    exact absurd hd (by decide)

theorem VarLine.kind_of_render (l : VarLine) : Kind.of l.render = .ok .declaration := by
  obtain ⟨c, rest, hc, hplain, hline⟩ := l.exists_render
  have hnewline : '\n' ∉ c :: rest := fun h => absurd (hplain.not_newline _ h) (by decide)
  rw [hline]
  exact kind_of_typed l.isFinal l.ty hc hnewline

/-- A clause of an assignment has its form, with a semicolon behind it or
without. -/
theorem Setter.matches_form (a : Setter) {t : Text} (ht : t = [] ∨ t = [';']) :
    Kind.assignment.form.Matches (a.render ++ t) := by
  simp only [Kind.form, matches_assoc]
  have hvalue : (oneOrMore (.compl .blank)).Matches (a.value.text ++ t) := by
    refine matches_oneOrMore.2 ⟨by simp [a.value.text_ne_nil], fun d hd => ?_⟩
    have hblank : Text.isBlank d = false := by
      rcases List.mem_append.1 hd with hd | hd
      · exact a.value.isBlank hd
      · rcases ht with rfl | rfl
        · cases hd
        · rw [List.mem_singleton.1 hd]
          decide
    simp [CharSet.contains, hblank]
  have htarget : (Kind.namePattern (.letter ∪ .char '_')).Matches a.target.text := a.target.shape
  have := (htarget.append
    ((matches_char.2 (rfl : ['='] = _)).append hvalue.behind_blanks).behind_blanks).behind_blanks
  simpa only [Setter.render, List.append_assoc, List.cons_append, List.nil_append] using this

theorem Setter.comma_not_mem (a : Setter) : ',' ∉ a.render := by
  intro h
  rcases List.mem_append.1 h with h | h
  · exact a.target.not_mem (by decide) h
  · rcases List.mem_cons.1 h with h | h
    · exact absurd h (by decide)
    · exact a.value.not_mem (by decide) h

/-- The last of the pieces between the commas goes on to the end of the line. -/
theorem commas_concat (ps : List Text) (p t : Text) :
    commas (ps ++ [p]) ++ t = commas (ps ++ [p ++ t]) := by
  cases ps with
  | nil => simp [commas_cons]
  | cons q ps => simp [commas_cons]

theorem SetLine.fits_render (l : SetLine) : Kind.assignment.fits l.render = true := by
  obtain ⟨init, last, hclauses⟩ : ∃ init last, l.clauses = init ++ [last] :=
    ⟨_, _, (List.dropLast_concat_getLast (List.cons_ne_nil _ _)).symm⟩
  have hline : l.render = commas (init.map (·.render) ++ [last.render ++ [';']]) := by
    rw [SetLine.render, hclauses, List.map_append, List.map_singleton, commas_concat]
  have hpieces : l.render.splitOn ',' = init.map (·.render) ++ [last.render ++ [';']] := by
    have hlast : ',' ∉ last.render ++ [';'] := by simpa using last.comma_not_mem
    rw [hline]
    apply List.splitOn_intercalate ','
    · exact List.forall_mem_append.2
        ⟨List.forall_mem_map.2 fun a _ => a.comma_not_mem, List.forall_mem_singleton.2 hlast⟩
    · simp
  have hinit : ∀ a ∈ init, Kind.assignment.form.accepts a.render = true := fun a _ =>
    accepts_iff.2 (by simpa using a.matches_form (.inl rfl))
  have hlast : Kind.assignment.form.accepts (last.render ++ [';']) = true :=
    accepts_iff.2 (last.matches_form (.inr rfl))
  show (l.render.splitOn ',').all Kind.assignment.form.accepts = true
  rw [hpieces, List.all_eq_true]
  exact List.forall_mem_append.2 ⟨List.forall_mem_map.2 hinit, List.forall_mem_singleton.2 hlast⟩

theorem SetLine.kind_of_render (l : SetLine) : Kind.of l.render = .ok .assignment := by
  have hlast : l.render.getLast? = some ';' := List.getLast?_concat
  obtain ⟨rest, hline⟩ : ∃ rest, l.render = l.first.target.text ++ '=' :: rest := by
    refine ⟨l.first.value.text ++ (l.others.map (·.render)).flatMap (',' :: ·) ++ [';'], ?_⟩
    simp [SetLine.render, SetLine.clauses, commas_cons, Setter.render]
  obtain ⟨hbehind, hnext⟩ := lead_of_char (c := '=') rest l.first.target.text_ne_nil
    (fun _ => l.first.target.isNamePart) (by decide) (by decide)
  rw [← hline] at hbehind hnext
  exact Kind.of_eq_assignment hlast l.fits_render hbehind hnext

theorem CallLine.getLast?_render (l : CallLine) : l.render.getLast? = some ';' := by
  have hline : l.render =
      l.name.text ++ '(' :: commas (l.arguments.map (·.text)) ++ [')'] ++ [';'] := by
    simp [CallLine.render]
  rw [hline]
  exact List.getLast?_concat

theorem CallLine.kind_of_render (l : CallLine) : Kind.of l.render = .ok .call := by
  have hline : l.render = l.name.text ++ '(' :: (commas (l.arguments.map (·.text)) ++ [')', ';']) := by
    rw [CallLine.render, List.append_assoc, List.cons_append]
  have hlast : l.render.getLast? = some ';' := l.getLast?_render
  have hfits : Kind.call.fits l.render = true := by
    rw [Kind.fits_iff_matches (by decide), hline]
    simp only [Kind.form, matches_assoc]
    have hinside := matches_parenthesized (plain_arguments l.arguments).not_newline
    have hname : (Kind.namePattern .letter).Matches l.name.text := l.name.shape
    have := (hname.append (hinside.append ((matches_char.2 (rfl : [';'] = _)).append
      matches_no_blanks).behind_blanks).behind_blanks).behind_blanks
    simpa only [List.append_assoc, List.cons_append, List.nil_append] using this
  obtain ⟨hbehind, -⟩ := lead_of_char (c := '(')
    (commas (l.arguments.map (·.text)) ++ [')', ';']) l.name.toWord.text_ne_nil
    (fun _ => l.name.toWord.isNamePart) (by decide) (by decide)
  rw [hline] at hlast hfits ⊢
  exact Kind.of_eq_call hlast hfits fun hvoid => hbehind hvoid.2

theorem isTerminated_of_brace (s : Text) : Kind.isTerminated (s ++ ['{']) = true := by
  simp [Kind.isTerminated]

theorem Head.kind_of_render (h : Head) : Kind.of h.render = .ok .condition := by
  have hterm : Kind.isTerminated h.render = true := h.render_eq ▸ isTerminated_of_brace _
  apply Kind.of_eq_condition hterm
  rw [Kind.fits_iff_matches (by decide)]
  simp only [Kind.form, matches_assoc]
  have hbranch : (word Keyword.ifWord ||| word Keyword.whileWord).Matches h.branch.keyword := by
    simp only [matches_or, matches_word]
    cases h.branch <;> simp [Branch.keyword]
  have hinside := matches_parenthesized (h.first.plain_text.append (joined_plain h.others)).not_newline
  have := (hbranch.append (hinside.append ((matches_char.2 (rfl : ['{'] = _)).append
    matches_no_blanks).behind_blanks).behind_blanks).behind_blanks
  simpa only [Head.render, joined, List.append_assoc, List.cons_append, List.nil_append] using this

/-- The parameters of a header are made of words, spaces and commas. -/
theorem contains_params (ps : List Param) : ∀ c ∈ commas (ps.map (·.render)),
    (CharSet.namePart ∪ .blank ∪ .char ',').contains c = true := by
  have hname (c : Char) (hc : Text.isNamePart c = true) :
      (CharSet.namePart ∪ .blank ∪ .char ',').contains c = true := by
    have hpart : CharSet.namePart.contains c = true := hc
    simp [Union.union, CharSet.contains, hpart]
  intro c hc
  rcases mem_commas hc with rfl | ⟨piece, hp, hc⟩
  · decide
  · obtain ⟨p, -, rfl⟩ := List.mem_map.1 hp
    simp only [Param.render, typed, List.mem_append, List.mem_cons] at hc
    rcases hc with (hc | hc) | rfl | hc
    · have hfinal : ∀ d ∈ (if p.isFinal then Keyword.finalWord ++ [' '] else []),
          (CharSet.namePart ∪ .blank ∪ .char ',').contains d = true := by
        cases p.isFinal <;> exact Text.forall_of_all (by decide)
      exact hfinal c hc
    · exact hname c (isNamePart_keyword p.ty c hc)
    · decide
    · exact hname c (p.name.isNamePart hc)

theorem MethodItem.kind_of_header (m : MethodItem) : Kind.of m.header = .ok .methodHeader := by
  have hterm : Kind.isTerminated m.header = true := m.header_eq ▸ isTerminated_of_brace _
  apply Kind.of_eq_header hterm
  rw [Kind.fits_iff_matches (by decide)]
  simp only [Kind.form, matches_assoc]
  have hvoid : (word Keyword.voidWord).Matches Keyword.voidWord := matches_word.2 rfl
  have hinside := matches_parenthesized (contains_params m.params)
  have hname : (Kind.namePattern .letter).Matches m.name.text := m.name.shape
  have := (hvoid.append (matches_space.append (hname.append
    (hinside.append ((matches_char.2 (rfl : ['{'] = _)).append
      matches_no_blanks).behind_blanks).behind_blanks))).behind_blanks
  simpa only [MethodItem.header, List.append_assoc, List.cons_append, List.nil_append] using this

theorem kind_of_blockEnd : Kind.of blockEnd = .ok .scopeEnd := by decide +kernel

/-- The kind of a statement. -/
def Stmt.kind : Stmt → Kind
  | vars _ => .declaration
  | set _ => .assignment
  | call _ => .call
  | ret => .returnStatement

theorem Stmt.kind_of_render (s : Stmt) : Kind.of s.render = .ok s.kind := by
  cases s with
  | vars l => exact l.kind_of_render
  | set l => exact l.kind_of_render
  | call l => exact l.kind_of_render
  | ret => decide +kernel

theorem Stmt.getLast?_render (s : Stmt) : s.render.getLast? = some ';' := by
  cases s with
  | vars l => exact List.getLast?_concat
  | set l => exact List.getLast?_concat
  | call l => exact l.getLast?_render
  | ret => rfl

end SJava.Tree
