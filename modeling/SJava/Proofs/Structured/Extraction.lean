import SJava.Method
import SJava.Statement.Assignment
import SJava.Statement.Call
import SJava.Statement.Condition
import SJava.Proofs.Except
import SJava.Proofs.Structured.Source

/-!
# What the lines of a tree hold

Taken apart, a line of a tree gives back the parts it was written from.

* `Tree.VarLine.ofLine_render`, `Tree.SetLine.allOfLine_render`,
  `Tree.CallLine.ofLine_render`, `Tree.Head.operands_render`,
  `Tree.MethodItem.ofLine_header`.
-/

namespace SJava

/-! ## Pieces -/

namespace Text

theorem splitOnDouble_cons_self (c : Char) (s : Text) :
    splitOnDouble c (c :: c :: s) = [] :: splitOnDouble c s := by
  rw [splitOnDouble, if_pos ⟨rfl, rfl⟩]

theorem splitOnDouble_ne_nil (c : Char) (s : Text) : splitOnDouble c s ≠ [] := by
  unfold splitOnDouble
  repeat' split
  all_goals exact List.cons_ne_nil _ _

theorem splitOnDouble_cons_of_ne {c x : Char} (h : x ≠ c) (s : Text) :
    splitOnDouble c (x :: s) = (splitOnDouble c s).modifyHead (x :: ·) := by
  cases s with
  | nil => rfl
  | cons y s =>
    rw [splitOnDouble, if_neg fun hxy => h hxy.1]
    cases hs : splitOnDouble c (y :: s) with
    | nil => exact absurd hs (splitOnDouble_ne_nil c _)
    | cons piece pieces => rfl

/-- A text without the separator becomes part of the first piece. -/
theorem splitOnDouble_append {c : Char} {s : Text} (h : c ∉ s) (t : Text) :
    splitOnDouble c (s ++ t) = (splitOnDouble c t).modifyHead (s ++ ·) := by
  induction s with
  | nil => cases hs : splitOnDouble c t <;> simp [hs]
  | cons x s ih =>
    have hx : x ≠ c := fun e => h (e ▸ List.mem_cons_self)
    rw [List.cons_append, splitOnDouble_cons_of_ne hx, ih fun hc => h (List.mem_cons_of_mem _ hc),
      List.modifyHead_modifyHead]
    rfl

theorem splitOnDouble_of_not_mem {c : Char} {s : Text} (h : c ∉ s) : splitOnDouble c s = [s] := by
  have hs := splitOnDouble_append h []
  rwa [List.append_nil, splitOnDouble, List.modifyHead_cons, List.append_nil] at hs

theorem statementBody_of_trimmed {u s : Text} (hu : ∀ c ∈ u, isBlank c = true) (hs : IsTrimmed s) :
    statementBody (u ++ s ++ [';']) = s := by
  have hline : IsTrimmed (s ++ [';']) := by
    have := hs.append (t := []) (.of_forall (s := [';']) (by simp) (forall_of_all (by decide)))
    rwa [List.append_nil] at this
  have htrim := trim_around hu hline (v := []) (by simp)
  rw [List.append_nil, ← List.append_assoc] at htrim
  rw [statementBody, htrim, dropFinal, if_pos List.getLast?_concat, List.dropLast_concat, hs.trim_eq]

/-- A blank parts the words in front of it from those behind. -/
theorem words_append_cons {b : Char} (hb : isBlank b = true) (s rest : Text) :
    words (s ++ b :: rest) = words s ++ words rest := by
  rw [words, List.splitOnP_append_cons _ _ hb, List.filter_append, words, words]

theorem words_of_not_blank {w : Text} (hne : w ≠ []) (hw : ∀ c ∈ w, isBlank c = false) :
    words w = [w] := by
  rw [words, List.splitOnP_eq_singleton hw, List.filter_cons_of_pos, List.filter_nil]
  simpa using hne

/-- A word in front of a blank is the first word of a text. -/
theorem words_append {w : Text} {b : Char} (hne : w ≠ []) (hw : ∀ c ∈ w, isBlank c = false)
    (hb : isBlank b = true) (rest : Text) : words (w ++ b :: rest) = w :: words rest := by
  rw [words_append_cons hb, words_of_not_blank hne hw, List.singleton_append]

/-- Where the word ends that stands in front of a blank. -/
theorem takeWhile_word {w : Text} {b : Char} (hw : ∀ c ∈ w, isBlank c = false) (hb : isBlank b = true)
    (rest : Text) :
    (w ++ b :: rest).takeWhile (!isBlank ·) = w ∧
      (w ++ b :: rest).dropWhile (!isBlank ·) = b :: rest := by
  have hword : ∀ c ∈ w, (!isBlank c) = true := fun c hc => by rw [hw c hc]; rfl
  have hblank : ¬(!isBlank b) = true := by rw [hb]; decide
  rw [List.takeWhile_append_of_pos hword, List.dropWhile_append_of_pos hword,
    List.takeWhile_cons_of_neg (p := (!isBlank ·)) hblank,
    List.dropWhile_cons_of_neg (p := (!isBlank ·)) hblank, List.append_nil]
  exact ⟨rfl, rfl⟩

/-- What follows a word and the blanks behind it. -/
theorem afterWord?_append {w : Text} {b : Char} (hne : w ≠ []) (hw : ∀ c ∈ w, isBlank c = false)
    (hb : isBlank b = true) (rest : Text) : afterWord? w (w ++ b :: rest) = some (trimStart rest) := by
  have hstart : trimStart (w ++ b :: rest) = w ++ b :: rest := by
    cases w with
    | nil => exact absurd rfl hne
    | cons d w => exact trimStart_eq_self rfl (hw d List.mem_cons_self)
  have hprefix : w.isPrefixOf? (w ++ b :: rest) = some (b :: rest) := isPrefixOf?_eq_some_iff.2 rfl
  simp only [afterWord?, hstart, hprefix]
  rw [if_pos hb]

end Text

namespace Declaration

theorem takeFinal_append {b : Char} (hb : Text.isBlank b = true) (rest : Text) :
    takeFinal (Keyword.finalWord ++ b :: rest) = (true, Text.trimStart rest) := by
  rw [takeFinal, Text.afterWord?_append (by decide) (Text.forall_of_all (by decide)) hb]

theorem takeFinal_of_lead {s : Text} (h : Text.leadWord s ≠ Keyword.finalWord) :
    takeFinal s = (false, s) := by
  have hafter : Text.afterWord? Keyword.finalWord s = none := by
    rw [← Option.not_isSome_iff_eq_none]
    exact fun hs => h (Text.lead_of_afterWord? (by decide) (Text.forall_of_all (by decide)) hs).1
  rw [takeFinal, hafter]

end Declaration

namespace Tree

/-- Pieces that are read back from what they are written as. -/
theorem mapM_map {α β γ : Type} {f : β → Except Fault γ} {g : α → β} {k : α → γ} {xs : List α}
    (h : ∀ x, f (g x) = .ok (k x)) : (xs.map g).mapM f = .ok (xs.map k) := by
  rw [mapM_eq_ok_iff, List.forall₂_map_left_iff, List.forall₂_map_right_iff, List.forall₂_same]
  exact fun x _ => h x

theorem isTrimmed_commas {pieces : List Text} (hne : pieces ≠ [])
    (h : ∀ piece ∈ pieces, Text.IsTrimmed piece) : Text.IsTrimmed (commas pieces) := by
  induction pieces with
  | nil => exact absurd rfl hne
  | cons p ps ih =>
    obtain ⟨hp, hps⟩ := List.forall_mem_cons.1 h
    cases ps with
    | nil => simpa [commas] using hp
    | cons q ps =>
      rw [commas, List.intercalate_cons_cons]
      exact hp.append (ih (List.cons_ne_nil q ps) hps)

theorem splitOn_commas {pieces : List Text} (hne : pieces ≠ []) (h : ∀ piece ∈ pieces, ',' ∉ piece) :
    (commas pieces).splitOn ',' = pieces :=
  List.splitOn_intercalate ',' h hne

/-- Pieces between parentheses, of which there is one at least. -/
theorem splitOn_trim_commas {pieces : List Text} (hne : pieces ≠ [])
    (htrim : ∀ piece ∈ pieces, Text.IsTrimmed piece) (hcomma : ∀ piece ∈ pieces, ',' ∉ piece) :
    Text.trim (commas pieces) ≠ [] ∧ (Text.trim (commas pieces)).splitOn ',' = pieces := by
  have hpieces := isTrimmed_commas hne htrim
  rw [hpieces.trim_eq]
  exact ⟨hpieces.ne_nil, splitOn_commas hne hcomma⟩

theorem Word.isTrimmed (w : Word) : Text.IsTrimmed w.text :=
  .of_forall w.text_ne_nil fun _ => w.isBlank

theorem Value.isTrimmed (v : Value) : Text.IsTrimmed v.text :=
  .of_forall v.text_ne_nil fun _ => v.isBlank

/-! ## Declarations and assignments -/

/-- The clause that is read back. -/
def Declarator.clause (d : Declarator) : Clause := ⟨d.name.text, d.value.map (·.text)⟩

theorem Declarator.ofText_render (d : Declarator) : Clause.ofText d.render = .ok d.clause := by
  have hname : '=' ∉ d.name.text := d.name.not_mem (by decide)
  rw [Declarator.render, Declarator.clause]
  cases d.value with
  | none =>
    have hsplit := List.splitOn_eq_singleton hname
    simp [Clause.ofText, hsplit, d.name.isTrimmed.trim_eq]
  | some v =>
    have hsplit : (d.name.text ++ '=' :: v.text).splitOn '=' = [d.name.text, v.text] := by
      rw [List.splitOn_append_cons_self, List.splitOn_eq_singleton hname,
        List.splitOn_eq_singleton (v.not_mem (by decide)), List.singleton_append]
    simp [Clause.ofText, hsplit, d.name.isTrimmed.trim_eq, v.isTrimmed.trim_eq]

theorem Declarator.isTrimmed (d : Declarator) : Text.IsTrimmed d.render := by
  rw [Declarator.render]
  cases d.value with
  | none => exact d.name.isTrimmed
  | some v => simpa using d.name.isTrimmed.append (t := ['=']) v.isTrimmed

theorem Declarator.comma_not_mem (d : Declarator) : ',' ∉ d.render := by
  have hname : ',' ∉ d.name.text := d.name.not_mem (by decide)
  rw [Declarator.render]
  cases d.value with
  | none => exact hname
  | some v =>
    have hvalue : ',' ∉ v.text := v.not_mem (by decide)
    simp [hname, hvalue]

/-- The clauses of a declaration, as they stand between its commas. -/
theorem VarLine.mapM_clauses (l : VarLine) :
    ((commas (l.clauses.map (·.render))).splitOn ',').mapM Clause.ofText =
      .ok (l.clauses.map (·.clause)) := by
  rw [splitOn_commas (by simp [clauses]) (List.forall_mem_map.2 fun d _ => d.comma_not_mem)]
  exact mapM_map Declarator.ofText_render

theorem takeFinal_typed (isFinal : Bool) (ty : Ty) (rest : Text) :
    Declaration.takeFinal (typed isFinal ty ++ ' ' :: rest) = (isFinal, ty.keyword ++ ' ' :: rest) := by
  have hne := keyword_ne_nil ty
  have hname := isNamePart_keyword ty
  cases isFinal with
  | true =>
    obtain ⟨c, w, hw, hc⟩ := exists_cons_of_name hne hname
    have hline : typed true ty ++ ' ' :: rest =
        Keyword.finalWord ++ ' ' :: (ty.keyword ++ ' ' :: rest) := by simp [typed]
    rw [hline, Declaration.takeFinal_append (by decide), hw]
    exact congrArg (true, ·) (Text.trimStart_eq_self rfl (CharSet.isBlank_of_namePart hc))
  | false =>
    have hline : typed false ty ++ ' ' :: rest = ty.keyword ++ ' ' :: rest := by simp [typed]
    rw [hline]
    refine Declaration.takeFinal_of_lead ?_
    rw [(Text.lead_of_name (' ' :: rest) hne hname fun x hx => by cases hx; decide).1]
    cases ty <;> decide

theorem isTrimmed_typed (isFinal : Bool) (ty : Ty) : Text.IsTrimmed (typed isFinal ty) := by
  cases isFinal <;> cases ty <;> exact ⟨⟨_, rfl, by decide⟩, ⟨_, rfl, by decide⟩⟩

theorem isTrimmed_declaration (isFinal : Bool) (ty : Ty) (body : Text) :
    Text.IsTrimmed (typed isFinal ty ++ ' ' :: (body ++ [';'])) := by
  have hend : Text.IsTrimmed [';'] := .of_forall (by simp) (Text.forall_of_all (by decide))
  simpa using (isTrimmed_typed isFinal ty).append (t := ' ' :: body) hend

/-- A declaration is cut at the commas behind its type. -/
theorem ofLine_typed (isFinal : Bool) (ty : Ty) {body : Text} (hbody : Text.IsTrimmed body) :
    Declaration.ofLine (typed isFinal ty ++ ' ' :: (body ++ [';'])) =
      ((body.splitOn ',').mapM Clause.ofText).map (Declaration.mk isFinal ty.keyword) := by
  obtain ⟨htake, hdrop⟩ := Text.takeWhile_word
    (fun c hc => CharSet.isBlank_of_namePart (isNamePart_keyword ty c hc)) (b := ' ') (by decide)
    (body ++ [';'])
  have hstatement : Text.statementBody (' ' :: (body ++ [';'])) = body :=
    Text.statementBody_of_trimmed (u := [' ']) (Text.forall_of_all (by decide)) hbody
  rw [Declaration.ofLine, (isTrimmed_declaration isFinal ty body).trim_eq, takeFinal_typed]
  simp only [htake, hdrop, hstatement, List.isEmpty_iff, keyword_ne_nil, if_false]
  cases (body.splitOn ',').mapM Clause.ofText <;> rfl

theorem VarLine.ofLine_render (l : VarLine) :
    Declaration.ofLine l.render = .ok ⟨l.isFinal, l.ty.keyword, l.clauses.map (·.clause)⟩ := by
  have hline : l.render =
      typed l.isFinal l.ty ++ ' ' :: (commas (l.clauses.map (·.render)) ++ [';']) := by
    simp [render]
  have hne : l.clauses.map (·.render) ≠ [] := by simp [clauses]
  have hbody := isTrimmed_commas hne (List.forall_mem_map.2 fun d _ => d.isTrimmed)
  rw [hline, ofLine_typed l.isFinal l.ty hbody, l.mapM_clauses]
  rfl

/-- The assignment that is read back. -/
def Setter.assignment (a : Setter) : Assignment := ⟨a.target.text, a.value.text⟩

theorem Setter.ofText_render (a : Setter) : Assignment.ofText a.render = .ok a.assignment := by
  have hsplit : a.render.splitOn '=' = [a.target.text, a.value.text] := by
    rw [render, List.splitOn_append_cons_self, List.splitOn_eq_singleton (a.target.not_mem (by decide)),
      List.splitOn_eq_singleton (a.value.not_mem (by decide)), List.singleton_append]
  simp [Assignment.ofText, hsplit, a.target.isTrimmed.trim_eq, a.value.isTrimmed.trim_eq, assignment]

theorem Setter.isTrimmed (a : Setter) : Text.IsTrimmed a.render := by
  simpa [render] using a.target.isTrimmed.append (t := ['=']) a.value.isTrimmed

theorem SetLine.allOfLine_render (l : SetLine) :
    Assignment.allOfLine l.render = .ok (l.clauses.map (·.assignment)) := by
  have hne : l.clauses.map (·.render) ≠ [] := by simp [clauses]
  have hbody : Text.statementBody l.render = commas (l.clauses.map (·.render)) := by
    have hclauses := isTrimmed_commas hne (List.forall_mem_map.2 fun a _ => a.isTrimmed)
    exact Text.statementBody_of_trimmed (u := []) (by simp) hclauses
  rw [Assignment.allOfLine, hbody, splitOn_commas hne (List.forall_mem_map.2 fun a _ => a.comma_not_mem)]
  exact mapM_map Setter.ofText_render

/-! ## Calls and conditions -/

/-- What stands between the first parenthesis and the last one. -/
theorem parenthesized_append {front back : Text} (inside : Text) (hfront : '(' ∉ front)
    (hback : ')' ∉ back) :
    Text.parenthesized (front ++ '(' :: (inside ++ ')' :: back)) = .ok (front, inside) := by
  have hcut : Text.cut? '(' (front ++ '(' :: (inside ++ ')' :: back)) =
      some (front, inside ++ ')' :: back) :=
    Text.cut?_eq_some_iff.2 ⟨rfl, hfront⟩
  have hlast : Text.beforeLast? ')' (inside ++ ')' :: back) = some inside :=
    Text.beforeLast?_eq_some_iff.2 ⟨back, rfl, hback⟩
  simp only [Text.parenthesized, hcut, hlast]

theorem CallLine.ofLine_render (l : CallLine) :
    Call.ofLine l.render = .ok ⟨l.name.text, l.arguments.map (·.text)⟩ := by
  have hline : l.render =
      l.name.text ++ '(' :: (commas (l.arguments.map (·.text)) ++ ')' :: [';']) := by
    simp [render]
  have hopen : '(' ∉ l.name.text := l.name.toWord.not_mem (by decide)
  have hclose : ')' ∉ [';'] := by decide
  have hparts := parenthesized_append (commas (l.arguments.map (·.text))) hopen hclose
  have hname : Text.trim l.name.text = l.name.text := l.name.toWord.isTrimmed.trim_eq
  rw [Call.ofLine, hline, hparts]
  cases hargs : l.arguments with
  | nil => simp [bind, Except.bind, pure, Except.pure, commas, hname, Text.trim_eq_nil_iff.2]
  | cons v vs =>
    have hne : (v :: vs).map (·.text) ≠ [] := by simp
    have hcomma : ∀ w ∈ v :: vs, ',' ∉ w.text := fun w _ => w.not_mem (by decide)
    obtain ⟨hinside, hsplit⟩ := splitOn_trim_commas hne
      (List.forall_mem_map.2 fun w _ => w.isTrimmed) (List.forall_mem_map.2 hcomma)
    have hpieces : ((v :: vs).map (·.text)).map Text.trim = (v :: vs).map (·.text) := by
      rw [List.map_map]
      exact List.map_congr_left fun w _ => w.isTrimmed.trim_eq
    simp only [bind, Except.bind, pure, Except.pure, hname, hsplit, hpieces, List.isEmpty_iff,
      hinside, if_false]

/-- Texts with what joins each to those before in front of it. -/
def joinedTexts (others : List (Joint × Text)) : Text := others.flatMap fun o => o.1.render ++ o.2

/-- Texts that are joined are what is cut apart, at the doubled bars first. -/
theorem flatMap_splitOnDouble_joinedTexts {p : Text} {others : List (Joint × Text)}
    (h : ∀ q ∈ p :: others.map (·.2), '|' ∉ q ∧ '&' ∉ q) :
    (Text.splitOnDouble '|' (p ++ joinedTexts others)).flatMap (Text.splitOnDouble '&') =
      p :: others.map (·.2) := by
  induction others generalizing p with
  | nil =>
    obtain ⟨hbar, hamp⟩ := h p List.mem_cons_self
    simp [joinedTexts, Text.splitOnDouble_of_not_mem hbar, Text.splitOnDouble_of_not_mem hamp]
  | cons o others ih =>
    obtain ⟨j, q⟩ := o
    obtain ⟨⟨hbar, hamp⟩, hothers⟩ := List.forall_mem_cons.1 h
    have hjoined : joinedTexts ((j, q) :: others) = j.render ++ (q ++ joinedTexts others) := by
      simp [joinedTexts]
    rw [hjoined, List.map_cons, ← ih hothers, Text.splitOnDouble_append hbar]
    cases j with
    | or =>
      show ((Text.splitOnDouble '|' ('|' :: '|' :: (q ++ joinedTexts others))).modifyHead _).flatMap _ = _
      rw [Text.splitOnDouble_cons_self, List.modifyHead_cons, List.flatMap_cons, List.append_nil,
        Text.splitOnDouble_of_not_mem hamp, List.singleton_append]
    | and =>
      rw [Text.splitOnDouble_append (s := Joint.and.render) (by decide), List.modifyHead_modifyHead]
      cases hrest : Text.splitOnDouble '|' (q ++ joinedTexts others) with
      | nil => exact absurd hrest (Text.splitOnDouble_ne_nil _ _)
      | cons piece pieces =>
        rw [List.modifyHead_cons, List.flatMap_cons, List.flatMap_cons]
        show Text.splitOnDouble '&' (p ++ '&' :: '&' :: piece) ++ _ = _
        rw [Text.splitOnDouble_append hamp, Text.splitOnDouble_cons_self, List.modifyHead_cons,
          List.append_nil, List.cons_append]

/-- The operands of a condition are what it is cut into. -/
theorem flatMap_splitOnDouble (v : Value) (others : List (Joint × Value)) :
    (Text.splitOnDouble '|' (v.text ++ joined others)).flatMap (Text.splitOnDouble '&') =
      v.text :: others.map (·.2.text) := by
  have hjoined : joined others = joinedTexts (others.map fun o => (o.1, o.2.text)) := by
    simp [joined, joinedTexts, List.flatMap_map]
  have htexts : (others.map fun o => (o.1, o.2.text)).map (·.2) = others.map (·.2.text) := by simp
  have hplain (v : Value) : '|' ∉ v.text ∧ '&' ∉ v.text := ⟨v.not_mem (by decide), v.not_mem (by decide)⟩
  rw [hjoined, flatMap_splitOnDouble_joinedTexts, htexts]
  rw [htexts, List.forall_mem_cons, List.forall_mem_map]
  exact ⟨hplain v, fun o _ => hplain o.2⟩

theorem Head.operands_render (h : Head) :
    Condition.operands h.render = .ok (h.operands.map (·.text)) := by
  have hline : h.render =
      h.branch.keyword ++ '(' :: ((h.first.text ++ joined h.others) ++ ')' :: ['{']) := by
    simp [render, joined]
  have hopen : '(' ∉ h.branch.keyword := by cases h.branch <;> decide
  have hclose : ')' ∉ ['{'] := by decide
  have hparts := parenthesized_append (h.first.text ++ joined h.others) hopen hclose
  have htexts : h.first.text :: h.others.map (·.2.text) = h.operands.map (·.text) := by
    simp [operands]
  have htrim : (h.operands.map (·.text)).map Text.trim = h.operands.map (·.text) := by
    rw [List.map_map]
    exact List.map_congr_left fun v _ => v.isTrimmed.trim_eq
  have hempty : (h.operands.map (·.text)).any (·.isEmpty) = false := by
    simp [List.any_eq_false, Value.text_ne_nil]
  rw [Condition.operands, hline, hparts]
  simp only [bind, Except.bind, flatMap_splitOnDouble, htexts, htrim, hempty]
  rfl

/-! ## Headers -/

/-- The parameter that is read back. -/
def Param.parameter (p : Param) : Parameter := ⟨p.isFinal, p.ty.keyword, p.name.text⟩

theorem Param.ofText_render (p : Param) : Parameter.ofText p.render = .ok p.parameter := by
  have hname : Text.words p.name.text = [p.name.text] :=
    Text.words_of_not_blank p.name.text_ne_nil fun _ => p.name.isBlank
  have htyped : Text.words (p.ty.keyword ++ ' ' :: p.name.text) = [p.ty.keyword, p.name.text] := by
    have hkeyword : ∀ c ∈ p.ty.keyword, Text.isBlank c = false :=
      fun c hc => CharSet.isBlank_of_namePart (isNamePart_keyword p.ty c hc)
    rw [Text.words_append (keyword_ne_nil p.ty) hkeyword (by decide), hname]
  rw [render, parameter]
  cases p.isFinal with
  | false => simp [typed, Parameter.ofText, htyped]
  | true =>
    have hwords : Text.words (Keyword.finalWord ++ ' ' :: (p.ty.keyword ++ ' ' :: p.name.text)) =
        [Keyword.finalWord, p.ty.keyword, p.name.text] := by
      rw [Text.words_append (by decide) (Text.forall_of_all (by decide)) (by decide), htyped]
    simp [typed, Parameter.ofText, hwords]

theorem Param.isTrimmed (p : Param) : Text.IsTrimmed p.render := by
  simpa [render] using (isTrimmed_typed p.isFinal p.ty).append (t := [' ']) p.name.isTrimmed

/-- A header holds no comma and no parenthesis but those around and between its
parameters. -/
theorem Param.not_mem (p : Param) {c : Char} (hc : Text.isNamePart c = false)
    (hblank : c ≠ ' ') : c ∉ p.render := by
  have hfinal : c ∉ Keyword.finalWord := fun h => by
    have hfinal : ∀ d ∈ Keyword.finalWord, Text.isNamePart d = true := Text.forall_of_all (by decide)
    rw [hfinal c h] at hc
    cases hc
  have hkeyword : c ∉ p.ty.keyword := fun h => by
    rw [isNamePart_keyword p.ty c h] at hc
    cases hc
  have hname : c ∉ p.name.text := p.name.not_mem hc
  rw [render, typed]
  cases p.isFinal <;> simp [hfinal, hkeyword, hname, hblank]

/-- What stands between the first parentheses. -/
theorem parts?_append {front inside : Text} (back : Text) (hopen : '(' ∉ front) (hclose : ')' ∉ front)
    (hinside : ')' ∉ inside) :
    Header.parts? (front ++ '(' :: (inside ++ ')' :: back)) = some (front, inside) := by
  have hcut : Text.cut? '(' (front ++ '(' :: (inside ++ ')' :: back)) =
      some (front, inside ++ ')' :: back) :=
    Text.cut?_eq_some_iff.2 ⟨rfl, hopen⟩
  have hcut' : Text.cut? ')' (inside ++ ')' :: back) = some (inside, back) :=
    Text.cut?_eq_some_iff.2 ⟨rfl, hinside⟩
  simp only [Header.parts?, hcut, hcut', bind, Option.bind, hclose, if_false]
  rfl

theorem MethodItem.ofLine_header (m : MethodItem) :
    Header.ofLine m.header = .ok ⟨m.name.text, m.params.map (·.parameter)⟩ := by
  have hline : m.header = Keyword.voidWord ++
      (' ' :: m.name.text ++ '(' :: (commas (m.params.map (·.render)) ++ ')' :: ['{'])) := by
    simp [header]
  have hsignature : Keyword.voidWord.isPrefixOf? (Text.trim m.header) =
      some (' ' :: m.name.text ++ '(' :: (commas (m.params.map (·.render)) ++ ')' :: ['{'])) := by
    rw [m.isLine.trimmed.trim_eq, hline]
    exact Text.isPrefixOf?_eq_some_iff.2 rfl
  have hinside : ')' ∉ commas (m.params.map (·.render)) := fun h => by
    rcases mem_commas h with h | ⟨piece, hp, hc⟩
    · exact absurd h (by decide)
    · obtain ⟨p, -, rfl⟩ := List.mem_map.1 hp
      exact p.not_mem (by decide) (by decide) hc
  have hfront {c : Char} (hc : Text.isNamePart c = false) (hne : c ≠ ' ') : c ∉ ' ' :: m.name.text := by
    have hname : c ∉ m.name.text := m.name.toWord.not_mem hc
    simp [hname, hne]
  have hopen : '(' ∉ ' ' :: m.name.text := hfront (by decide) (by decide)
  have hclose : ')' ∉ ' ' :: m.name.text := hfront (by decide) (by decide)
  have hparts := parts?_append ['{'] hopen hclose hinside
  have hname : Text.trim (' ' :: m.name.text) = m.name.text := by
    have := Text.trim_around (u := [' ']) (v := []) (Text.forall_of_all (by decide))
      m.name.toWord.isTrimmed (by simp)
    rwa [List.append_nil] at this
  rw [Header.ofLine, hsignature]
  simp only [hparts, bind, Except.bind, hname]
  cases hparams : m.params with
  | nil => simp [commas, Text.trim_eq_nil_iff.2, pure, Except.pure]
  | cons p ps =>
    have hne : (p :: ps).map (·.render) ≠ [] := by simp
    have hcomma : ∀ q ∈ p :: ps, ',' ∉ q.render := fun q _ => q.not_mem (by decide) (by decide)
    obtain ⟨hsome, hsplit⟩ := splitOn_trim_commas hne
      (List.forall_mem_map.2 fun q _ => q.isTrimmed) (List.forall_mem_map.2 hcomma)
    simp only [hsplit, mapM_map Param.ofText_render, List.isEmpty_iff, hsome, if_false]
    rfl

end Tree

end SJava
