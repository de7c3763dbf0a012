import SJava.Check.Program
import SJava.Config
import SJava.Proofs.Structured.Lines

/-!
# The text of a tree as a source

Read as a source, the text of a tree gives back its lines, and their braces balance.

* `Tree.Program.script_render`: the script of the text;
* `Tree.Program.checkBalance_render`: its braces balance.
-/

namespace SJava

/-! ## Braces -/

namespace Text

/-- Leaving out the quoted parts of a line adds nothing to it. -/
theorem joinUnquoted_sublist (pieces : List Text) :
    (joinUnquoted pieces).Sublist (['"'].intercalate pieces) := by
  induction pieces using joinUnquoted.induct with
  | case1 => exact .refl _
  | case2 outside =>
    have heq : joinUnquoted [outside] = ['"'].intercalate [outside] := by
      rw [joinUnquoted, List.intercalate_singleton]
    exact heq ▸ List.Sublist.refl _
  | case3 outside unclosed =>
    have heq : joinUnquoted [outside, unclosed] = ['"'].intercalate [outside, unclosed] := by
      rw [joinUnquoted, List.intercalate_cons_cons, List.intercalate_singleton, List.append_assoc,
        List.singleton_append]
    exact heq ▸ List.Sublist.refl _
  | case4 outside inside pieces hne ih =>
    cases pieces with
    | nil => exact absurd rfl hne
    | cons p ps =>
      rw [joinUnquoted, List.intercalate_cons_cons, List.intercalate_cons_cons, List.append_assoc]
      · refine (List.Sublist.refl outside).append ?_
        rw [List.append_assoc]
        exact ((ih.trans (List.sublist_append_right _ _)).trans (List.sublist_append_right _ _)).trans
          (List.sublist_append_right _ _)
      · exact hne

theorem unquoted_sublist (line : Text) : (unquoted line).Sublist line := by
  have h := joinUnquoted_sublist (line.splitOn '"')
  rw [List.intercalate_splitOn] at h
  exact h

end Text

theorem Braces.foldl_weight_of_plain {s : Text} (h : Tree.Plain s) :
    s.foldl (fun n c => n + weight c) 0 = 0 := by
  induction s with
  | nil => rfl
  | cons c s ih =>
    obtain ⟨-, hopen, hclose⟩ := h c List.mem_cons_self
    rw [List.foldl_cons, weight, if_neg hopen, if_neg hclose, Int.add_zero]
    exact ih fun d hd => h d (List.mem_cons_of_mem _ hd)

namespace Tree

theorem Plain.sublist {s t : Text} (h : Plain t) (hs : s.Sublist t) : Plain s :=
  fun c hc => h c (hs.subset hc)

theorem Plain.balance {s : Text} (h : Plain s) : Braces.balance s = 0 :=
  Braces.foldl_weight_of_plain (h.sublist (Text.unquoted_sublist s))

/-- A header has one brace. -/
theorem Plain.balance_append {s : Text} (h : Plain s) : Braces.balance (s ++ ['{']) = 1 := by
  have hlast : (Text.unquoted (s ++ ['{'])).getLast? = some '{' :=
    Text.getLast?_unquoted List.getLast?_concat (by decide)
  obtain ⟨u, hu⟩ := List.getLast?_eq_some_iff.1 hlast
  have hsub := Text.unquoted_sublist (s ++ ['{'])
  rw [hu, List.append_sublist_append_right] at hsub
  rw [Braces.balance, hu, List.foldl_append, Braces.foldl_weight_of_plain (h.sublist hsub)]
  rfl

theorem balance_blockEnd : Braces.balance blockEnd = -1 := by decide

/-- The balance behind some lines, if it is `n` in front of them. -/
def balanceBehind (n : Int) (lines : List Text) : Int := lines.foldl (fun n l => n + Braces.balance l) n

@[simp] theorem balanceBehind_nil (n : Int) : balanceBehind n [] = n := rfl

@[simp] theorem balanceBehind_cons (n : Int) (line : Text) (lines : List Text) :
    balanceBehind n (line :: lines) = balanceBehind (n + Braces.balance line) lines := rfl

@[simp] theorem balanceBehind_append (n : Int) (xs ys : List Text) :
    balanceBehind n (xs ++ ys) = balanceBehind (balanceBehind n xs) ys := List.foldl_append

theorem Body.balanceBehind_lines (n : Int) (b : Body) : balanceBehind n b.lines = n := by
  induction b generalizing n with
  | done => rfl
  | stmt s rest ih => rw [lines, balanceBehind_cons, s.plain.balance, Int.add_zero, ih]
  | block head inner rest ihInner ih =>
    rw [lines, balanceBehind_cons, balanceBehind_append, ihInner, balanceBehind_cons, ih,
      head.render_eq, head.plain.balance_append, balance_blockEnd]
    omega

theorem Item.balanceBehind_lines (n : Int) (i : Item) : balanceBehind n i.lines = n := by
  cases i with
  | vars l => simp [lines, l.plain.balance]
  | set l => simp [lines, l.plain.balance]
  | method m =>
    rw [lines, balanceBehind_cons, balanceBehind_append, m.body.balanceBehind_lines, m.header_eq,
      m.plain.balance_append, balanceBehind_cons, balance_blockEnd, balanceBehind_nil]
    omega

theorem Program.balanceBehind_lines (n : Int) (p : Program) :
    balanceBehind n (Program.lines p) = n := by
  induction p with
  | nil => rfl
  | cons i p ih =>
    rw [Program.lines, List.flatMap_cons, balanceBehind_append, i.balanceBehind_lines]
    exact ih

/-! ## Lines -/

/-- A line that is read as it stands. -/
structure IsLine (marker line : Text) : Prop where
  trimmed : Text.IsTrimmed line
  newline_not_mem : '\n' ∉ line
  not_comment : marker.isPrefixOf line = false

theorem IsLine.not_ignored {marker line : Text} (h : IsLine marker line) :
    Reading.isIgnored marker line = false := by
  obtain ⟨c, hc, hb⟩ := h.trimmed.head
  obtain ⟨t, rfl⟩ := List.head?_eq_some_iff.1 hc
  rw [Reading.isIgnored, h.not_comment, List.all_cons, hb]
  rfl

/-- What comments start with by default. -/
def marker : Text := ({} : Config).marker

/-- A text that starts with a word is no comment. -/
theorem not_comment_of_word {w : Text} (rest : Text) (hw : w ≠ [])
    (hname : ∀ c ∈ w, Text.isNamePart c = true) : marker.isPrefixOf (w ++ rest) = false := by
  obtain ⟨c, r, rfl, hc⟩ := exists_cons_of_name hw hname
  have hne : ('/' == c) = false := by
    rw [beq_eq_false_iff_ne]
    rintro rfl
    exact absurd hc (by decide)
  show (('/' == c) && _) = false
  rw [hne, Bool.false_and]

/-- A line that starts with a word and ends in one of the characters it may. -/
theorem isLine_of_word {w t : Text} {e : Char} (hw : w ≠ []) (hname : ∀ c ∈ w, Text.isNamePart c = true)
    (ht : Plain t) (he : Text.isBlank e = false) : IsLine marker (w ++ t ++ [e]) := by
  refine ⟨.append (.of_forall hw fun d hd => CharSet.isBlank_of_namePart (hname d hd))
    (.of_forall (by simp) (by simpa using he)), fun hmem => ?_, ?_⟩
  · rcases List.mem_append.1 hmem with hmem | hmem
    · have hplain := (Plain.of_name hname).append ht
      exact absurd (hplain.not_newline _ hmem) (by decide)
    · rw [← List.mem_singleton.1 hmem] at he
      exact absurd he (by decide)
  · rw [List.append_assoc]
    exact not_comment_of_word _ hw hname

theorem isLine_of_typed {isFinal : Bool} {ty : Ty} {t : Text} {e : Char} (ht : Plain t)
    (he : Text.isBlank e = false) : IsLine marker (typed isFinal ty ++ t ++ [e]) := by
  cases isFinal with
  | false => exact isLine_of_word (keyword_ne_nil ty) (isNamePart_keyword ty) ht he
  | true =>
    have htail : Plain (' ' :: ty.keyword ++ t) :=
      .append (.cons (by decide) (.of_name (isNamePart_keyword ty))) ht
    have hfinal : ∀ c ∈ Keyword.finalWord, Text.isNamePart c = true := Text.forall_of_all (by decide)
    have hline := isLine_of_word (by decide) hfinal htail he
    simpa only [typed, if_true, List.append_assoc, List.cons_append, List.nil_append] using hline

theorem Stmt.isLine (s : Stmt) : IsLine marker s.render := by
  cases s with
  | vars l =>
    exact isLine_of_typed (.cons (by decide) (.commas_map Declarator.plain _)) (by decide)
  | set l =>
    have hrest : Plain ('=' :: l.first.value.text ++ (l.others.map (·.render)).flatMap (',' :: ·)) := by
      refine .append (.cons (by decide) l.first.value.plain_text) fun c hc => ?_
      obtain ⟨piece, hp, hc⟩ := List.mem_flatMap.1 hc
      obtain ⟨a, -, rfl⟩ := List.mem_map.1 hp
      exact Plain.cons (by decide) a.plain c hc
    have hline := isLine_of_word l.first.target.text_ne_nil (fun _ => l.first.target.isNamePart) hrest
      (show Text.isBlank ';' = false by decide)
    simpa [Stmt.render, SetLine.render, SetLine.clauses, Setter.render, commas_cons] using hline
  | call l =>
    have hrest : Plain ('(' :: commas (l.arguments.map (·.text)) ++ [')']) :=
      .append (.cons (by decide) (plain_arguments _)) (.cons (by decide) .nil)
    have hline := isLine_of_word l.name.toWord.text_ne_nil (fun _ => l.name.toWord.isNamePart) hrest
      (show Text.isBlank ';' = false by decide)
    simpa [Stmt.render, CallLine.render, MethodName.toWord] using hline
  | ret =>
    have hreturn : ∀ c ∈ Keyword.returnWord, Text.isNamePart c = true := Text.forall_of_all (by decide)
    exact isLine_of_word (by decide) hreturn .nil (by decide)

theorem Head.isLine (h : Head) : IsLine marker h.render := by
  have hbranch : h.branch.keyword ≠ [] ∧ ∀ c ∈ h.branch.keyword, Text.isNamePart c = true := by
    cases h.branch <;> exact ⟨by decide, Text.forall_of_all (by decide)⟩
  have hrest : Plain ('(' :: h.first.text ++ joined h.others ++ [')']) :=
    .append (.append (.cons (by decide) h.first.plain_text) (joined_plain _)) (.cons (by decide) .nil)
  have hline := isLine_of_word hbranch.1 hbranch.2 hrest (show Text.isBlank '{' = false by decide)
  simpa [Head.render, joined] using hline

theorem MethodItem.isLine (m : MethodItem) : IsLine marker m.header := by
  have hparams : Plain (commas (m.params.map (·.render))) := .commas_map Param.plain _
  have hrest : Plain (' ' :: m.name.text ++ '(' :: commas (m.params.map (·.render)) ++ [')']) :=
    .append (.append (.cons (by decide) m.name.toWord.plain) (.cons (by decide) hparams))
      (.cons (by decide) .nil)
  have hvoid : ∀ c ∈ Keyword.voidWord, Text.isNamePart c = true := Text.forall_of_all (by decide)
  have hline := isLine_of_word (by decide) hvoid hrest (show Text.isBlank '{' = false by decide)
  simpa [MethodItem.header] using hline

theorem isLine_blockEnd : IsLine marker blockEnd :=
  ⟨.of_forall (by decide) (Text.forall_of_all (by decide)), by decide, by decide⟩

theorem Body.isLine (b : Body) : ∀ line ∈ b.lines, IsLine marker line := by
  induction b with
  | done => exact fun line hline => absurd hline List.not_mem_nil
  | stmt s rest ih => exact List.forall_mem_cons.2 ⟨s.isLine, ih⟩
  | block head inner rest ihInner ih =>
    refine List.forall_mem_cons.2 ⟨head.isLine, List.forall_mem_append.2 ⟨ihInner, ?_⟩⟩
    exact List.forall_mem_cons.2 ⟨isLine_blockEnd, ih⟩

theorem Item.isLine (i : Item) : ∀ line ∈ i.lines, IsLine marker line := by
  cases i with
  | vars l => exact List.forall_mem_singleton.2 (Stmt.vars l).isLine
  | set l => exact List.forall_mem_singleton.2 (Stmt.set l).isLine
  | method m =>
    refine List.forall_mem_cons.2 ⟨m.isLine, List.forall_mem_append.2 ⟨m.body.isLine, ?_⟩⟩
    exact List.forall_mem_singleton.2 isLine_blockEnd

theorem Program.isLine (p : Program) : ∀ line ∈ Program.lines p, IsLine marker line := by
  intro line hline
  obtain ⟨i, -, hline⟩ := List.mem_flatMap.1 hline
  exact i.isLine line hline

/-! ## The script -/

theorem physicalLines_render {α : Type} [BEq α] [LawfulBEq α] {newline : α} {lines : List (List α)}
    (h : ∀ line ∈ lines, newline ∉ line) :
    physicalLines newline (lines.flatMap (· ++ [newline])) = lines := by
  induction lines with
  | nil => exact physicalLines_nil _
  | cons line lines ih =>
    obtain ⟨hline, hlines⟩ := List.forall_mem_cons.1 h
    rw [List.flatMap_cons, List.append_assoc, List.singleton_append, physicalLines_append_cons,
      List.splitOn_eq_singleton hline, ih hlines, List.singleton_append]

/-- A line that is trimmed ends in no carriage return. -/
theorem withoutEnding_eq {line : Text} (h : Text.IsTrimmed line) :
    Reading.withoutEnding line = line := by
  obtain ⟨c, hc, hb⟩ := h.last
  obtain ⟨s, rfl⟩ := List.getLast?_eq_some_iff.1 hc
  have hne : (c == '\r') = false := by
    rw [beq_eq_false_iff_ne]
    rintro rfl
    exact absurd hb (by decide)
  simp [Reading.withoutEnding, Text.dropEndWhile, hne]

theorem readings_lines {marker : Text} {lines : List Text} (h : ∀ line ∈ lines, IsLine marker line)
    (before : Nat) :
    ((Reading.all marker before (lines.map some)).filterMap Reading.line?).map (·.text) = lines := by
  induction lines generalizing before with
  | nil => rfl
  | cons line lines ih =>
    obtain ⟨hline, hlines⟩ := List.forall_mem_cons.1 h
    simp only [List.map_cons, Reading.all, withoutEnding_eq hline.trimmed, hline.not_ignored,
      Bool.false_eq_true, if_false, List.filterMap_cons, Reading.line?, hline.trimmed.trim_eq,
      ih hlines]

/-- The script of the text of a program has the lines of the program. -/
theorem Program.script_render (p : Program) :
    ∃ script, (Content.text p.render).script marker = .ok script ∧
      script.lines.map (·.text) = Program.lines p := by
  refine ⟨_, Content.script_text _ _, ?_⟩
  have hphysical : (Content.text p.render).physical = (Program.lines p).map some := by
    rw [Content.physical, Program.render,
      physicalLines_render fun line hline => (Program.isLine p line hline).newline_not_mem]
  rw [Content.readings, hphysical]
  exact readings_lines (Program.isLine p) 0

theorem Program.checkBalance_render {p : Program} {script : Script}
    (h : script.lines.map (·.text) = Program.lines p) : script.checkBalance = .ok () := by
  have hbalance : script.lines.foldl (fun n l => n + Braces.balance l.text) 0 = 0 := by
    have hlines := p.balanceBehind_lines 0
    rwa [← h, balanceBehind, List.foldl_map] at hlines
  rw [Script.checkBalance, if_pos hbalance]

end Tree

end SJava
