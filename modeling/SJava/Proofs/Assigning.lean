import SJava.Proofs.Initializers
import SJava.Proofs.TakingApart

/-!
# Assigning a value behind the declaration

A variable can be declared with a value, or declared first and assigned the value on the
next line. The two leave the same globals, but not every literal can go both ways: an
assignment ends at the first blank behind its value, quoted or not, so a literal that
holds one can be a value in a declaration alone.

* `Kind.of_eq_assignment_of_lead`: when a line that starts with a name is an assignment;
* `legal_iff_of_isSetting`: which declarations and assignments in a row are legal;
* `Content.verify_assigned_iff`: which literals can be assigned.
-/

namespace SJava

open SJava.Tree

/-! ## The kind of an assignment -/

namespace Kind

open Pattern

variable {line : Text}

/-- The word that a declaration starts with names no variable. -/
theorem leadWord_of_declaration (h : declaration.form.Matches line) :
    Text.leadWord line ∈ Keyword.reserved := by
  rcases Declaration.lead_of_form h with ⟨hlead, -⟩ | ⟨ty, hlead, -⟩ <;> rw [hlead]
  · decide
  · cases ty <;> decide

section

variable (hlast : line.getLast? = some ';') (hword : Text.leadWord line ∉ Keyword.reserved)
  (hnext : Text.nextToLead line = some '=')
include hlast hword hnext

/-- A name with an equals sign behind it starts an assignment or nothing. -/
theorem eq_assignment_of_lead {kind : Kind} (h : of line = .ok kind) : kind = assignment := by
  have hm (hne : kind ≠ assignment) : kind.form.Matches line :=
    (fits_iff_matches hne).1 (fits_of_eq_ok h)
  cases kind with
  | assignment => rfl
  | methodHeader =>
    rw [(lead_of_header (hm (by decide))).1] at hword
    exact absurd (by decide) hword
  | condition =>
    rcases (lead_of_condition (hm (by decide))).1 with hlead | hlead <;>
    · rw [hlead] at hword
      exact absurd (by decide) hword
  | returnStatement =>
    rw [(lead_of_return (hm (by decide))).2] at hnext
    exact absurd hnext (by decide)
  | call =>
    rw [lead_of_call (hm (by decide))] at hnext
    exact absurd hnext (by decide)
  | declaration => exact absurd (leadWord_of_declaration (hm (by decide))) hword
  | scopeEnd =>
    rw [getLast?_of_ending h rfl] at hlast
    exact absurd hlast (by decide)

theorem of_eq_assignment_of_lead (h : assignment.fits line = true) : of line = .ok assignment := by
  have hvoid : ¬startsVoid line = true := by
    intro hstarts
    rw [(lead_of_startsVoid hstarts).1] at hword
    exact hword (by decide)
  have hsome : (all.find? (·.fits line)).isSome = true :=
    List.find?_isSome.2 ⟨assignment, mem_all _, h⟩
  obtain ⟨kind, hfind⟩ := Option.isSome_iff_exists.1 hsome
  have hof : of line = .ok kind :=
    of_eq_ok_iff.2 ⟨isTerminated_of_semicolon hlast, fun hstarts => absurd hstarts hvoid, hfind⟩
  rw [hof, eq_assignment_of_lead hlast hword hnext hof]

end

end Kind

/-! ## Declarations and assignments in a row -/

/-- A declaration or an assignment, which opens no block. -/
structure IsSetting (line : Text) : Prop where
  kind : Kind.of line = .ok .declaration ∨ Kind.of line = .ok .assignment
  last : line.getLast? = some ';'

namespace IsSetting

variable {line : Text}

theorem of_declaration (h : Kind.of line = .ok .declaration) : IsSetting line :=
  ⟨.inl h, Kind.getLast?_of_ending h rfl⟩

theorem exists_kind (h : IsSetting line) : ∃ kind, Kind.of line = .ok kind ∧ kind ≠ .methodHeader ∧
    kind ≠ .scopeEnd ∧ kind ≠ .condition ∧ kind ≠ .call ∧ kind ≠ .returnStatement := by
  rcases h.kind with hkind | hkind <;> exact ⟨_, hkind, by decide⟩

theorem shift (h : IsSetting line) (d : Nat) : Braces.shift line d = d := by
  obtain ⟨kind, hkind, -, hne, -⟩ := h.exists_kind
  exact Braces.shift_of_semicolon hkind hne h.last d

theorem placed (h : IsSetting line) : Placed 1 line := by
  obtain ⟨kind, hkind, -, -, hcondition, hcall, hreturn⟩ := h.exists_kind
  exact ⟨kind, hkind, by simp [h.shift], fun hk => absurd hk hcondition,
    fun hk => (hk.elim hcall hreturn).elim⟩

theorem registerLine (h : IsSetting line) (methods : Registry) :
    SJava.registerLine methods line = some methods := by
  obtain ⟨kind, hkind, hheader, -⟩ := h.exists_kind
  rw [SJava.registerLine, hkind]
  exact if_neg hheader

/-- The second walk passes it over. -/
theorem step (h : IsSetting line) (known : Scope × Registry) :
    Progress.step ⟨outside known, none⟩ line = .ok ⟨outside known, none⟩ := by
  obtain ⟨kind, hkind, hheader, hne, -⟩ := h.exists_kind
  exact Progress.Stepped.step_eq hkind
    (.skip rfl (track_of_semicolon (outside known).stack hkind hne h.last) hheader)

end IsSetting

/-- Steps of which none changes anything. -/
theorem foldlM_eq_self {α β : Type} {f : β → α → Option β} {b : β} {xs : List α}
    (h : ∀ x ∈ xs, f b x = some b) : xs.foldlM f b = some b := by
  induction xs with
  | nil => rfl
  | cons x xs ih =>
    obtain ⟨hx, hxs⟩ := List.forall_mem_cons.1 h
    rw [List.foldlM_cons, hx]
    exact ih hxs

section

variable {lines : List Text} (h : ∀ line ∈ lines, IsSetting line)
include h

/-- All such lines stand outside of all blocks, where they may. -/
theorem placedAll_of_isSetting :
    PlacedAll 1 lines ∧ depthAfter 1 lines = 1 ∧ globalLines 1 lines = lines := by
  induction lines with
  | nil => exact ⟨trivial, rfl, rfl⟩
  | cons line lines ih =>
    obtain ⟨hline, hlines⟩ := List.forall_mem_cons.1 h
    obtain ⟨hplaced, hdepth, hglobal⟩ := ih hlines
    simp only [PlacedAll, depthAfter_cons, globalLines, hline.shift, hglobal, if_true]
    exact ⟨⟨hline.placed, hplaced⟩, hdepth, trivial⟩

theorem registerLine_of_isSetting (methods : Registry) :
    lines.foldlM registerLine methods = some methods :=
  foldlM_eq_self fun line hline => (h line hline).registerLine methods

theorem stepped_of_isSetting (known : Scope × Registry) :
    walked Progress.step ⟨outside known, none⟩ lines = some ⟨outside known, none⟩ := by
  refine foldlM_eq_self fun line hline => ?_
  rw [(h line hline).step]
  rfl

/-- They are legal when they can be carried out one after the other. -/
theorem legal_iff_of_isSetting {known : Scope × Registry} :
    Legal lines known ↔
      balanceBehind 0 lines = 0 ∧ lines.foldlM applyLine ∅ = some known.1 ∧ known.2 = ∅ := by
  obtain ⟨hplaced, hdepth, hglobal⟩ := placedAll_of_isSetting h
  constructor
  · intro hlegal
    have hknown := hlegal.methods
    rw [registerLine_of_isSetting h, Option.some.injEq] at hknown
    exact ⟨hlegal.balanced, hglobal ▸ hlegal.globals, hknown.symm⟩
  · rintro ⟨hbalance, hglobals, hknown⟩
    exact
      { balanced := hbalance
        placed := hplaced
        closed := hdepth
        globals := hglobal.symm ▸ hglobals
        methods := hknown ▸ registerLine_of_isSetting h ∅
        bodies := stepped_of_isSetting h known }

end

/-! ## The two lines -/

variable {ty : Ty} {x v : Text}

/-- The line that declares a variable without a value. -/
def declarationLine (ty : Ty) (x : Text) : Text := typed false ty ++ ' ' :: (x ++ [';'])

/-- The line that assigns a value to a variable. -/
def assignmentLine (x v : Text) : Text := initializer x v ++ [';']

theorem getLast?_assignmentLine (x v : Text) : (assignmentLine x v).getLast? = some ';' :=
  List.getLast?_concat

section

variable (hx : Name.checkVariable x = .ok ())
include hx

theorem kind_of_declarationLine (ty : Ty) : Kind.of (declarationLine ty x) = .ok .declaration := by
  have hnewline : '\n' ∉ x := (Word.ofName hx).not_mem (by decide)
  obtain ⟨c, rest, rfl, hc⟩ :=
    exists_cons_of_name (Word.ofName hx).text_ne_nil fun _ => (Word.ofName hx).isNamePart
  exact kind_of_typed false ty hc hnewline

theorem isSetting_declarationLine (ty : Ty) : IsSetting (declarationLine ty x) :=
  .of_declaration (kind_of_declarationLine hx ty)

theorem lead_assignmentLine (v : Text) :
    Text.leadWord (assignmentLine x v) = x ∧ Text.nextToLead (assignmentLine x v) = some '=' := by
  have hline : assignmentLine x v = [] ++ (x ++ ([' '] ++ '=' :: (' ' :: (v ++ [';'])))) := by
    simp [assignmentLine, initializer]
  rw [hline]
  exact Kind.lead_of_word_char (by simp) (Word.ofName hx).text_ne_nil
    (fun _ => (Word.ofName hx).isNamePart) (Text.forall_of_all (by decide)) (by decide) (by decide)

theorem not_reserved_lead (v : Text) : Text.leadWord (assignmentLine x v) ∉ Keyword.reserved := by
  rw [(lead_assignmentLine hx v).1]
  exact (Name.check_eq_ok_iff.1 hx).1

/-- It is no declaration. -/
theorem kind_of_isSetting (h : IsSetting (assignmentLine x v)) :
    Kind.of (assignmentLine x v) = .ok .assignment := by
  obtain ⟨kind, hkind, -⟩ := h.exists_kind
  obtain rfl := Kind.eq_assignment_of_lead h.last (not_reserved_lead hx v) (lead_assignmentLine hx v).2 hkind
  exact hkind

/-- An assignment of a text without blanks has the form of one. -/
theorem isSetting_assignmentLine (hcomma : ',' ∉ v) (hblank : ∀ c ∈ v, Text.isBlank c = false) :
    IsSetting (assignmentLine x v) where
  kind := by
    refine .inr (Kind.of_eq_assignment_of_lead (getLast?_assignmentLine x v) (not_reserved_lead hx v)
      (lead_assignmentLine hx v).2 ?_)
    have hname : ',' ∉ x := (Word.ofName hx).not_mem (by decide)
    have hpieces : (assignmentLine x v).splitOn ',' = [assignmentLine x v] :=
      List.splitOn_eq_singleton (by simp [assignmentLine, initializer, hname, hcomma])
    have hvalue : (Pattern.oneOrMore (.compl .blank)).Matches (v ++ [';']) := by
      have hend : ∀ c ∈ [';'], (CharSet.compl .blank).contains c = true := Text.forall_of_all (by decide)
      refine Pattern.matches_oneOrMore.2 ⟨by simp, List.forall_mem_append.2 ⟨fun c hc => ?_, hend⟩⟩
      simp [CharSet.contains, hblank c hc]
    have hspace : Pattern.blanks.Matches [' '] := Text.forall_of_all (by decide)
    have hequals : (Pattern.char '=').Matches ['='] := Pattern.matches_char.2 rfl
    have hmatches :=
      ((Word.ofName hx).shape.append (hspace.append (hequals.append (hspace.append hvalue)))).behind_blanks
    have hform : Kind.assignment.form.Matches (assignmentLine x v) := by
      simp only [Kind.form, Pattern.matches_assoc]
      simpa [assignmentLine, initializer, Word.ofName, Name.wordPattern, Kind.namePattern] using hmatches
    simp [Kind.fits, hpieces, Pattern.accepts_iff.2 hform]
  last := getLast?_assignmentLine x v

/-- What is assigned is the value, unless a comma or an equals sign cuts it. -/
theorem allOfLine_assignmentLine (hv : ty.holds v = true) :
    Assignment.allOfLine (assignmentLine x v) =
      if '=' ∉ v ∧ ',' ∉ v then .ok [⟨x, v⟩] else .error .invalidAssignment := by
  have heq : '=' ∉ x := (Word.ofName hx).not_mem (by decide)
  have htarget : Text.IsTrimmed x := (Word.ofName hx).isTrimmed
  have htrimmed := Ty.isTrimmed_of_holds hv
  have hbody : Text.statementBody (assignmentLine x v) = initializer x v :=
    Text.statementBody_of_trimmed (u := []) (by simp) (isTrimmed_initializer hx htrimmed)
  rw [Assignment.allOfLine, hbody]
  by_cases hcomma : ',' ∈ v
  · obtain rfl : ty = .char := Decidable.not_not.1 fun hty => Ty.comma_not_mem hv hty hcomma
    obtain ⟨c, -, rfl⟩ := Ty.holds_char_iff.1 hv
    obtain rfl : c = ',' := by simpa [eq_comm] using hcomma
    have hsplit : (initializer x ['\'']).splitOn '=' = _ := splitOn_initializer heq (by decide)
    rw [splitOn_initializer_comma hx, if_neg fun h => h.2 hcomma, List.mapM_cons, Assignment.ofText,
      hsplit]
    rfl
  · have hname : ',' ∉ x := (Word.ofName hx).not_mem (by decide)
    have hpiece : ',' ∉ initializer x v := by simp [initializer, hname, hcomma]
    rw [List.splitOn_eq_singleton hpiece, List.mapM_cons, Assignment.ofText]
    by_cases hmem : '=' ∈ v
    · obtain ⟨p, q, r, rs, hsplit⟩ := exists_splitOn_initializer heq hmem
      rw [hsplit, if_neg fun h => h.1 hmem]
      rfl
    · obtain ⟨hback, hfront⟩ := trim_initializer htarget htrimmed
      rw [splitOn_initializer heq hmem, if_pos ⟨hmem, hcomma⟩]
      simp only [hback, hfront, List.mapM_nil, pure_bind, ok_bind]
      rfl

/-- A literal that nothing cuts can be assigned when there is no blank in it. -/
theorem isSetting_assignmentLine_iff (hv : ty.holds v = true) (hcut : '=' ∉ v ∧ ',' ∉ v) :
    IsSetting (assignmentLine x v) ↔ ∀ c ∈ v, Text.isBlank c = false := by
  refine ⟨fun h => ?_, isSetting_assignmentLine hx hcut.2⟩
  have hall := allOfLine_assignmentLine hx hv
  rw [if_pos hcut] at hall
  have hwell := (Assignment.wellFormed_of_allOfLine (kind_of_isSetting hx h) hall).2 ⟨x, v⟩
  exact (hwell (List.mem_singleton_self _)).value

end

/-! ## What the lines do -/

/-- A variable without a value is declared. -/
theorem Stack.declareLine_declarationLine {s : Stack} (hx : Name.checkVariable x = .ok ()) (ty : Ty)
    (hfree : x ∉ s.innermost) :
    s.declareLine (declarationLine ty x) = .ok (s.insert ⟨x, ty, false, none⟩) := by
  have heq : '=' ∉ x := (Word.ofName hx).not_mem (by decide)
  have hcomma : ',' ∉ x := (Word.ofName hx).not_mem (by decide)
  have htrimmed : Text.IsTrimmed x := (Word.ofName hx).isTrimmed
  have hline : Declaration.ofLine (declarationLine ty x) = .ok ⟨false, ty.keyword, [⟨x, none⟩]⟩ := by
    rw [declarationLine, ofLine_typed false ty htrimmed, List.splitOn_eq_singleton hcomma, List.mapM_cons,
      Clause.ofText, List.splitOn_eq_singleton heq]
    simp only [htrimmed.trim_eq]
    rfl
  have hclause : s.clauseVariable ty false ⟨x, none⟩ = .ok ⟨x, ty, false, none⟩ := by
    rw [clauseVariable, Variable.new_eq_ok_iff.2 ⟨hx, rfl⟩]
    rfl
  exact declareLine_single hline hclause hfree

/-- The globals of a source that declares one variable. -/
def Scope.single (w : Variable) : Scope := (∅ : Scope).insert w.name w

theorem Scope.getElem?_single (w : Variable) (name : Text) :
    (single w)[name]? = if w.name = name then some w else none := by
  simp [single, Std.ExtTreeMap.getElem?_insert]

/-- The variable takes a literal of its type. -/
theorem Stack.assign_single {w : Variable} (hx : Name.checkVariable w.name = .ok ())
    (hfinal : w.isFinal = false) (hv : w.ty.holds v = true) :
    Stack.assign { globals := .single w } ⟨w.name, v⟩ =
      .ok { globals := .single { w with value := some v } } := by
  have hname := Ty.isNameLike_of_holds hv
  have hne : w.name ≠ v := by
    rintro rfl
    rw [Name.isNameLike_of_check hx] at hname
    cases hname
  have hlookup (name : Text) : Stack.lookup { globals := .single w } name = (Scope.single w)[name]? := by
    simp [Stack.lookup, Stack.tables, Scope.lookup]
  have hresolve : Variable.resolve (Stack.lookup { globals := .single w }) w.ty v = .ok v := by
    simp [Variable.resolve, hlookup, Scope.getElem?_single, hne, hname]
  have hreassign : w.reassign v = .ok { w with value := some v } := by
    simp [Variable.reassign, hfinal, Ty.checkValue_of_holds hv, Except.map]
  have hreplace : (Scope.single w).insert w.name { w with value := some v } =
      Scope.single { w with value := some v } := by
    ext1 name
    simp only [Scope.single, Std.ExtTreeMap.getElem?_insert]
    split <;> rfl
  have hupdate : Stack.update? (·.reassign v) w.name { globals := .single w } =
      some (.ok { globals := .single { w with value := some v } }) := by
    simp [update?, Scope.update?, Scope.getElem?_single, hreassign, Except.map, hreplace]
  rw [assign, hlookup, Scope.getElem?_single, if_pos rfl]
  simp [hfinal, hresolve, hupdate, ok_bind]

section

variable (hx : Name.checkVariable x = .ok ()) (hv : ty.holds v = true)
include hx hv

/-- What one line leaves behind. -/
theorem applyLine_initializerLine (hline : '\n' ∉ v) :
    applyLine ∅ (initializerLine false ty x v) =
      if '=' ∉ v ∧ ',' ∉ v then some (Scope.single ⟨x, ty, false, some v⟩) else none := by
  have hfree : x ∉ (Stack.mk ∅ [] none).innermost := Std.ExtTreeMap.not_mem_empty
  have hdeclared := Stack.declareLine_initializer hx hv false hfree fun _ _ => rfl
  simp only [applyLine, kind_of_initializerLine hx false ty hline, applyKind, hdeclared]
  split <;> rfl

/-- What two lines leave behind. -/
theorem applyLines_assigned (h : IsSetting (assignmentLine x v)) :
    [declarationLine ty x, assignmentLine x v].foldlM applyLine ∅ =
      if '=' ∉ v ∧ ',' ∉ v then some (Scope.single ⟨x, ty, false, some v⟩) else none := by
  have hfree : x ∉ (Stack.mk ∅ [] none).innermost := Std.ExtTreeMap.not_mem_empty
  have hdeclared : applyLine ∅ (declarationLine ty x) = some (Scope.single ⟨x, ty, false, none⟩) := by
    simp only [applyLine, kind_of_declarationLine hx, applyKind,
      Stack.declareLine_declarationLine hx ty hfree]
    rfl
  have hassigned : applyLine (Scope.single ⟨x, ty, false, none⟩) (assignmentLine x v) =
      if '=' ∉ v ∧ ',' ∉ v then some (Scope.single ⟨x, ty, false, some v⟩) else none := by
    have hassign := Stack.assign_single (w := ⟨x, ty, false, none⟩) hx rfl hv
    simp only [applyLine, kind_of_isSetting hx h, applyKind, Stack.assignLine,
      allOfLine_assignmentLine hx hv]
    split
    · rw [ok_bind, List.foldlM_cons, hassign]
      rfl
    · rfl
  rw [List.foldlM_cons, hdeclared]
  show ([assignmentLine x v].foldlM applyLine _ : Option Scope) = _
  rw [List.foldlM_cons, hassigned]
  split <;> rfl

end

/-! ## The two sources -/

/-- The source that declares a variable with a value. -/
def Content.initialized (ty : Ty) (x v : Text) : Content :=
  text ([initializerLine false ty x v].flatMap (· ++ ['\n']))

/-- The source that declares a variable and assigns the value to it on the next line. -/
def Content.assigned (ty : Ty) (x v : Text) : Content :=
  text ([declarationLine ty x, assignmentLine x v].flatMap (· ++ ['\n']))

/-- What is known behind either. -/
def valued (ty : Ty) (x v : Text) : State := outside (Scope.single ⟨x, ty, false, some v⟩, ∅)

section

variable (hx : Name.checkVariable x = .ok ())
include hx

theorem isLine_declarationLine (ty : Ty) : IsLine marker (declarationLine ty x) := by
  have hname : Plain (' ' :: x) := .cons (by decide) (Word.ofName hx).plain
  have hline : IsLine marker (typed false ty ++ ' ' :: x ++ [';']) := isLine_of_typed hname (by decide)
  simpa only [declarationLine, List.append_assoc, List.cons_append] using hline

theorem isLine_assignmentLine (hv : Text.IsTrimmed v) (hline : '\n' ∉ v) :
    IsLine marker (assignmentLine x v) where
  trimmed := by
    have hend : Text.IsTrimmed [';'] := .of_forall (by simp) (Text.forall_of_all (by decide))
    simpa [assignmentLine] using (isTrimmed_initializer hx hv).append (t := []) hend
  newline_not_mem := by
    have hbody := newline_not_mem_initializer hx hline
    simp [assignmentLine, hbody]
  not_comment := by
    have hcomment := not_comment_of_word ([' ', '=', ' '] ++ v ++ [';']) (Word.ofName hx).text_ne_nil
      fun _ => (Word.ofName hx).isNamePart
    simpa only [assignmentLine, initializer, Word.ofName, List.append_assoc] using hcomment

/-- Two lines are balanced when one is. -/
theorem balance_assigned (hv : ty.holds v = true) :
    balanceBehind 0 [declarationLine ty x, assignmentLine x v] = 0 ↔
      (ty = .char → '{' ∉ v ∧ '}' ∉ v) := by
  have hname : Plain x := (Word.ofName hx).plain
  have hfirst : Plain (declarationLine ty x) :=
    (typed_plain false ty).append (.cons (by decide) (hname.append (.cons (by decide) .nil)))
  have hfront : Plain (x ++ [' ', '=', ' ']) :=
    hname.append (.cons (by decide) (.cons (by decide) (.cons (by decide) .nil)))
  have hquote : '"' ∉ x := (Word.ofName hx).not_mem (by decide)
  have hsecond : assignmentLine x v = x ++ [' ', '=', ' '] ++ (v ++ [';']) := by
    simp [assignmentLine, initializer]
  simp only [balanceBehind_cons, balanceBehind_nil, hfirst.balance, Int.zero_add]
  rw [hsecond, Braces.balance_append hfront (by simp [hquote]), Ty.balance_literal hv]

end

namespace Content

/-- Settings in a row, as a source of their own. -/
theorem verify_settings_iff {lines : List Text} {s : State} {p : Prop} [Decidable p] {globals : Scope}
    (hlines : ∀ line ∈ lines, IsLine marker line) (h : ∀ line ∈ lines, IsSetting line)
    (hglobals : lines.foldlM applyLine ∅ = if p then some globals else none) :
    (text (lines.flatMap (· ++ ['\n']))).verify marker = .ok s ↔
      balanceBehind 0 lines = 0 ∧ p ∧ s = outside (globals, ∅) := by
  rw [verify_lines_iff hlines]
  constructor
  · rintro ⟨known, hlegal, rfl⟩
    obtain ⟨hbalance, hknown, hmethods⟩ := (legal_iff_of_isSetting h).1 hlegal
    rw [hglobals, Option.ite_none_right_eq_some, Option.some.injEq] at hknown
    exact ⟨hbalance, hknown.1, by rw [hknown.2, ← hmethods]⟩
  · rintro ⟨hbalance, hp, rfl⟩
    rw [if_pos hp] at hglobals
    exact ⟨(globals, ∅), (legal_iff_of_isSetting h).2 ⟨hbalance, hglobals, rfl⟩, rfl⟩

section

variable {s : State} (hx : Name.checkVariable x = .ok ()) (hv : ty.holds v = true) (hline : '\n' ∉ v)
include hx hv hline

/-- Which literals a global variable can be declared with. -/
theorem verify_initialized_iff :
    (initialized ty x v).verify marker = .ok s ↔
      (ty = .char → '{' ∉ v ∧ '}' ∉ v) ∧ ('=' ∉ v ∧ ',' ∉ v) ∧ s = valued ty x v := by
  have hsetting : IsSetting (initializerLine false ty x v) :=
    .of_declaration (kind_of_initializerLine hx false ty hline)
  have hisLine := isLine_initializerLine hx false ty hline
  have hglobals : [initializerLine false ty x v].foldlM applyLine ∅ =
      if '=' ∉ v ∧ ',' ∉ v then some (Scope.single ⟨x, ty, false, some v⟩) else none := by
    rw [List.foldlM_cons, applyLine_initializerLine hx hv hline]
    split <;> rfl
  rw [initialized, verify_settings_iff (List.forall_mem_singleton.2 hisLine)
    (List.forall_mem_singleton.2 hsetting) hglobals, balanceBehind_cons, balanceBehind_nil,
    Int.zero_add, balance_initializerLine hx false hv, valued]

/-- What is assigned must have the form of an assignment besides. -/
theorem verify_assigned_iff_isSetting :
    (assigned ty x v).verify marker = .ok s ↔ IsSetting (assignmentLine x v) ∧
      (ty = .char → '{' ∉ v ∧ '}' ∉ v) ∧ ('=' ∉ v ∧ ',' ∉ v) ∧ s = valued ty x v := by
  have hlines : ∀ line ∈ [declarationLine ty x, assignmentLine x v], IsLine marker line := by
    simp [isLine_declarationLine hx ty, isLine_assignmentLine hx (Ty.isTrimmed_of_holds hv) hline]
  have hiff (h : IsSetting (assignmentLine x v)) : (assigned ty x v).verify marker = .ok s ↔ _ :=
    verify_settings_iff hlines (by simp [isSetting_declarationLine hx ty, h]) (applyLines_assigned hx hv h)
  rw [balance_assigned hx hv] at hiff
  refine ⟨fun h => ?_, fun ⟨hsetting, h⟩ => (hiff hsetting).2 h⟩
  -- a legal source tells the kind of each line, and by its start the second is nothing else
  obtain ⟨known, hlegal, -⟩ := (verify_lines_iff hlines).1 h
  obtain ⟨-, ⟨kind, hkind, -⟩, -⟩ := hlegal.placed
  have hassignment := Kind.eq_assignment_of_lead (getLast?_assignmentLine x v) (not_reserved_lead hx v)
    (lead_assignmentLine hx v).2 hkind
  have hsetting : IsSetting (assignmentLine x v) :=
    ⟨.inr (hassignment ▸ hkind), getLast?_assignmentLine x v⟩
  exact ⟨hsetting, (hiff hsetting).1 h⟩

/-- A literal can be assigned behind the declaration, with the same outcome, if it can be
a value in the declaration and there is no blank in it. -/
theorem verify_assigned_iff :
    (assigned ty x v).verify marker = .ok s ↔
      (initialized ty x v).verify marker = .ok s ∧ ∀ c ∈ v, Text.isBlank c = false := by
  rw [verify_assigned_iff_isSetting hx hv hline, verify_initialized_iff hx hv hline]
  constructor
  · rintro ⟨hsetting, hbrace, hcut, hs⟩
    exact ⟨⟨hbrace, hcut, hs⟩, (isSetting_assignmentLine_iff hx hv hcut).1 hsetting⟩
  · rintro ⟨⟨hbrace, hcut, hs⟩, hblank⟩
    exact ⟨(isSetting_assignmentLine_iff hx hv hcut).2 hblank, hbrace, hcut, hs⟩

end

/-- A string without blanks can be assigned. -/
theorem verify_assigned_iff_string :
    let x : Text := "s1".toList
    let v : Text := "\"\x7b;\x7d\"".toList
    let s : State := valued .string x v
    (Name.checkVariable x = .ok () ∧ Ty.string.holds v = true ∧ '\n' ∉ v) ∧
      (text "String s1;\ns1 = \"\x7b;\x7d\";\n".toList).verify ({} : Config).marker = .ok s ∧
      (text "String s1 = \"\x7b;\x7d\";\n".toList).verify ({} : Config).marker = .ok s := by
  intro x v s
  have hx : Name.checkVariable x = .ok () := by decide
  have hv : Ty.string.holds v = true := by decide
  have hline : '\n' ∉ v := by decide
  have hinitialized : (initialized .string x v).verify ({} : Config).marker = .ok s :=
    (verify_initialized_iff hx hv hline).2 ⟨nofun, by decide, rfl⟩
  have hblank : ∀ c ∈ v, Text.isBlank c = false := Text.forall_of_all (by decide)
  exact ⟨⟨hx, hv, hline⟩, (verify_assigned_iff hx hv hline).2 ⟨hinitialized, hblank⟩, hinitialized⟩

/-- One with a blank cannot, though a variable can be declared with it. -/
theorem not_verify_assigned_blank :
    (Name.checkVariable ['x'] = .ok () ∧ Ty.string.holds "\"a b\"".toList = true) ∧
      (∃ s, (text "String x = \"a b\";\n".toList).verify ({} : Config).marker = .ok s) ∧
      ¬∃ s, (text "String x;\nx = \"a b\";\n".toList).verify ({} : Config).marker = .ok s := by
  simp only [exists_eq_ok_iff]
  decide +kernel

end Content

end SJava
