import SJava.Proofs.Literals
import SJava.Proofs.Readings

/-!
# Declarations with a value

A declaration is cut at every comma and every clause at every equals sign, quoted or
not, and of the quotes only double ones hide braces. So the literals that a variable of
the type can hold are not all values that it can be declared with.

* `Ty.balance_literal`: which literals are balanced;
* `Stack.declareLine_initializer`: which can be values in a declaration;
* `Content.verify_initializer_iff`: which can be used in a method.
-/

namespace SJava

open SJava.Tree

/-! ## Braces -/

theorem Braces.weight_eq_zero_iff {c : Char} : weight c = 0 ↔ c ≠ '{' ∧ c ≠ '}' := by
  unfold weight
  split
  · simp [*]
  · split <;> simp [*]

theorem Braces.balance_append {u : Text} (hu : Plain u) (hquote : '"' ∉ u) (s : Text) :
    balance (u ++ s) = balance s := by
  rw [balance, Text.unquoted_append hquote, List.foldl_append, foldl_weight_of_plain hu, balance]

/-- A string hides what it holds. -/
theorem Braces.balance_string {s : Text} (h : '"' ∉ s) : balance ('"' :: (s ++ '"' :: [';'])) = 0 := by
  have hsplit : ('"' :: (s ++ '"' :: [';'])).splitOn '"' = [[], s, [';']] := by
    rw [← List.nil_append ('"' :: _), List.splitOn_append_cons_self, List.splitOn_append_cons_self,
      List.splitOn_eq_singleton h]
    rfl
  rw [balance, Text.unquoted, hsplit]
  rfl

/-- A character between single quotes counts. -/
theorem Braces.balance_char (c : Char) : balance ['\'', c, '\'', ';'] = weight c := by
  by_cases hquote : c = '"'
  · rw [hquote]
    decide
  · have hunquoted : Text.unquoted ['\'', c, '\'', ';'] = ['\'', c, '\'', ';'] :=
      Text.unquoted_of_not_mem (by simp [Ne.symm hquote])
    rw [balance, hunquoted]
    simp [weight]

namespace Ty

variable {ty : Ty} {v : Text}

/-- Numbers and truth values are plain. -/
theorem plain_of_holds (h : ty.holds v = true) (hwide : Widens ty boolean) : Plain v := by
  rcases holds_boolean_iff.1 (hwide.holds h) with rfl | rfl | hn
  · exact .of_name (Text.forall_of_all (by decide))
  · exact .of_name (Text.forall_of_all (by decide))
  · intro c hc
    refine ⟨.inl (isBlank_of_mem_number hn hc), ?_⟩
    rcases mem_number hn hc with hd | rfl | rfl | rfl
    · constructor <;>
      · rintro rfl
        exact absurd hd (by decide)
    all_goals decide

/-- A statement that ends in a literal is balanced unless the literal is a brace. -/
theorem balance_literal (h : ty.holds v = true) :
    Braces.balance (v ++ [';']) = 0 ↔ (ty = char → '{' ∉ v ∧ '}' ∉ v) := by
  cases ty with
  | int | double | boolean =>
    have hplain := plain_of_holds h (by decide)
    have hbalance := (hplain.append (.cons (c := ';') (by decide) .nil)).balance
    simp [hbalance]
  | string =>
    obtain ⟨s, rfl, hs⟩ := holds_string_iff.1 h
    have hbalance := Braces.balance_string fun hmem => (hs _ hmem).2.2.1 rfl
    simp [hbalance]
  | char =>
    obtain ⟨c, -, rfl⟩ := holds_char_iff.1 h
    have hopen : '{' ∉ ['\'', c, '\''] ↔ c ≠ '{' := by simp [eq_comm]
    have hclose : '}' ∉ ['\'', c, '\''] ↔ c ≠ '}' := by simp [eq_comm]
    show Braces.balance ['\'', c, '\'', ';'] = 0 ↔ _
    rw [Braces.balance_char, Braces.weight_eq_zero_iff, hopen, hclose, imp_iff_right rfl]

/-- Only a character can be a comma; no other literal holds one. -/
theorem comma_not_mem (h : ty.holds v = true) (hty : ty ≠ char) : ',' ∉ v := by
  intro hmem
  have hboolean (hwide : Widens ty boolean) : False := by
    rcases holds_boolean_iff.1 (hwide.holds h) with rfl | rfl | hn
    · exact absurd hmem (by decide)
    · exact absurd hmem (by decide)
    · exact absurd (mem_number hn hmem) (by decide)
  cases ty with
  | int | double | boolean => exact hboolean (by decide)
  | string =>
    obtain ⟨s, rfl, hs⟩ := holds_string_iff.1 h
    have hcomma : ',' ∈ s := by simpa using hmem
    exact (hs _ hcomma).1 rfl
  | char => exact hty rfl

end Ty

/-! ## Clauses -/

/-- The clause that declares a variable with a value. -/
def initializer (x v : Text) : Text := x ++ [' ', '=', ' '] ++ v

variable {ty : Ty} {x v : Text}

/-- It is cut once, if there is no equals sign in its value. -/
theorem splitOn_initializer (hx : '=' ∉ x) (hv : '=' ∉ v) :
    (initializer x v).splitOn '=' = [x ++ [' '], ' ' :: v] := by
  have hfront : '=' ∉ x ++ [' '] := by simp [hx]
  have hback : '=' ∉ ' ' :: v := by simp [hv]
  have hclause : initializer x v = (x ++ [' ']) ++ '=' :: ' ' :: v := by simp [initializer]
  rw [hclause, List.splitOn_append_cons_self, List.splitOn_eq_singleton hfront,
    List.splitOn_eq_singleton hback, List.singleton_append]

/-- And more than once if there is. -/
theorem exists_splitOn_initializer (hx : '=' ∉ x) (hv : '=' ∈ v) :
    ∃ p q r rs, (initializer x v).splitOn '=' = p :: q :: r :: rs := by
  have hclause : initializer x v = (x ++ [' ']) ++ '=' :: ' ' :: v := by simp [initializer]
  obtain ⟨a, b, hv⟩ := List.append_of_mem (List.mem_cons_of_mem ' ' hv)
  obtain ⟨p, ps, hp⟩ := List.exists_cons_of_ne_nil (List.splitOn_ne_nil '=' a)
  obtain ⟨q, qs, hq⟩ := List.exists_cons_of_ne_nil (List.splitOn_ne_nil '=' b)
  have hfront : '=' ∉ x ++ [' '] := by simp [hx]
  rw [hclause, List.splitOn_append_cons_self, List.splitOn_eq_singleton hfront, hv,
    List.splitOn_append_cons_self, hp, hq]
  cases ps with
  | nil => exact ⟨_, _, _, _, rfl⟩
  | cons p' ps => exact ⟨_, _, _, _, rfl⟩

theorem trim_initializer (hx : Text.IsTrimmed x) (hv : Text.IsTrimmed v) :
    Text.trim (x ++ [' ']) = x ∧ Text.trim (' ' :: v) = v := by
  have hback := Text.trim_around (u := []) (v := [' ']) (by simp) hx (Text.forall_of_all (by decide))
  have hfront := Text.trim_around (u := [' ']) (v := []) (Text.forall_of_all (by decide)) hv (by simp)
  rw [List.append_nil] at hfront
  exact ⟨hback, hfront⟩

theorem Clause.ofText_initializer (hx : Text.IsTrimmed x) (heq : '=' ∉ x) (hv : Text.IsTrimmed v) :
    ofText (initializer x v) = if '=' ∈ v then .error .invalidLineFormat else .ok ⟨x, some v⟩ := by
  by_cases hmem : '=' ∈ v
  · obtain ⟨p, q, r, rs, hsplit⟩ := exists_splitOn_initializer heq hmem
    rw [ofText, hsplit, if_pos hmem]
  · obtain ⟨hback, hfront⟩ := trim_initializer hx hv
    simp only [ofText, splitOn_initializer heq hmem, hback, hfront, if_neg hmem]

/-! ## Lines -/

/-- The line that declares a variable with a value. -/
def initializerLine (isFinal : Bool) (ty : Ty) (x v : Text) : Text :=
  typed isFinal ty ++ ' ' :: (initializer x v ++ [';'])

/-- The name of a variable as a word. -/
def Tree.Word.ofName (hx : Name.checkVariable x = .ok ()) : Word := ⟨x, Name.matches_word_of_check hx⟩

section

variable (hx : Name.checkVariable x = .ok ())
include hx

theorem newline_not_mem_initializer (hline : '\n' ∉ v) : '\n' ∉ initializer x v := by
  have hname : '\n' ∉ x := (Word.ofName hx).not_mem (by decide)
  simp [initializer, hname, hline]

theorem kind_of_initializerLine (isFinal : Bool) (ty : Ty) (hline : '\n' ∉ v) :
    Kind.of (initializerLine isFinal ty x v) = .ok .declaration := by
  obtain ⟨c, rest, rfl, hc⟩ :=
    exists_cons_of_name (Word.ofName hx).text_ne_nil fun _ => (Word.ofName hx).isNamePart
  exact kind_of_typed isFinal ty hc (newline_not_mem_initializer hx hline)

theorem isTrimmed_initializer (hv : Text.IsTrimmed v) : Text.IsTrimmed (initializer x v) :=
  (Word.ofName hx).isTrimmed.append hv

/-- A clause with a value is refused if an equals sign cuts the value. -/
theorem ofLine_initializerLine (isFinal : Bool) (ty : Ty) (hv : Text.IsTrimmed v) (hcomma : ',' ∉ v) :
    Declaration.ofLine (initializerLine isFinal ty x v) =
      if '=' ∈ v then .error .invalidLineFormat else .ok ⟨isFinal, ty.keyword, [⟨x, some v⟩]⟩ := by
  have htrimmed : Text.IsTrimmed x := (Word.ofName hx).isTrimmed
  have hname : ',' ∉ x := (Word.ofName hx).not_mem (by decide)
  have heq : '=' ∉ x := (Word.ofName hx).not_mem (by decide)
  have hbody : ',' ∉ initializer x v := by simp [initializer, hname, hcomma]
  rw [initializerLine, ofLine_typed isFinal ty (isTrimmed_initializer hx hv),
    List.splitOn_eq_singleton hbody, List.mapM_cons,
    Clause.ofText_initializer htrimmed heq hv]
  split <;> rfl

/-- The comma cuts its own quotes apart. -/
theorem splitOn_initializer_comma :
    (initializer x ['\'', ',', '\'']).splitOn ',' = [initializer x ['\''], ['\'']] := by
  have hname : ',' ∉ x := (Word.ofName hx).not_mem (by decide)
  have hfront : ',' ∉ initializer x ['\''] := by simp [initializer, hname]
  have hcut : initializer x ['\'', ',', '\''] = initializer x ['\''] ++ ',' :: ['\''] := by
    simp [initializer]
  rw [hcut, List.splitOn_append_cons_self, List.splitOn_eq_singleton hfront,
    List.splitOn_eq_singleton (by decide)]
  rfl

theorem ofLine_initializerLine_comma (isFinal : Bool) :
    Declaration.ofLine (initializerLine isFinal .char x ['\'', ',', '\'']) =
      .ok ⟨isFinal, Ty.char.keyword, [⟨x, some ['\'']⟩, ⟨['\''], none⟩]⟩ := by
  have htrimmed : Text.IsTrimmed x := (Word.ofName hx).isTrimmed
  have heq : '=' ∉ x := (Word.ofName hx).not_mem (by decide)
  have hquote : Text.IsTrimmed ['\''] := .of_forall (by simp) (Text.forall_of_all (by decide))
  have hchar : Text.IsTrimmed ['\'', ',', '\''] := .of_forall (by simp) (Text.forall_of_all (by decide))
  rw [initializerLine, ofLine_typed isFinal .char (isTrimmed_initializer hx hchar),
    splitOn_initializer_comma hx, List.mapM_cons, Clause.ofText_initializer htrimmed heq hquote]
  rfl

end

namespace Stack

variable {s : Stack}

theorem clauseVariable_literal (hx : Name.checkVariable x = .ok ()) (isFinal : Bool) (ty : Ty)
    (hv : Name.isNameLike v = false) (hlookup : s.lookup v = none) :
    s.clauseVariable ty isFinal ⟨x, some v⟩ =
      (ty.checkValue v).map fun _ => ⟨x, ty, isFinal, some v⟩ := by
  have hresolve : Variable.resolve s.lookup ty v = .ok v := by
    simp [Variable.resolve, hlookup, hv]
  rw [clauseVariable, Variable.new_eq_ok_iff.2 ⟨hx, rfl⟩]
  simp only [ok_bind, hresolve]
  rw [Variable.setInitial]
  simp [Variable.isInitialized]

/-- What is left of the comma is no character. -/
theorem declareLine_comma (hx : Name.checkVariable x = .ok ()) (isFinal : Bool)
    (hlookup : s.lookup ['\''] = none) :
    (s.declareLine (initializerLine isFinal .char x ['\'', ',', '\''])).toOption = none := by
  have hvalue : Ty.char.checkValue ['\''] = .error (.invalidValue Ty.char.keyword ['\'']) := by decide
  have hclause := clauseVariable_literal hx isFinal .char (v := ['\'']) (by decide) hlookup
  rw [hvalue] at hclause
  rw [declareLine, ofLine_initializerLine_comma hx, ok_bind, declareClauses, Ty.ofKeyword_keyword,
    ok_bind, List.mapM_cons, hclause]
  rfl

/-- A line with one clause declares its variable. -/
theorem declareLine_single {line : Text} {c : Clause} {w : Variable} {isFinal : Bool} {ty : Ty}
    (hline : Declaration.ofLine line = .ok ⟨isFinal, ty.keyword, [c]⟩)
    (hclause : s.clauseVariable ty isFinal c = .ok w) (hfree : w.name ∉ s.innermost) :
    s.declareLine line = .ok (s.insert w) := by
  have hall : s.declareAll [w] = (s.insert w, none) := by
    rw [declareAll, declare, if_neg hfree]
    rfl
  rw [declareLine, hline, ok_bind, declareClauses, Ty.ofKeyword_keyword, ok_bind, List.mapM_cons, hclause]
  simp only [ok_bind, List.mapM_nil, pure_bind, hall]
  rfl

/-- A variable is declared with a value unless the value is cut. -/
theorem declareLine_initializer (hx : Name.checkVariable x = .ok ()) (hv : ty.holds v = true)
    (isFinal : Bool) (hfree : x ∉ s.innermost)
    (hnames : ∀ w, Name.isNameLike w = false → s.lookup w = none) :
    (s.declareLine (initializerLine isFinal ty x v)).toOption =
      if '=' ∉ v ∧ ',' ∉ v then some (s.insert ⟨x, ty, isFinal, some v⟩) else none := by
  by_cases hcomma : ',' ∈ v
  · obtain rfl : ty = .char := Decidable.not_not.1 fun hty => Ty.comma_not_mem hv hty hcomma
    obtain ⟨c, -, rfl⟩ := Ty.holds_char_iff.1 hv
    obtain rfl : c = ',' := by simpa [eq_comm] using hcomma
    rw [declareLine_comma hx isFinal (hnames _ (by decide)), if_neg fun h => h.2 hcomma]
  · have hline := ofLine_initializerLine hx isFinal ty (Ty.isTrimmed_of_holds hv) hcomma
    by_cases heq : '=' ∈ v
    · rw [declareLine, hline, if_pos heq, if_neg fun h => h.1 heq]
      rfl
    · have hname := Ty.isNameLike_of_holds hv
      have hclause := clauseVariable_literal hx isFinal ty hname (hnames _ hname)
      rw [Ty.checkValue_of_holds hv] at hclause
      rw [if_neg heq] at hline
      rw [declareLine_single hline hclause hfree, if_pos ⟨heq, hcomma⟩]
      rfl

end Stack

/-! ## A method around a declaration

The lines of a method without parameters that returns behind one declaration. -/

namespace Enclosure

/-- The header of the method. -/
def header : Text := "void f() \x7b".toList

/-- The method that the header declares. -/
def method : Method := ⟨['f'], []⟩

/-- The return that ends the method. -/
def returnLine : Text := "return;".toList

/-- A method with a line in it, and a return behind the line. -/
def lines (line : Text) : List Text := [header, line, returnLine, blockEnd]

/-- What is known within the method. -/
def inside : Stack := { blocks := [∅], active := some ⟨method, 2⟩ }

theorem kind_of_header : Kind.of header = .ok .methodHeader := by decide +kernel

theorem kind_of_return : Kind.of returnLine = .ok .returnStatement := by decide +kernel

theorem ofLine_header : Method.ofLine header = .ok method := by decide +kernel

theorem lookup_inside (w : Text) : inside.lookup w = none := by
  simp [Stack.lookup, Stack.tables, inside, Scope.lookup]

variable {line : Text} (methods : Registry)

theorem step_header :
    (Progress.mk (outside (∅, methods)) none).step header =
      .ok ⟨⟨inside, methods⟩, some { method, globals := ∅ }⟩ := by
  refine Progress.Stepped.step_eq kind_of_header (.enter (u := { blocks := [∅] }) rfl ?_ ofLine_header rfl)
  rw [Stack.track, Braces.opens_of_ending kind_of_header rfl,
    Braces.not_closes_of_ne kind_of_header (by decide)]
  rfl

/-- The method ends with a return, whatever has been declared in it. -/
theorem exists_steps_return {t : Stack} (hdepth : t.depth = 2) (hactive : t.active = some ⟨method, 2⟩)
    (w : Window) :
    ∃ q, Progress.steps ⟨⟨t, methods⟩, some w⟩ [⟨0, returnLine⟩, ⟨0, blockEnd⟩] = .ok q := by
  have hinside : t.isInsideMethod = true := by
    rw [Stack.isInsideMethod, hactive]
    rfl
  have htrack : t.track returnLine = .ok t :=
    track_of_semicolon t kind_of_return (by decide) (by decide)
  obtain ⟨u, hu⟩ := Stack.exists_exit_iff.2 (hdepth.ge : 1 < t.depth)
  have houtside : u.isInsideMethod = false := by
    obtain ⟨hd, ha, -⟩ := Stack.exit_eq_ok hu
    have hone : u.depth = 1 := Nat.succ.inj (hd.trans hdepth)
    rw [Stack.isInsideMethod, ha, hactive, hone]
    rfl
  have hreturn : Progress.step ⟨⟨t, methods⟩, some w⟩ returnLine =
      .ok ⟨⟨t, methods⟩, some (w.push .returnStatement)⟩ :=
    Progress.Stepped.step_eq kind_of_return (.stay rfl htrack .returnStatement hinside)
  have hend : Progress.step ⟨⟨t, methods⟩, some (w.push .returnStatement)⟩ blockEnd =
      .ok ⟨⟨{ u with globals := w.globals }, methods⟩, none⟩ :=
    Progress.Stepped.step_eq kind_of_blockEnd
      (.leave (w := w.push .returnStatement) rfl ((exit_blockEnd t).trans hu) .scopeEnd houtside rfl)
  exact ⟨_, walk_cons_eq_ok.2 ⟨_, hreturn, walk_singleton_eq_ok.2 hend⟩⟩

/-- Within the method, only the line can fail. -/
theorem exists_stepped_iff (hkind : Kind.of line = .ok .declaration) :
    (∃ q, walked Progress.step ⟨outside (∅, methods), none⟩ (lines line) = some q) ↔
      ∃ t, inside.declareLine line = .ok t := by
  have htrack : inside.track line = .ok inside :=
    track_of_semicolon inside hkind (by decide) (Kind.getLast?_of_ending hkind rfl)
  rw [lines, walked_cons, step_header]
  show (∃ q, walked Progress.step _ _ = some q) ↔ _
  simp only [stepped_eq_some_iff, List.map_cons, List.map_nil]
  constructor
  · rintro ⟨q, hq⟩
    obtain ⟨r, hr, -⟩ := walk_cons_eq_ok.1 hq
    obtain ⟨kind, hkind', hstep⟩ := Progress.step_eq_ok hr
    obtain rfl : kind = .declaration := Except.ok.inj (hkind'.symm.trans hkind)
    cases hstep with
    | skip outside => cases outside
    | stay _ tracked checked | leave _ tracked checked =>
      obtain rfl := Except.ok.inj (htrack.symm.trans tracked)
      cases checked with
      | declaration done => exact ⟨_, done⟩
  · rintro ⟨t, ht⟩
    obtain ⟨hdepth, hactive⟩ := Stack.declareLine_keeps ht
    have hinside : t.isInsideMethod = true := by
      rw [Stack.isInsideMethod, hactive]
      rfl
    have hline := Progress.Stepped.step_eq hkind
      (.stay (p := ⟨⟨inside, methods⟩, some { method, globals := ∅ }⟩) rfl htrack (.declaration ht) hinside)
    obtain ⟨q, hq⟩ := exists_steps_return methods hdepth hactive _
    exact ⟨q, walk_cons_eq_ok.2 ⟨_, hline, hq⟩⟩

/-! ### The outline of the method -/

theorem shift_header : Braces.shift header 1 = 2 := Braces.shift_of_ending kind_of_header rfl 1

theorem shift_returnLine : Braces.shift returnLine 2 = 2 := by decide

theorem shift_blockEnd : Braces.shift blockEnd 2 = 1 := by decide

theorem balance_lines (line : Text) : balanceBehind 0 (lines line) = Braces.balance line := by
  have hheader : Braces.balance header = 1 := by decide
  have hreturn : Braces.balance returnLine = 0 := by decide
  simp only [lines, balanceBehind_cons, balanceBehind_nil, hheader, hreturn, balance_blockEnd]
  omega

section

variable (hkind : Kind.of line = .ok .declaration)
include hkind

theorem shift_line : Braces.shift line 2 = 2 :=
  Braces.shift_of_semicolon hkind (by decide) (Kind.getLast?_of_ending hkind rfl) 2

theorem depthAfter_lines : depthAfter 1 (lines line) = 1 := by
  simp only [lines, depthAfter_cons, shift_header, shift_line hkind, shift_returnLine, shift_blockEnd,
    depthAfter_nil]

theorem placedAll_lines : PlacedAll 1 (lines line) := by
  simp only [lines, PlacedAll, shift_header, shift_line hkind, shift_returnLine]
  exact ⟨⟨_, kind_of_header, by simp [shift_header]⟩, ⟨_, hkind, by simp [shift_line hkind]⟩,
    ⟨_, kind_of_return, by simp [shift_returnLine]⟩, ⟨_, kind_of_blockEnd, by simp [shift_blockEnd]⟩,
    trivial⟩

/-- The method declares no globals. -/
theorem apply_lines : (globalLines 1 (lines line)).foldlM applyLine ∅ = some ∅ := by
  have hglobals : globalLines 1 (lines line) = [blockEnd] := by
    simp only [lines, globalLines, shift_header, shift_line hkind, shift_returnLine, shift_blockEnd]
    rfl
  simp only [hglobals, List.foldlM_cons, applyLine, kind_of_blockEnd]
  rfl

theorem register_lines :
    (lines line).foldlM registerLine ∅ = some ((∅ : Registry).insert method.name method) := by
  simp only [lines, List.foldlM_cons, registerLine, kind_of_header, hkind, kind_of_return,
    kind_of_blockEnd, registerKind, ofLine_header]
  rfl

/-- The method around a declaration is legal when the line is balanced and can be carried
out. -/
theorem legal_iff :
    (∃ known, Legal (lines line) known) ↔
      Braces.balance line = 0 ∧ ∃ t, inside.declareLine line = .ok t := by
  constructor
  · rintro ⟨⟨globals, methods⟩, h⟩
    have hempty := h.globals
    rw [apply_lines hkind] at hempty
    cases hempty
    exact ⟨(balance_lines line).symm.trans h.balanced, (exists_stepped_iff methods hkind).1 ⟨_, h.bodies⟩⟩
  · rintro ⟨hzero, hdeclared⟩
    obtain ⟨q, hq⟩ := (exists_stepped_iff ((∅ : Registry).insert method.name method) hkind).2 hdeclared
    refine ⟨(∅, (∅ : Registry).insert method.name method), ?_⟩
    exact
      { balanced := (balance_lines line).trans hzero
        placed := placedAll_lines hkind
        closed := depthAfter_lines hkind
        globals := apply_lines hkind
        methods := register_lines hkind
        bodies := stepped_outside hq (depthAfter_lines hkind) ▸ hq }

end

theorem isLine_lines (h : IsLine marker line) : ∀ l ∈ lines line, IsLine marker l := by
  have hheader : IsLine marker header :=
    ⟨⟨⟨'v', rfl, by decide⟩, ⟨'{', rfl, by decide⟩⟩, by decide, by decide⟩
  have hreturn : IsLine marker returnLine :=
    ⟨⟨⟨'r', rfl, by decide⟩, ⟨';', rfl, by decide⟩⟩, by decide, by decide⟩
  simp [lines, hheader, h, hreturn, isLine_blockEnd]

end Enclosure

/-- A line that declares a variable with a literal is balanced when the literal is. -/
theorem balance_initializerLine (hx : Name.checkVariable x = .ok ()) (isFinal : Bool)
    (hv : ty.holds v = true) :
    Braces.balance (initializerLine isFinal ty x v) = 0 ↔ (ty = .char → '{' ∉ v ∧ '}' ∉ v) := by
  have hline : initializerLine isFinal ty x v =
      (typed isFinal ty ++ (' ' :: (x ++ [' ', '=', ' ']))) ++ (v ++ [';']) := by
    simp [initializerLine, initializer]
  have hplain : Plain (typed isFinal ty ++ (' ' :: (x ++ [' ', '=', ' ']))) :=
    (typed_plain isFinal ty).append (.cons (by decide) ((Word.ofName hx).plain.append
      (.cons (by decide) (.cons (by decide) (.cons (by decide) .nil)))))
  have hname : '"' ∉ x := (Word.ofName hx).not_mem (by decide)
  have htyped : '"' ∉ typed isFinal ty := by cases isFinal <;> cases ty <;> decide
  rw [hline, Braces.balance_append hplain (by simp [hname, htyped]), Ty.balance_literal hv]

theorem isLine_initializerLine (hx : Name.checkVariable x = .ok ()) (isFinal : Bool) (ty : Ty)
    (hline : '\n' ∉ v) : IsLine marker (initializerLine isFinal ty x v) where
  trimmed := isTrimmed_declaration isFinal ty _
  newline_not_mem := by
    have htyped : '\n' ∉ typed isFinal ty := by cases isFinal <;> cases ty <;> decide
    have hbody := newline_not_mem_initializer hx hline
    simp [initializerLine, htyped, hbody]
  not_comment := by cases isFinal <;> cases ty <;> rfl

/-- A literal can be used in the declaration of a variable of its type, within a method,
unless it holds an equals sign, a comma, or, as a character, a brace. -/
theorem Content.verify_initializer_iff (hx : Name.checkVariable x = .ok ()) (hv : ty.holds v = true)
    (hline : '\n' ∉ v) :
    (∃ s, (text ((Enclosure.lines (initializerLine false ty x v)).flatMap (· ++ ['\n']))).verify
        ({} : Config).marker = .ok s) ↔
      '=' ∉ v ∧ ',' ∉ v ∧ (ty = .char → '{' ∉ v ∧ '}' ∉ v) := by
  have hkind := kind_of_initializerLine hx false ty hline
  have hlines := Enclosure.isLine_lines (isLine_initializerLine hx false ty hline)
  have hlegal : (∃ s, (text ((Enclosure.lines (initializerLine false ty x v)).flatMap
      (· ++ ['\n']))).verify ({} : Config).marker = .ok s) ↔
      ∃ known, Legal (Enclosure.lines (initializerLine false ty x v)) known := by
    constructor
    · rintro ⟨s, hs⟩
      obtain ⟨known, h, -⟩ := (verify_lines_iff hlines).1 hs
      exact ⟨known, h⟩
    · rintro ⟨known, h⟩
      exact ⟨_, (verify_lines_iff hlines).2 ⟨known, h, rfl⟩⟩
  have hdeclared : (∃ t, Enclosure.inside.declareLine (initializerLine false ty x v) = .ok t) ↔
      '=' ∉ v ∧ ',' ∉ v := by
    have hfree : x ∉ Enclosure.inside.innermost := Std.ExtTreeMap.not_mem_empty
    rw [exists_eq_ok_iff, Stack.declareLine_initializer hx hv false hfree
      fun w _ => Enclosure.lookup_inside w]
    split <;> simp [*]
  rw [hlegal, Enclosure.legal_iff hkind, balance_initializerLine hx false hv, hdeclared]
  tauto

/-- Double quotes hide braces and semicolons. -/
theorem Content.verify_initializer_iff_string :
    let x : Text := "s1".toList
    let v : Text := "\"\x7b;\x7d\"".toList
    let source : Text := "void f() \x7b\nString s1 = \"\x7b;\x7d\";\nreturn;\n\x7d\n".toList
    (Name.checkVariable x = .ok () ∧ Ty.string.holds v = true ∧ '\n' ∉ v) ∧
      source = (Enclosure.lines (initializerLine false .string x v)).flatMap (· ++ ['\n']) ∧
      ∃ s, (text source).verify ({} : Config).marker = .ok s := by
  intro x v source
  have hx : Name.checkVariable x = .ok () := by decide
  have hv : Ty.string.holds v = true := by decide
  have hline : '\n' ∉ v := by decide
  exact ⟨⟨hx, hv, hline⟩, rfl, (verify_initializer_iff hx hv hline).2 (by decide)⟩

/-- The comma is a character that no variable can be declared with. -/
theorem Content.not_verify_initializer_comma :
    (Name.checkVariable ['x'] = .ok () ∧ Ty.char.holds ['\'', ',', '\''] = true) ∧
      ¬∃ s, (text "void f() \x7b\nchar x = ',';\nreturn;\n\x7d\n".toList).verify
        ({} : Config).marker = .ok s := by
  refine ⟨by decide, ?_⟩
  rw [exists_eq_ok_iff]
  decide +kernel

end SJava
