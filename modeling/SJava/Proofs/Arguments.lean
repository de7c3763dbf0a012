import SJava.Proofs.Initializers
import SJava.Proofs.Pieces

/-!
# Arguments

To pass an argument is to declare the parameter: the argument is checked as the value in
the declaration of a variable of the parameter's type, in a block of its own.

* `Call.ofLine_line`, `Call.exists_line`: a call line by what stands between its commas;
* `Stack.declareLine_argument`: the declaration of a parameter with an argument;
* `Stack.PassesAsDeclared`, `Stack.passesAsDeclared`: a call and the declarations of the
  parameters, with the same verdict and the same fault.
-/

namespace SJava

open SJava.Tree

/-! ## Call lines -/

namespace Call

/-- A call line by what stands in front of its parentheses, between the commas in them, and
behind them. -/
def line (front : Text) (pieces : List Text) (back : Text) : Text :=
  front ++ '(' :: (commas pieces ++ ')' :: back)

/-- The parts that a call line can have. -/
structure Parts (front : Text) (pieces : List Text) (back : Text) : Prop where
  front : '(' ∉ front
  comma : ∀ p ∈ pieces, ',' ∉ p
  back : ')' ∉ back

/-- Every call line has such parts. -/
theorem exists_line {line : Text} (h : Kind.of line = .ok .call) :
    ∃ front pieces back, Parts front pieces back ∧ line = Call.line front pieces back := by
  have hm := (Kind.fits_iff_matches (by decide)).1 (Kind.fits_of_eq_ok h)
  obtain ⟨u, name, b, rest, rfl, hu, hname, hb, hrest⟩ := Kind.exists_front hm
  obtain ⟨-, hpart⟩ := Kind.isNamePart_of_name hname fun _ => Kind.isNamePart_of_letter
  have hfront : '(' ∉ u ++ name ++ b := Text.not_mem_around hu hpart hb (by decide) (by decide)
  cases hlast : Text.beforeLast? ')' rest with
  | none => exact absurd hrest (Text.beforeLast?_eq_none_iff.1 hlast)
  | some inside =>
    obtain ⟨back, rfl, hback⟩ := Text.beforeLast?_eq_some_iff.1 hlast
    refine ⟨u ++ name ++ b, inside.splitOn ',', back, ⟨hfront, fun _ => Text.not_mem_of_mem_splitOn, hback⟩, ?_⟩
    rw [Call.line, commas, List.intercalate_splitOn]

/-- What stands between the commas are the arguments, unless it is blanks alone. -/
theorem ofLine_line {front back : Text} {pieces : List Text} (h : Parts front pieces back)
    (hblank : pieces.map Text.trim ≠ [[]]) :
    Call.ofLine (line front pieces back) = .ok ⟨Text.trim front, pieces.map Text.trim⟩ := by
  rw [Call.ofLine, line, parenthesized_append (commas pieces) h.front h.back]
  simp only [ok_bind, pure, Except.pure, Except.ok.injEq, Call.mk.injEq, true_and]
  by_cases hnil : pieces = []
  · subst hnil
    rfl
  have hsplit : (commas pieces).splitOn ',' = pieces := splitOn_commas hnil h.comma
  have hinside := Text.trim_commas_ne_nil hnil h.comma hblank
  simp only [List.isEmpty_iff, hinside, if_false, Text.map_trim_splitOn_trim (c := ',') (by decide), hsplit]

end Call

/-! ## Declarations of parameters -/

/-- A clause with a value, which need not be there. -/
theorem Clause.ofText_argument {x a : Text} (hx : Name.checkVariable x = .ok ())
    (ha : Text.trim a = a) (heq : '=' ∉ a) : ofText (initializer x a) = .ok ⟨x, some a⟩ := by
  have hname : '=' ∉ x := (Word.ofName hx).not_mem (by decide)
  have htarget : Text.trim (x ++ [' ']) = x := by
    exact Text.trim_around (u := []) (by simp) (Word.ofName hx).isTrimmed (Text.forall_of_all (by decide))
  have hvalue : Text.trim (' ' :: a) = a := by
    have := Text.trim_of_blanks_around (u := [' ']) (v := []) (Text.forall_of_all (by decide)) (by simp) a
    rw [List.append_nil, ha] at this
    exact this
  simp only [ofText, splitOn_initializer hname heq, htarget, hvalue]

theorem Declaration.ofLine_argument {x a : Text} (hx : Name.checkVariable x = .ok ()) (ty : Ty)
    (ha : Text.trim a = a) (heq : '=' ∉ a) (hcomma : ',' ∉ a) :
    Declaration.ofLine (initializerLine false ty x a) = .ok ⟨false, ty.keyword, [⟨x, some a⟩]⟩ := by
  have hname : ',' ∉ x := (Word.ofName hx).not_mem (by decide)
  have hpiece : ∀ p ∈ [initializer x a], ',' ∉ p := by simp [initializer, hname, hcomma]
  have hclauses : [initializer x a].mapM Clause.ofText = .ok [⟨x, some a⟩] :=
    mapM_eq_ok_iff.2 (.cons (Clause.ofText_argument hx ha heq) .nil)
  have hcommas : commas [initializer x a] = initializer x a := by simp [commas]
  rw [initializerLine, ← hcommas, ofLine_typed_commas false ty (List.cons_ne_nil _ _) hpiece, hclauses]
  rfl

namespace Stack

variable (s : Stack)

@[simp] theorem lookup_enter (name : Text) : s.enter.lookup name = s.lookup name := by
  rw [lookup, tables_enter, Scope.lookup_cons, Std.ExtTreeMap.getElem?_empty, Option.none_or, lookup]

/-- The declaration of a variable with the argument as its value, in a block of its own,
does what checking the argument does. -/
theorem declareLine_argument {x a : Text} (hx : Name.checkVariable x = .ok ()) (v : Variable)
    (ha : Text.trim a = a) (heq : '=' ∉ a) (hcomma : ',' ∉ a) :
    (s.enter.declareLine (initializerLine false v.ty x a)).map (fun _ => ()) =
      Method.checkArgument s.lookup v a := by
  have hlookup : s.enter.lookup = s.lookup := funext s.lookup_enter
  have hfree (w : Variable) : w.name ∉ s.enter.innermost := Std.ExtTreeMap.not_mem_empty
  have hclause : s.enter.clauseVariable v.ty false ⟨x, some a⟩ =
      Variable.resolve s.lookup v.ty a >>= fun value =>
        (v.ty.checkValue value).map fun _ => ⟨x, v.ty, false, some value⟩ := by
    rw [clauseVariable, Variable.new_eq_ok_iff.2 ⟨hx, rfl⟩, ok_bind]
    simp only [hlookup, Variable.setInitial, Variable.isInitialized, Option.isSome_none, Bool.and_false]
    rfl
  have hsame : (s.enter.clauseVariable v.ty false ⟨x, some a⟩).map (fun _ => ()) =
      Method.checkArgument s.lookup v a := by
    rw [hclause, Method.checkArgument]
    cases Variable.resolve s.lookup v.ty a with
    | error fault => rfl
    | ok value => rw [ok_bind, ok_bind]; cases v.ty.checkValue value <;> rfl
  have hline := Declaration.ofLine_argument hx v.ty ha heq hcomma
  rw [← hsame]
  cases hw : s.enter.clauseVariable v.ty false ⟨x, some a⟩ with
  | ok w => rw [declareLine_single hline hw (hfree w)]; rfl
  | error fault =>
    rw [declareLine, hline, ok_bind, declareClauses, Ty.ofKeyword_keyword, ok_bind, List.mapM_cons, hw]
    rfl

/-- So the declaration succeeds when the argument is accepted, and fails as it does. -/
theorem declareLine_argument_iff {x p : Text} (hx : Name.checkVariable x = .ok ()) (v : Variable)
    (heq : '=' ∉ p) (hcomma : ',' ∉ p) :
    ((∃ t, s.enter.declareLine (initializerLine false v.ty x (Text.trim p)) = .ok t) ↔
      Method.checkArgument s.lookup v (Text.trim p) = .ok ()) ∧
    ∀ fault, s.enter.declareLine (initializerLine false v.ty x (Text.trim p)) = .error fault ↔
      Method.checkArgument s.lookup v (Text.trim p) = .error fault := by
  have hsame := s.declareLine_argument hx v (Text.trim_trim p) (fun h => heq (Text.mem_of_mem_trim h))
    fun h => hcomma (Text.mem_of_mem_trim h)
  rw [← hsame]
  cases s.enter.declareLine (initializerLine false v.ty x (Text.trim p)) <;> simp [Except.map]

end Stack

/-! ## Calls -/

namespace Method

variable {lookup : Text → Option Variable} {m : Method} {arguments : List Text}

/-- Arguments are accepted when there are as many as parameters, and each is by its own. -/
theorem checkArguments_eq_ok_iff : m.checkArguments lookup arguments = .ok () ↔
    arguments.length = m.parameters.length ∧ ∀ (i : Nat) (v : Variable) (a : Text),
      m.parameters[i]? = some v → arguments[i]? = some a → checkArgument lookup v a = .ok () := by
  by_cases hlength : arguments.length = m.parameters.length
  · rw [checkArguments, if_pos hlength, forM_eq_ok_iff, and_iff_right hlength]
    constructor
    · intro hall i v a hv ha
      exact hall (v, a) (List.mem_of_getElem? (List.getElem?_zip_eq_some.2 ⟨hv, ha⟩))
    · rintro hall ⟨v, a⟩ hmem
      obtain ⟨i, hi⟩ := List.mem_iff_getElem?.1 hmem
      obtain ⟨hv, ha⟩ := List.getElem?_zip_eq_some.1 hi
      exact hall i v a hv ha
  · rw [checkArguments, if_neg hlength]
    exact iff_of_false (by rintro ⟨⟩) fun h => hlength h.1

/-- The first argument that is refused tells the fault. -/
theorem checkArguments_eq_error_iff {fault : Fault} (hlength : arguments.length = m.parameters.length) :
    m.checkArguments lookup arguments = .error fault ↔ ∃ (i : Nat) (v : Variable) (a : Text),
      m.parameters[i]? = some v ∧ arguments[i]? = some a ∧ checkArgument lookup v a = .error fault ∧
        ∀ j < i, ∀ (w : Variable) (b : Text), m.parameters[j]? = some w → arguments[j]? = some b →
          checkArgument lookup w b = .ok () := by
  rw [checkArguments, if_pos hlength, forM_eq_error_iff]
  constructor
  · rintro ⟨i, ⟨v, a⟩, hi, hfault, hbefore⟩
    obtain ⟨hv, ha⟩ := List.getElem?_zip_eq_some.1 hi
    refine ⟨i, v, a, hv, ha, hfault, fun j hj w b hw hb => ?_⟩
    exact hbefore j hj (w, b) (List.getElem?_zip_eq_some.2 ⟨hw, hb⟩)
  · rintro ⟨i, v, a, hv, ha, hfault, hbefore⟩
    refine ⟨i, (v, a), List.getElem?_zip_eq_some.2 ⟨hv, ha⟩, hfault, ?_⟩
    rintro j hj ⟨w, b⟩ hwb
    obtain ⟨hw, hb⟩ := List.getElem?_zip_eq_some.1 hwb
    exact hbefore j hj w b hw hb

end Method

namespace Stack

variable (s : Stack)

/-- A call that does to its arguments what the declarations of the parameters would do, each
in a block of its own. -/
structure PassesAsDeclared (methods : Registry) (m : Method) (x line : Text) (arguments : List Text) :
    Prop where
  accepted : s.checkCall methods line = .ok () ↔ arguments.length = m.parameters.length ∧
    ∀ (i : Nat) (v : Variable) (a : Text), m.parameters[i]? = some v → arguments[i]? = some a →
      ∃ t, s.enter.declareLine (initializerLine false v.ty x a) = .ok t
  /-- The arguments are counted before any is looked at. -/
  counted : arguments.length ≠ m.parameters.length →
    s.checkCall methods line = .error (.argumentCount m.parameters.length arguments.length)
  /-- The first declaration that fails tells the fault. -/
  fault : arguments.length = m.parameters.length → ∀ fault, s.checkCall methods line = .error fault ↔
    ∃ (i : Nat) (v : Variable) (a : Text), m.parameters[i]? = some v ∧ arguments[i]? = some a ∧
      s.enter.declareLine (initializerLine false v.ty x a) = .error fault ∧
        ∀ j < i, ∀ (w : Variable) (b : Text), m.parameters[j]? = some w → arguments[j]? = some b →
          ∃ t, s.enter.declareLine (initializerLine false w.ty x b) = .ok t

theorem passesAsDeclared {methods : Registry} {m : Method} {x front back : Text} {pieces : List Text}
    (hparts : Call.Parts front pieces back) (heq : ∀ p ∈ pieces, '=' ∉ p)
    (hblank : pieces.map Text.trim ≠ [[]]) (hm : methods[Text.trim front]? = some m)
    (hx : Name.checkVariable x = .ok ()) :
    s.PassesAsDeclared methods m x (Call.line front pieces back) (pieces.map Text.trim) := by
  have hcall : s.checkCall methods (Call.line front pieces back) =
      m.checkArguments s.lookup (pieces.map Text.trim) := by
    rw [checkCall, Call.ofLine_line hparts hblank, ok_bind]
    simp only [hm]
  -- each argument is a trimmed piece, and is checked as it is declared
  have hdeclare {i : Nat} {a : Text} (v : Variable) (ha : (pieces.map Text.trim)[i]? = some a) :
      ((∃ t, s.enter.declareLine (initializerLine false v.ty x a) = .ok t) ↔
        Method.checkArgument s.lookup v a = .ok ()) ∧
      ∀ fault, s.enter.declareLine (initializerLine false v.ty x a) = .error fault ↔
        Method.checkArgument s.lookup v a = .error fault := by
    obtain ⟨p, hp, rfl⟩ := List.mem_map.1 (List.mem_of_getElem? ha)
    exact s.declareLine_argument_iff hx v (heq p hp) (hparts.comma p hp)
  refine
    { accepted := ?accepted
      counted := fun hne => by rw [hcall, Method.checkArguments, if_neg hne]
      fault := fun hlength fault => ?fault }
  case accepted =>
    rw [hcall, Method.checkArguments_eq_ok_iff]
    refine and_congr_right fun _ => forall₃_congr fun i v a => ?_
    exact forall₂_congr fun _ ha => (hdeclare v ha).1.symm
  case fault =>
    rw [hcall, Method.checkArguments_eq_error_iff hlength]
    refine exists₃_congr fun i v a => and_congr_right fun _ => and_congr_right fun ha => ?_
    refine and_congr ((hdeclare v ha).2 fault).symm (forall₂_congr fun j _ => ?_)
    exact forall₄_congr fun w b _ hb => (hdeclare w hb).1.symm

/-- A call with two arguments that are refused, of which the first one is reported. -/
theorem passesAsDeclared_twoRefused :
    let m : Method := ⟨['f'], [⟨['n'], .int, false, none⟩, ⟨['d'], .double, false, none⟩]⟩
    let methods : Registry := (∅ : Registry).insert ['f'] m
    let s : Stack := { blocks := [∅], active := some ⟨m, 2⟩ }
    let line := "f( 1.5 , b) ;".toList
    let arguments := ["1.5".toList, "b".toList]
    s.PassesAsDeclared methods m ['x'] line arguments ∧
      s.checkCall methods line = .error (.invalidValue "int".toList "1.5".toList) := by
  intro m methods s line arguments
  have hparts : Call.Parts ['f'] [" 1.5 ".toList, " b".toList] " ;".toList :=
    { front := by decide, comma := by decide, back := by decide }
  have hpasses : s.PassesAsDeclared methods m ['x'] line arguments :=
    s.passesAsDeclared hparts (by decide) (by decide) Std.ExtTreeMap.getElem?_insert_self (by decide)
  exact ⟨hpasses, by decide +kernel⟩

end Stack

end SJava
