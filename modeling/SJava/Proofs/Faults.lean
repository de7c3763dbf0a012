import SJava.Proofs.Effects
import SJava.Proofs.Leads

/-!
# Which faults a check can raise

A check `Raises` nothing but faults of some kind. The faults in the form of a line come
from telling its kind; what a statement says of variables, methods and values can be at
fault in other ways (`Fault.isOfUse`), and behind the kind of a line these are all that
its check raises, but for a declaration that cannot be taken apart.

* `Call.exists_ofLine`, `Condition.raises_operands`: a line that is a call or a
  condition has the parentheses it is taken apart at;
* `Stack.raises_declareClauses`, `Stack.raises_assignLine`, `Stack.raises_checkCondition`,
  `Stack.raises_checkCall`: the statements.
-/

namespace SJava

namespace Fault

/-- Whether the fault is in the form of a line, or in its braces. -/
def isOfForm : Fault → Bool
  | .missingTerminator | .invalidLineFormat | .invalidMethodDeclaration | .noScopeToExit => true
  | _ => false

/-- Whether the fault is in what a statement says of variables, methods and values. -/
def isOfUse : Fault → Bool
  | .invalidAssignment | .invalidCondition | .invalidName _ | .reservedName _
  | .variableAlreadyDeclared _ | .variableNotDeclared _ | .methodNotDeclared _
  | .incompatibleTypes .. | .invalidConditionOperand .. | .invalidValue ..
  | .finalNotInitialized _ | .finalReassignment _ | .variableNotInitialized _
  | .argumentCount .. => true
  | _ => false

theorem isOfForm_of_isOfUse {fault : Fault} (h : fault.isOfUse = true) : fault.isOfForm = false := by
  cases fault <;> first | rfl | cases h

end Fault

/-- Every fault that is raised satisfies `P`. -/
def Raises {α : Type} (P : Fault → Prop) (x : Except Fault α) : Prop := ∀ fault, x = .error fault → P fault

/-- No fault in the form of a line is raised. -/
def NoForm {α : Type} (x : Except Fault α) : Prop := ∀ fault, x = .error fault → fault.isOfForm = false

namespace Raises

variable {α β : Type} {P : Fault → Prop}

theorem ok (a : α) : Raises P (.ok a) := nofun

theorem error {fault : Fault} (h : P fault) : Raises P (.error fault : Except Fault α) := by
  rintro _ ⟨⟩
  exact h

theorem mono {Q : Fault → Prop} {x : Except Fault α} (hx : Raises P x) (h : ∀ fault, P fault → Q fault) :
    Raises Q x :=
  fun fault he => h fault (hx fault he)

theorem bind {x : Except Fault α} {f : α → Except Fault β} (hx : Raises P x)
    (hf : ∀ a, x = .ok a → Raises P (f a)) : Raises P (x >>= f) := by
  intro fault h
  rcases bind_eq_error_iff.1 h with h | ⟨a, ha, h⟩
  · exact hx fault h
  · exact hf a ha fault h

theorem map {x : Except Fault α} {f : α → β} (hx : Raises P x) : Raises P (x.map f) := by
  intro fault h
  cases x with
  | error fault =>
    cases h
    exact hx fault rfl
  | ok a => cases h

theorem mapM {f : α → Except Fault β} (hf : ∀ a, Raises P (f a)) (xs : List α) :
    Raises P (xs.mapM f) := by
  induction xs with
  | nil => exact ok _
  | cons x xs ih =>
    rw [List.mapM_cons]
    exact (hf x).bind fun _ _ => ih.bind fun _ _ => ok _

theorem forM {f : α → Except Fault Unit} (hf : ∀ a, Raises P (f a)) (xs : List α) :
    Raises P (xs.forM f) := by
  induction xs with
  | nil => exact ok _
  | cons x xs ih => exact (hf x).bind fun _ _ => ih

theorem foldlM {f : β → α → Except Fault β} (hf : ∀ b a, Raises P (f b a)) (b : β) (xs : List α) :
    Raises P (xs.foldlM f b) := by
  induction xs generalizing b with
  | nil => exact ok _
  | cons x xs ih =>
    rw [List.foldlM_cons]
    exact (hf b x).bind fun _ _ => ih _

/-- A fault in what a statement says is none in the form of its line. -/
theorem noForm {x : Except Fault α} (hx : Raises (·.isOfUse = true) x) : NoForm x :=
  hx.mono fun _ => Fault.isOfForm_of_isOfUse

end Raises

/-! ## Taking lines apart -/

namespace Text

variable {u w b : Text}

theorem not_mem_of_blanks (hu : ∀ c ∈ u, isBlank c = true) {c : Char} (hc : isBlank c = false) :
    c ∉ u := by
  intro h
  rw [hu c h] at hc
  cases hc

theorem not_mem_of_name (hw : ∀ c ∈ w, isNamePart c = true) {c : Char} (hc : isNamePart c = false) :
    c ∉ w := by
  intro h
  rw [hw c h] at hc
  cases hc

theorem IsTrimmed.of_name (hne : w ≠ []) (hw : ∀ c ∈ w, isNamePart c = true) : IsTrimmed w :=
  .of_forall hne fun c hc => CharSet.isBlank_of_namePart (hw c hc)

/-- A word with blanks around it holds nothing else. -/
theorem not_mem_around (hu : ∀ c ∈ u, isBlank c = true) (hw : ∀ c ∈ w, isNamePart c = true)
    (hb : ∀ c ∈ b, isBlank c = true) {c : Char} (hblank : isBlank c = false) (hname : isNamePart c = false) :
    c ∉ u ++ w ++ b := by
  have hu := not_mem_of_blanks hu hblank
  have hw := not_mem_of_name hw hname
  have hb := not_mem_of_blanks hb hblank
  simp [hu, hw, hb]

/-- A text is taken apart at its first opening and its last closing parenthesis. -/
theorem exists_parenthesized {front rest : Text} (hfront : '(' ∉ front) (hrest : ')' ∈ rest) :
    ∃ inside, parenthesized (front ++ '(' :: rest) = .ok (front, inside) := by
  have hcut : cut? '(' (front ++ '(' :: rest) = some (front, rest) := cut?_eq_some_iff.2 ⟨rfl, hfront⟩
  cases hlast : beforeLast? ')' rest with
  | none => exact absurd hrest (beforeLast?_eq_none_iff.1 hlast)
  | some inside => exact ⟨inside, by simp only [parenthesized, hcut, hlast]⟩

end Text

open Pattern in
/-- The front of a line whose form has parentheses. -/
theorem Kind.exists_front {p q : Pattern} {k : CharSet} {line : Text}
    (h : (blanks ++ p ++ blanks ++ parenthesized k ++ blanks ++ q ++ blanks).Matches line) :
    ∃ u w b rest, line = u ++ w ++ b ++ '(' :: rest ∧ (∀ c ∈ u, Text.isBlank c = true) ∧ p.Matches w ∧
      (∀ c ∈ b, Text.isBlank c = true) ∧ ')' ∈ rest := by
  obtain ⟨_, v₃, rfl, ⟨_, v₂, rfl, ⟨_, v₁, rfl, ⟨_, _, rfl, ⟨_, b, rfl, ⟨u, w, rfl, hu, hw⟩, hb⟩, hpar⟩,
    -⟩, -⟩, -⟩ := h
  obtain ⟨_, _, rfl, ⟨_, x, rfl, hopen, -⟩, hclose⟩ := hpar
  obtain rfl := matches_char.1 hopen
  obtain rfl := matches_char.1 hclose
  exact ⟨u, w, b, x ++ ')' :: (v₁ ++ (v₂ ++ v₃)), by simp, hu, hw, hb, by simp⟩

/-- A call can be taken apart, and calls a method by a name. -/
theorem Call.exists_ofLine {line : Text} (h : Kind.of line = .ok .call) :
    ∃ call, Call.ofLine line = .ok call ∧ Name.methodPattern.Matches call.name := by
  have hm := (Kind.fits_iff_matches (by decide)).1 (Kind.fits_of_eq_ok h)
  obtain ⟨u, name, b, rest, rfl, hu, hname, hb, hrest⟩ := Kind.exists_front hm
  obtain ⟨hne, hpart⟩ := Kind.isNamePart_of_name hname fun _ => Kind.isNamePart_of_letter
  have hfront : '(' ∉ u ++ name ++ b := Text.not_mem_around hu hpart hb (by decide) (by decide)
  obtain ⟨inside, hinside⟩ := Text.exists_parenthesized hfront hrest
  have htrim := Text.trim_around hu (.of_name hne hpart) hb
  rw [Call.ofLine, hinside]
  exact ⟨_, rfl, by rw [htrim]; exact hname⟩

/-- The operands of a condition can be told apart; they can only be too few. -/
theorem Condition.raises_operands {line : Text} (h : Kind.of line = .ok .condition) :
    Raises (· = .invalidCondition) (Condition.operands line) := by
  have hm := (Kind.fits_iff_matches (by decide)).1 (Kind.fits_of_eq_ok h)
  obtain ⟨u, w, b, rest, rfl, hu, hw, hb, hrest⟩ := Kind.exists_front hm
  have hpart : ∀ c ∈ w, Text.isNamePart c = true := by
    rw [Pattern.matches_or, Pattern.matches_word, Pattern.matches_word] at hw
    rcases hw with rfl | rfl <;> exact Text.forall_of_all (by decide)
  have hfront : '(' ∉ u ++ w ++ b := Text.not_mem_around hu hpart hb (by decide) (by decide)
  obtain ⟨inside, hinside⟩ := Text.exists_parenthesized hfront hrest
  rw [Condition.operands, hinside]
  refine .bind (.ok _) fun _ _ => ?_
  dsimp only
  split
  · exact .bind (.error rfl) fun _ _ => .ok _
  · exact .ok _

theorem Clause.raises_ofText (piece : Text) : Raises (· = .invalidLineFormat) (Clause.ofText piece) := by
  unfold Clause.ofText
  split <;> first | exact .ok _ | exact .error rfl

/-- A declaration line that cannot be taken apart is refused for its format. -/
theorem Declaration.raises_ofLine (line : Text) :
    Raises (· = .invalidLineFormat) (Declaration.ofLine line) := by
  unfold Declaration.ofLine
  dsimp only
  split
  · exact .bind (.error rfl) fun _ _ => .bind (.mapM Clause.raises_ofText _) fun _ _ => .ok _
  · exact .bind (.mapM Clause.raises_ofText _) fun _ _ => .ok _

theorem Assignment.raises_allOfLine (line : Text) :
    Raises (· = .invalidAssignment) (Assignment.allOfLine line) := by
  refine .mapM (fun piece => ?_) _
  unfold Assignment.ofText
  split
  · exact .ok _
  · exact .error rfl

/-! ## Variables and methods -/

theorem Name.raises_check (p : Pattern) (name : Text) : Raises (·.isOfUse = true) (Name.check p name) := by
  unfold Name.check
  split
  · exact .error rfl
  · split
    · exact .ok _
    · exact .error rfl

theorem Ty.raises_checkValue (ty : Ty) (value : Text) :
    Raises (·.isOfUse = true) (ty.checkValue value) := by
  unfold Ty.checkValue
  split
  · exact .ok _
  · exact .error rfl

theorem Ty.raises_ofKeyword (token : Text) : Raises (· = .unknownType token) (Ty.ofKeyword token) := by
  unfold Ty.ofKeyword
  split
  · exact .ok _
  · exact .error rfl

namespace Variable

theorem raises_resolve (lookup : Text → Option Variable) (target : Ty) (raw : Text) :
    Raises (·.isOfUse = true) (resolve lookup target raw) := by
  unfold resolve
  split
  · split
    · exact .error rfl
    · split
      · exact .ok _
      · exact .error rfl
  · split
    · exact .error rfl
    · exact .ok _

theorem raises_setInitial (v : Variable) (literal : Text) :
    Raises (·.isOfUse = true) (v.setInitial literal) := by
  unfold setInitial
  split
  · exact .error rfl
  · exact (Ty.raises_checkValue _ _).map

theorem raises_reassign (v : Variable) (literal : Text) :
    Raises (·.isOfUse = true) (v.reassign literal) := by
  unfold reassign
  split
  · exact .error rfl
  · exact (Ty.raises_checkValue _ _).map

end Variable

theorem Method.raises_checkArguments (lookup : Text → Option Variable) (m : Method)
    (arguments : List Text) : Raises (·.isOfUse = true) (m.checkArguments lookup arguments) := by
  unfold Method.checkArguments
  split
  · exact .forM (fun _ => (Variable.raises_resolve _ _ _).bind fun _ _ => Ty.raises_checkValue _ _) _
  · exact .error rfl

/-! ## Statements -/

namespace Stack

theorem raises_clauseVariable (s : Stack) (ty : Ty) (isFinal : Bool) (c : Clause) :
    Raises (·.isOfUse = true) (s.clauseVariable ty isFinal c) := by
  refine .bind (.bind (Name.raises_check _ _) fun _ _ => .ok _) fun v _ => ?_
  split
  · exact (Variable.raises_resolve _ _ _).bind fun _ _ => Variable.raises_setInitial _ _
  · split
    · exact .error rfl
    · exact .ok _

theorem isOfUse_of_declareAll (s : Stack) (vs : List Variable) {t : Stack} {fault : Fault}
    (h : s.declareAll vs = (t, some fault)) : fault.isOfUse = true := by
  induction vs generalizing s with
  | nil => cases h
  | cons v vs ih =>
    simp only [declareAll, declare] at h
    split at h
    · next u hu => exact ih u h
    · next e he =>
      cases h
      split at he <;> cases he
      rfl

/-- Of the clauses of a declaration, one can be at fault, or their type. -/
theorem raises_declareClauses (s : Stack) (d : Declaration) :
    Raises (fun fault => Ty.ofKeyword d.typeToken = .error fault ∨ fault.isOfUse = true)
      (s.declareClauses d) := by
  refine .bind (fun _ => .inl) fun ty _ => ?_
  refine .bind ((Raises.mapM (s.raises_clauseVariable ty d.isFinal) _).mono fun _ => .inr) fun vs _ => ?_
  split
  · exact .ok _
  · next h => exact .error (.inr (s.isOfUse_of_declareAll vs h))

theorem noForm_declareClauses (s : Stack) (d : Declaration) : NoForm (s.declareClauses d) := by
  intro fault h
  rcases s.raises_declareClauses d fault h with h | h
  · rw [Ty.raises_ofKeyword _ _ h]
    rfl
  · exact Fault.isOfForm_of_isOfUse h

theorem raises_assign (s : Stack) (a : Assignment) : Raises (·.isOfUse = true) (s.assign a) := by
  unfold assign
  split
  · next target htarget =>
    have hrest : Raises (·.isOfUse = true) (Variable.resolve s.lookup target.ty a.value >>= fun value =>
        (s.update? (·.reassign value) a.target).getD (.error (.variableNotDeclared a.target))) := by
      refine (Variable.raises_resolve _ _ _).bind fun value _ => ?_
      cases hu : s.update? (·.reassign value) a.target with
      | none => exact .error rfl
      | some r =>
        cases r with
        | ok t => exact .ok t
        | error fault =>
          obtain ⟨v, hv⟩ := update?_eq_error hu
          exact .error (Variable.raises_reassign v value fault hv)
    dsimp only
    split
    · exact .bind (.error rfl) fun _ _ => hrest
    · exact hrest
  · exact .error rfl

theorem raises_assignLine (s : Stack) (line : Text) : Raises (·.isOfUse = true) (s.assignLine line) := by
  refine .bind ((Assignment.raises_allOfLine line).mono ?_) fun _ _ => .foldlM raises_assign _ _
  rintro _ rfl
  rfl

theorem raises_checkOperand (s : Stack) (operand : Text) :
    Raises (·.isOfUse = true) (s.checkOperand operand) := by
  unfold checkOperand
  split
  · split
    · exact .error rfl
    · split
      · exact .error rfl
      · exact .ok _
  · split
    · exact .error rfl
    · exact Ty.raises_checkValue _ _

theorem raises_checkCondition {line : Text} (s : Stack) (h : Kind.of line = .ok .condition) :
    Raises (·.isOfUse = true) (s.checkCondition line) := by
  refine .bind ((Condition.raises_operands h).mono ?_) fun _ _ => .forM s.raises_checkOperand _
  rintro _ rfl
  rfl

theorem raises_checkCall {line : Text} (s : Stack) (methods : Registry)
    (h : Kind.of line = .ok .call) : Raises (·.isOfUse = true) (s.checkCall methods line) := by
  obtain ⟨call, hcall, -⟩ := Call.exists_ofLine h
  rw [checkCall, hcall, ok_bind]
  split
  · exact Method.raises_checkArguments _ _ _
  · exact .error rfl

end Stack

end SJava
