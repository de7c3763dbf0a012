import SJava.Proofs.Effects
import SJava.Proofs.Structured.Checker
import SJava.Proofs.Structured.Extraction

/-!
# Statements on a stack and on tables

A statement is carried out on a stack as the structured checker carries it out on
the tables of the stack.

* `Tree.VarLine.toOption_declareLine`, `Tree.SetLine.toOption_assignLine`: statements
  that change the tables;
* `Tree.CallLine.toOption_checkCall`, `Tree.Head.toOption_checkCondition`: those
  that only look at them;
* `Tree.MethodItem.toOption_ofLine`, `Tree.toOption_enterMethod`: methods.
-/

namespace SJava

namespace Tree

variable {env env' : Env} {s : Stack}

/-! ## Tables -/

theorem ne_nil_of_length (hlen : env'.length = env.length) (hne : env ≠ []) : env' ≠ [] := by
  rwa [← List.length_pos_iff, hlen, List.length_pos_iff]

/-- A declaration changes the first table and no other. -/
theorem Env.tail_declare {v : Variable} (h : env.declare v = some env') :
    env'.tail = env.tail ∧ env'.length = env.length := by
  cases env with
  | nil => cases h
  | cons table outer =>
    rw [declare] at h
    split at h
    · cases h
    · rw [← Option.some.inj h]
      exact ⟨rfl, rfl⟩

theorem Env.length_replace (name : Text) (v : Variable) (env : Env) :
    (env.replace name v).length = env.length := by
  induction env with
  | nil => rfl
  | cons table outer ih =>
    rw [replace]
    split
    · rfl
    · rw [List.length_cons, List.length_cons, ih]

theorem Setter.length_check {a : Setter} (h : a.check env = some env') : env'.length = env.length := by
  rw [check] at h
  obtain ⟨target, -, h⟩ := Option.bind_eq_some_iff.1 h
  split at h
  · cases h
  · obtain ⟨text, -, h⟩ := Option.bind_eq_some_iff.1 h
    rw [← Option.some.inj h, Env.length_replace]

/-- What each of some steps keeps, all of them keep. -/
theorem foldlM_keeps {α β : Type} {f : Env → α → Option Env} {g : Env → β}
    (hf : ∀ {env a env'}, f env a = some env' → g env' = g env) {xs : List α}
    (h : xs.foldlM f env = some env') : g env' = g env := by
  induction xs generalizing env with
  | nil => rw [← Option.some.inj h]
  | cons x xs ih =>
    rw [List.foldlM_cons] at h
    obtain ⟨mid, hmid, h⟩ := Option.bind_eq_some_iff.1 h
    exact (ih h).trans (hf hmid)

theorem VarLine.length_check {l : VarLine} (h : l.check env = some env') :
    env'.length = env.length := by
  obtain ⟨vs, -, h⟩ := Option.bind_eq_some_iff.1 h
  exact foldlM_keeps (g := List.length) (fun h => (Env.tail_declare h).2) h

theorem SetLine.length_check {l : SetLine} (h : l.check env = some env') :
    env'.length = env.length :=
  foldlM_keeps (g := List.length) Setter.length_check h

/-- Steps on a stack that are steps on its tables are so one after the other. -/
theorem toOption_foldlM {α : Type} {f : Stack → α → Except Fault Stack} {g : Env → α → Option Env}
    (h : ∀ s a, (f s a).toOption = (g s.tables a).map s.withTables)
    (hg : ∀ {env a env'}, g env a = some env' → env'.length = env.length) (xs : List α) (s : Stack) :
    (xs.foldlM f s).toOption = (xs.foldlM g s.tables).map s.withTables := by
  induction xs generalizing s with
  | nil => exact congrArg some s.withTables_tables.symm
  | cons x xs ih =>
    rw [List.foldlM_cons, List.foldlM_cons, toOption_bind, h]
    cases hx : g s.tables x with
    | none => rfl
    | some mid =>
      have hne : mid ≠ [] := ne_nil_of_length (hg hx) s.tables_ne_nil
      show (xs.foldlM f (s.withTables mid)).toOption = (xs.foldlM g mid).map s.withTables
      rw [ih, s.tables_withTables hne]
      rfl

theorem toOption_declare (s : Stack) (v : Variable) :
    (s.declare v).toOption = (Env.declare s.tables v).map s.withTables := by
  obtain ⟨outer, htables⟩ : ∃ outer, s.tables = s.innermost :: outer := by
    cases hb : s.blocks <;> simp [Stack.tables, Stack.innermost, hb]
  have hinsert : s.insert v = s.withTables (s.innermost.insert v.name v :: outer) := by
    have := Stack.eq_withTables (s.active_insert v)
    rwa [Stack.tables_insert, htables, List.modifyHead_cons] at this
  rw [Stack.declare, htables, Env.declare, hinsert]
  by_cases hv : v.name ∈ s.innermost
  · rw [if_pos hv, if_pos hv]
    rfl
  · rw [if_neg hv, if_neg hv]
    rfl

/-- Declaring variables together is declaring one after the other. -/
theorem foldlM_declare (s : Stack) (vs : List Variable) :
    vs.foldlM Stack.declare s = (s.declareAll vs).2.elim (.ok (s.declareAll vs).1) .error := by
  induction vs generalizing s with
  | nil => rfl
  | cons v vs ih =>
    rw [List.foldlM_cons, Stack.declareAll]
    cases hv : s.declare v with
    | error fault => rfl
    | ok t => exact ih t

theorem toOption_declareAll (s : Stack) (vs : List Variable) :
    ((s.declareAll vs).2.elim (Except.ok (ε := Fault) (s.declareAll vs).1) .error).toOption =
      (vs.foldlM Env.declare s.tables).map s.withTables := by
  rw [← foldlM_declare]
  exact toOption_foldlM toOption_declare (fun h => (Env.tail_declare h).2) vs s

/-! ## Values -/

theorem Word.toOption_checkVariable (w : Word) :
    (Name.checkVariable w.text).toOption = guard w.isName := by
  rw [Name.checkVariable, Name.check, isName]
  cases Name.isReserved w.text with
  | true => rfl
  | false => cases Name.variablePattern.accepts w.text <;> rfl

theorem toOption_checkValue (ty : Ty) (text : Text) :
    (ty.checkValue text).toOption = guard (ty.holds text) := by
  rw [Ty.checkValue]
  cases ty.holds text <;> rfl

/-- What a value stands for is a literal that a variable of the type can hold. -/
theorem Env.literal_eq (s : Stack) (ty : Ty) (v : Value) :
    Env.literal s.tables ty v = do
      let text ← (Variable.resolve s.lookup ty v.text).toOption
      (ty.checkValue text).toOption
      return text := by
  have hlookup : s.lookup v.text = Scope.lookup s.tables v.text := rfl
  have hholds (text : Text) : (if ty.holds text then some text else none) =
      (do (ty.checkValue text).toOption; return text) := by
    rw [toOption_checkValue]
    cases ty.holds text <;> rfl
  rw [literal, Variable.resolve, hlookup]
  simp only [hholds]
  cases Scope.lookup s.tables v.text with
  | none =>
    dsimp only
    cases Name.isNameLike v.text <;> rfl
  | some source =>
    dsimp only
    cases source.value <;> by_cases hwide : Ty.Widens source.ty ty <;> simp [hwide, Except.toOption]

theorem isSome_literal (s : Stack) (ty : Ty) (v : Value) :
    (Env.literal s.tables ty v).isSome =
      (Variable.resolve s.lookup ty v.text >>= ty.checkValue).toOption.isSome := by
  rw [Env.literal_eq, toOption_bind]
  cases (Variable.resolve s.lookup ty v.text).toOption with
  | none => rfl
  | some text => cases h : (ty.checkValue text).toOption <;> simp [h]

/-! ## Declarations -/

theorem Word.toOption_new (w : Word) (ty : Ty) (isFinal : Bool) :
    (Variable.new w.text ty isFinal).toOption =
      if w.isName then some ⟨w.text, ty, isFinal, none⟩ else none := by
  rw [Variable.new, toOption_bind, w.toOption_checkVariable]
  cases w.isName <;> rfl

theorem Declarator.toOption_clauseVariable (s : Stack) (ty : Ty) (isFinal : Bool) (d : Declarator) :
    (s.clauseVariable ty isFinal d.clause).toOption = d.variable s.tables isFinal ty := by
  have hnew : (Variable.new d.clause.name ty isFinal).toOption = _ := d.name.toOption_new ty isFinal
  rw [Stack.clauseVariable, toOption_bind, hnew, Declarator.variable]
  cases d.name.isName with
  | false => rfl
  | true =>
    cases hv : d.value with
    | none =>
      have hclause : d.clause.value = none := by rw [clause, hv, Option.map_none]
      rw [hclause]
      cases isFinal <;> rfl
    | some v =>
      have hclause : d.clause.value = some v.text := by rw [clause, hv, Option.map_some]
      have hset (text : Text) : (Variable.setInitial ⟨d.name.text, ty, isFinal, none⟩ text).toOption =
          (ty.checkValue text).toOption.map fun _ => ⟨d.name.text, ty, isFinal, some text⟩ := by
        rw [Variable.setInitial, Variable.isInitialized, Option.isSome_none, Bool.and_false,
          if_neg Bool.false_ne_true, toOption_map]
      rw [hclause]
      show (Variable.resolve s.lookup ty v.text >>= _).toOption = (Env.literal s.tables ty v).map _
      rw [Env.literal_eq, toOption_bind]
      simp only [hset]
      cases (Variable.resolve s.lookup ty v.text).toOption with
      | none => rfl
      | some text => cases h : (ty.checkValue text).toOption <;> simp [h]

theorem VarLine.toOption_declareLine (s : Stack) (l : VarLine) :
    (s.declareLine l.render).toOption = (l.check s.tables).map s.withTables := by
  rw [Stack.declareLine, l.ofLine_render]
  show (s.declareClauses _).toOption = _
  rw [Stack.declareClauses, Ty.ofKeyword_keyword]
  show Except.toOption ((l.clauses.map (·.clause)).mapM (s.clauseVariable l.ty l.isFinal) >>= _) = _
  rw [toOption_bind, toOption_mapM, List.mapM_map]
  simp only [Function.comp_def, Declarator.toOption_clauseVariable]
  rw [VarLine.check]
  cases l.clauses.mapM (Declarator.variable s.tables l.isFinal l.ty) with
  | none => rfl
  | some vs =>
    refine Eq.trans ?_ (toOption_declareAll s vs)
    simp only [Option.bind_eq_bind, Option.bind_some]
    rcases s.declareAll vs with ⟨t, _ | fault⟩ <;> rfl

/-! ## Assignments -/

/-- Changing the variable that a name stands for is replacing it. -/
theorem update?_eq_replace (f : Variable → Except Fault Variable) (name : Text) (env : Env) :
    Scope.update? f name env =
      (Scope.lookup env name).map fun v => (f v).map fun w => env.replace name w := by
  induction env with
  | nil => rfl
  | cons table outer ih =>
    rw [Scope.update?, Scope.lookup_cons]
    cases ht : table[name]? with
    | some v =>
      have hmem : name ∈ table := Std.ExtTreeMap.mem_iff_isSome_getElem?.2 (by rw [ht]; rfl)
      simp [Env.replace, hmem]
    | none =>
      have hmem : name ∉ table := fun h => by
        have := Std.ExtTreeMap.mem_iff_isSome_getElem?.1 h
        rw [ht] at this
        cases this
      rw [ih]
      cases Scope.lookup outer name with
      | none => rfl
      | some v => cases hf : f v <;> simp [Env.replace, hmem, hf, Except.map]

/-- A variable that is not final takes another value in its place. -/
theorem toOption_reassign {s : Stack} {name : Text} {target : Variable}
    (hv : Scope.lookup s.tables name = some target) (hfinal : ¬target.isFinal = true) (text : Text)
    (fault : Fault) :
    ((s.update? (·.reassign text) name).getD (.error fault)).toOption =
      (target.ty.checkValue text).toOption.map fun _ =>
        s.withTables (Env.replace name { target with value := some text } s.tables) := by
  have hreassign : target.reassign text =
      (target.ty.checkValue text).map fun _ => { target with value := some text } := by
    rw [Variable.reassign, if_neg hfinal]
  rw [Stack.update?_eq_withTables, update?_eq_replace, hv]
  show Except.toOption (((target.reassign text).map _).map s.withTables) = _
  rw [hreassign]
  cases target.ty.checkValue text <;> rfl

/-- The variable an assignment changes must not be final. -/
theorem Setter.toOption_assign (s : Stack) (a : Setter) :
    (s.assign a.assignment).toOption = (a.check s.tables).map s.withTables := by
  have hlookup : s.lookup a.assignment.target = Scope.lookup s.tables a.target.text := rfl
  rw [Stack.assign, hlookup, Setter.check]
  cases hv : Scope.lookup s.tables a.target.text with
  | none => rfl
  | some target =>
    show Except.toOption (if target.isFinal then _ else _) =
      Option.map s.withTables (if target.isFinal then _ else _)
    by_cases hfinal : target.isFinal = true
    · rw [if_pos hfinal, if_pos hfinal]
      rfl
    · rw [if_neg hfinal, if_neg hfinal]
      show Except.toOption (Variable.resolve s.lookup target.ty a.value.text >>= fun text =>
        (s.update? (·.reassign text) a.target.text).getD (.error (.variableNotDeclared a.target.text))) =
          Option.map s.withTables (Env.literal s.tables target.ty a.value >>= fun text =>
            some (Env.replace a.target.text { target with value := some text } s.tables))
      rw [toOption_bind, Env.literal_eq]
      simp only [toOption_reassign hv hfinal]
      cases (Variable.resolve s.lookup target.ty a.value.text).toOption with
      | none => rfl
      | some text => cases h : (target.ty.checkValue text).toOption <;> simp [h]

theorem SetLine.toOption_assignLine (s : Stack) (l : SetLine) :
    (s.assignLine l.render).toOption = (l.check s.tables).map s.withTables := by
  rw [Stack.assignLine, l.allOfLine_render]
  show Except.toOption ((l.clauses.map (·.assignment)).foldlM Stack.assign s) = _
  rw [List.foldlM_map]
  exact toOption_foldlM Setter.toOption_assign Setter.length_check l.clauses s

/-! ## Calls and conditions -/

theorem guard_congr {b c : Bool} (h : b = c) : (guard b : Option Unit) = guard c := by rw [h]

theorem CallLine.toOption_checkCall (s : Stack) (methods : Registry) (l : CallLine) :
    (s.checkCall methods l.render).toOption = guard (l.check methods s.tables) := by
  rw [Stack.checkCall, l.ofLine_render, ok_bind, CallLine.check]
  cases methods[l.name.text]? with
  | none => rfl
  | some m =>
    show (m.checkArguments s.lookup (l.arguments.map (·.text))).toOption = _
    rw [Method.checkArguments, List.length_map]
    by_cases hlen : l.arguments.length = m.parameters.length
    · rw [if_pos hlen, toOption_forM, List.zip_map_right, List.all_map]
      apply guard_congr
      apply Eq.symm
      simp only [isSome_literal, hlen, beq_self_eq_true, Bool.true_and]
      rfl
    · have hne : (m.parameters.length == l.arguments.length) = false :=
        beq_eq_false_iff_ne.2 (Ne.symm hlen)
      rw [if_neg hlen]
      refine Eq.symm (guard_congr (c := false) ?_)
      simp only [hne, Bool.false_and]

theorem Value.toOption_checkOperand (s : Stack) (v : Value) :
    (s.checkOperand v.text).toOption = guard (v.isOperand s.tables) := by
  have hlookup : s.lookup v.text = Scope.lookup s.tables v.text := rfl
  rw [Stack.checkOperand, hlookup, Value.isOperand]
  cases Scope.lookup s.tables v.text with
  | some source =>
    have hboth (a b : Bool) (f g : Fault) :
        (if !a then .error f else if !b then .error g else .ok () : Except Fault Unit).toOption =
          guard (a && b) := by
      cases a <;> cases b <;> rfl
    exact hboth _ _ _ _
  | none =>
    dsimp only
    cases Name.isNameLike v.text with
    | true => rfl
    | false => exact toOption_checkValue .boolean v.text

theorem Head.toOption_checkCondition (s : Stack) (h : Head) :
    (s.checkCondition h.render).toOption = guard (h.check s.tables) := by
  have hoperand (v : Value) : (s.checkOperand v.text).toOption.isSome = v.isOperand s.tables := by
    rw [v.toOption_checkOperand]
    cases v.isOperand s.tables <;> rfl
  rw [Stack.checkCondition, h.operands_render]
  show Except.toOption ((h.operands.map (·.text)).forM s.checkOperand) = _
  rw [toOption_forM, List.all_map, Head.check]
  exact guard_congr (by simp only [Function.comp_def, hoperand])

/-! ## Methods -/

theorem Param.toOption_ofTokens (p : Param) :
    (Variable.ofTokens p.parameter.name p.parameter.typeToken p.parameter.isFinal).toOption =
      p.variable := by
  have hname : (Name.checkVariable p.parameter.name).toOption = _ := p.name.toOption_checkVariable
  rw [Variable.ofTokens, toOption_bind, hname, Param.variable]
  have hty : Ty.ofKeyword p.parameter.typeToken = .ok p.ty := Ty.ofKeyword_keyword p.ty
  rw [hty]
  cases p.name.isName <;> rfl

theorem MethodItem.toOption_ofLine (m : MethodItem) :
    (Method.ofLine m.header).toOption = m.declared := by
  have hshape : Name.methodPattern.accepts m.name.text = true := Pattern.accepts_iff.2 m.name.shape
  rw [Method.ofLine, m.ofLine_header, MethodItem.declared]
  show (Method.ofHeader _).toOption = _
  rw [Method.ofHeader, toOption_bind, toOption_mapM, List.mapM_map]
  simp only [Function.comp_def, Param.toOption_ofTokens]
  cases m.params.mapM Param.variable with
  | none => rfl
  | some parameters =>
    show (Method.new m.name.text parameters).toOption = _
    rw [Method.new, Name.checkMethod, Name.check, hshape]
    cases Name.isReserved m.name.text <;> rfl

/-- A method is entered with its parameters in the table of its block. -/
theorem toOption_enterMethod (s : Stack) (m : Method) :
    ((s.enterMethod m).2.elim (Except.ok (ε := Fault) (s.enterMethod m).1) .error).toOption =
      ((m.parameters.map Variable.setDefault).foldlM Env.declare s.tables).map
        { s with active := some ⟨m, s.depth⟩ }.withTables :=
  toOption_declareAll _ _

end Tree

end SJava
