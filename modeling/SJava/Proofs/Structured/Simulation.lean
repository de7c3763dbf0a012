import SJava.Proofs.Structured.Statements
import SJava.Proofs.Walking

/-!
# Walking over the lines of a tree

What both walks over lines do on the lines of a tree, block by block.

* `Tree.Body.outlined_lines`: the first walk does nothing inside methods;
* `Tree.Body.stepped_lines`: the second walk does there what the structured checker
  does, and the method being checked stays the same.
-/

namespace SJava.Tree

/-! ## Opening and closing -/

/-- A line that ends in a semicolon neither opens a block nor closes one. -/
theorem track_of_semicolon {line : Text} {kind : Kind} (s : Stack) (h : Kind.of line = .ok kind)
    (hne : kind ≠ .scopeEnd) (hlast : line.getLast? = some ';') : s.track line = .ok s := by
  rw [Stack.track, Braces.not_opens_of_semicolon h hlast, Braces.not_closes_of_ne h hne]
  rfl

theorem Stmt.track_render (s : State) (st : Stmt) : s.track st.render = .ok (s, st.kind) := by
  have hne : st.kind ≠ .scopeEnd := by cases st <;> exact Kind.noConfusion
  rw [State.track, track_of_semicolon s.stack st.kind_of_render hne st.getLast?_render,
    st.kind_of_render]
  rfl

theorem track_of_ending {line : Text} {kind : Kind} (s : State) (h : Kind.of line = .ok kind)
    (hopens : kind.ending? = some '{') :
    s.track line = .ok ({ s with stack := s.stack.enter }, kind) := by
  have hne : kind ≠ .scopeEnd := by
    rintro rfl
    cases hopens
  rw [State.track, Stack.track, Braces.opens_of_ending h hopens, Braces.not_closes_of_ne h hne, h]
  rfl

theorem exit_blockEnd (s : Stack) : s.track blockEnd = s.exit := by
  have hopens : Braces.opens blockEnd = false := by decide
  have hcloses : Braces.closes blockEnd = true := by decide
  rw [Stack.track, hopens, hcloses]
  rfl

theorem track_blockEnd (s : State) :
    s.track blockEnd = s.stack.exit.map fun stack => ({ s with stack }, .scopeEnd) := by
  rw [State.track, exit_blockEnd, kind_of_blockEnd]
  cases s.stack.exit <;> rfl

theorem enter_withTables (s : Stack) {env : Env} (hne : env ≠ []) :
    (s.withTables env).enter = s.withTables (∅ :: env) := by
  have henter := Stack.eq_withTables (s := s) (t := (s.withTables env).enter) rfl
  rwa [Stack.tables_enter, s.tables_withTables hne] at henter

/-- Closing a block takes the first table away. -/
theorem exit_withTables (s : Stack) (table : Scope) {env : Env} (hne : env ≠ []) :
    (s.withTables (table :: env)).exit =
      .ok ({ s with active := s.active.filter (·.depth ≤ env.length) }.withTables env) := by
  have hblocks : (s.withTables (table :: env)).blocks = table :: env.dropLast :=
    List.dropLast_cons_of_ne_nil hne
  have hlen : env.dropLast.length + 1 = env.length := by
    have hpos := List.length_pos_iff.2 hne
    rw [List.length_dropLast]
    omega
  rw [Stack.exit, hblocks]
  simp only [Stack.withTables, hlen, List.getLast?_cons_of_ne_nil hne]

/-! ## The first walk -/

/-- A block that is opened and closed again. -/
theorem outlineLine_blockEnd {s : State} (hactive : s.stack.active = none) :
    { s with stack := s.stack.enter }.outlineLine blockEnd = .ok s := by
  have hexit : s.stack.enter.exit = .ok s.stack := by
    have henter := enter_withTables s.stack s.stack.tables_ne_nil
    have hself : { s.stack with active := none } = s.stack := by rw [← hactive]
    rw [Stack.withTables_tables] at henter
    rw [henter, exit_withTables _ _ s.stack.tables_ne_nil, hactive, Option.filter_none, hself,
      Stack.withTables_tables]
  rw [State.outlineLine, track_blockEnd, hexit]
  rfl

/-- Inside a method the first walk changes nothing. -/
theorem Body.outlined_lines (b : Body) {s : State} (hglobal : s.stack.isGlobal = false)
    (hactive : s.stack.active = none) : walked State.outlineLine s b.lines = some s := by
  induction b generalizing s with
  | done => rfl
  | stmt st rest ih =>
    have hline : s.outlineLine st.render = .ok s := by
      rw [State.outlineLine, st.track_render]
      cases st <;> simp [bind, Except.bind, State.outlineKind, Stmt.kind, hglobal]
    rw [lines, walked_cons_of_ok hline]
    exact ih hglobal hactive
  | block head inner rest ihInner ih =>
    have hdepth : s.stack.enter.depth ≠ 2 := by
      have hne : s.stack.depth ≠ 1 := fun h => by
        rw [Stack.isGlobal_iff.2 h] at hglobal
        cases hglobal
      rw [Stack.depth_enter]
      omega
    have hline : s.outlineLine head.render = .ok { s with stack := s.stack.enter } := by
      rw [State.outlineLine, track_of_ending s head.kind_of_render rfl]
      exact if_neg hdepth
    rw [lines, walked_cons_of_ok hline, walked_append,
      ihInner (s := { s with stack := s.stack.enter }) rfl hactive, Option.bind_eq_bind,
      Option.bind_some, walked_cons_of_ok (outlineLine_blockEnd hactive)]
    exact ih hglobal hactive

/-! ## The second walk -/

/-- The kinds of the lines of a block. -/
def Body.kinds : Body → List Kind
  | done => []
  | stmt s rest => s.kind :: rest.kinds
  | block _ inner rest => .condition :: (inner.kinds ++ .scopeEnd :: rest.kinds)

theorem Stmt.toOption_bodyLine (s : State) (st : Stmt) :
    (s.bodyLine st.render).toOption =
      ((st.check s.methods s.stack.tables).map fun env =>
        { s with stack := s.stack.withTables env }).map (·, st.kind) := by
  have htrack := st.track_render s
  rw [State.bodyLine, htrack]
  cases st with
  | vars l =>
    simp only [Stmt.kind, Stmt.render, Stmt.check, ok_bind]
    rw [toOption_bind, l.toOption_declareLine]
    cases l.check s.stack.tables <;> rfl
  | set l =>
    simp only [Stmt.kind, Stmt.render, Stmt.check, ok_bind]
    rw [toOption_bind, l.toOption_assignLine]
    cases l.check s.stack.tables <;> rfl
  | call l =>
    simp only [Stmt.kind, Stmt.render, Stmt.check, ok_bind]
    rw [toOption_bind, l.toOption_checkCall]
    cases l.check s.methods s.stack.tables with
    | false => rfl
    | true =>
      exact congrArg (fun stack => some ({ s with stack }, Kind.call)) s.stack.withTables_tables.symm
  | ret => simp [ok_bind, Stmt.kind, Stmt.check, Except.toOption, pure, Except.pure]

/-- An empty table shows nothing. -/
theorem Head.check_empty_cons (h : Head) (env : Env) : h.check (∅ :: env) = h.check env := by
  have hoperand : Value.isOperand (∅ :: env) = Value.isOperand env := by
    funext v
    rw [Value.isOperand, Value.isOperand, Scope.lookup_cons, Std.ExtTreeMap.getElem?_empty,
      Option.none_or]
  rw [Head.check, Head.check, hoperand]

theorem Head.toOption_bodyLine (s : State) (h : Head) :
    (s.bodyLine h.render).toOption =
      (if h.check s.stack.tables then some { s with stack := s.stack.enter } else none).map
        (·, .condition) := by
  rw [State.bodyLine, track_of_ending s h.kind_of_render rfl]
  show Except.toOption (s.stack.enter.checkCondition h.render >>= fun _ =>
    .ok ({ s with stack := s.stack.enter }, Kind.condition)) = _
  rw [toOption_bind, h.toOption_checkCondition, Stack.tables_enter, h.check_empty_cons]
  cases h.check s.stack.tables <;> rfl

theorem bodyLine_blockEnd (s : State) :
    s.bodyLine blockEnd = s.stack.exit.map fun stack => ({ s with stack }, .scopeEnd) := by
  rw [State.bodyLine, track_blockEnd]
  cases s.stack.exit <;> rfl

theorem Stmt.length_check {methods : Registry} {env env' : Env} {st : Stmt}
    (h : st.check methods env = some env') : env'.length = env.length := by
  cases st with
  | vars l => exact VarLine.length_check h
  | set l => exact SetLine.length_check h
  | call l =>
    rw [check] at h
    split at h
    · rw [Option.some.inj h]
    · cases h
  | ret => rw [Option.some.inj h]

theorem Body.length_check {methods : Registry} {env env' : Env} {b : Body}
    (h : b.check methods env = some env') : env'.length = env.length := by
  induction b generalizing env env' with
  | done => rw [Option.some.inj h]
  | stmt st rest ih =>
    obtain ⟨mid, hmid, h⟩ := Option.bind_eq_some_iff.1 h
    exact (ih h).trans (Stmt.length_check hmid)
  | block head inner rest ihInner ih =>
    rw [check] at h
    split at h
    · obtain ⟨inside, hinside, h⟩ := Option.bind_eq_some_iff.1 h
      rw [ih h, List.length_tail, ihInner hinside, List.length_cons, Nat.add_sub_cancel]
    · cases h

/-- The second walk in the body of a method, with these tables. -/
def inside (s : State) (w : Window) (env : Env) : Progress :=
  ⟨{ s with stack := s.stack.withTables env }, some w⟩

section Inside

variable {s : State} {active : Active} (hactive : s.stack.active = some active)
include hactive

/-- A line in the body of a method behind which the body goes on. -/
theorem toOption_step_inside {w : Window} {env : Env} {line : Text} {r : Option Env} {kind : Kind}
    (h : ({ s with stack := s.stack.withTables env }.bodyLine line).toOption =
      r.map fun env => ({ s with stack := s.stack.withTables env }, kind)) :
    ((inside s w env).step line).toOption = r.map (inside s (w.push kind)) := by
  show (Progress.innerLine { s with stack := s.stack.withTables env } w line).toOption = _
  rw [Progress.innerLine, toOption_bind, h]
  cases r with
  | none => rfl
  | some env' =>
    have hinside : (s.stack.withTables env').isInsideMethod = true := by
      rw [Stack.isInsideMethod, Stack.active_withTables, hactive]
      rfl
    show Except.toOption (if (s.stack.withTables env').isInsideMethod then _ else _) = _
    rw [if_pos hinside]
    rfl

theorem Stmt.toOption_step (st : Stmt) (w : Window) {env : Env} (hne : env ≠ []) :
    ((inside s w env).step st.render).toOption =
      (st.check s.methods env).map (inside s (w.push st.kind)) := by
  apply toOption_step_inside hactive
  rw [st.toOption_bodyLine, Stack.tables_withTables s.stack hne, Option.map_map]
  rfl

theorem Head.toOption_step (h : Head) (w : Window) {env : Env} (hne : env ≠ []) :
    ((inside s w env).step h.render).toOption =
      (if h.check env then some (∅ :: env) else none).map (inside s (w.push .condition)) := by
  apply toOption_step_inside hactive
  rw [h.toOption_bodyLine, Stack.tables_withTables s.stack hne, enter_withTables s.stack hne]
  cases h.check env <;> rfl

theorem toOption_step_blockEnd (w : Window) (table : Scope) {env : Env} (hne : env ≠ [])
    (hdepth : active.depth ≤ env.length) :
    ((inside s w (table :: env)).step blockEnd).toOption = some (inside s (w.push .scopeEnd) env) := by
  have hself : { s.stack with active := some active } = s.stack := by rw [← hactive]
  have hfilter : (some active).filter (·.depth ≤ env.length) = some active := by simp [hdepth]
  apply toOption_step_inside hactive (r := some env)
  rw [bodyLine_blockEnd, exit_withTables _ _ hne, hactive, hfilter, hself]
  rfl

/-- The second walk over a block inside a method. The induction is on the block, and the
method being checked stays the same as long as the block of the method is open. -/
theorem Body.stepped_lines (b : Body) (w : Window) {env : Env} (hne : env ≠ [])
    (hdepth : active.depth ≤ env.length) :
    walked Progress.step (inside s w env) b.lines =
      (b.check s.methods env).map (inside s (b.kinds.foldl Window.push w)) := by
  induction b generalizing w env with
  | done => rfl
  | stmt st rest ih =>
    rw [lines, walked_cons, st.toOption_step hactive w hne, check]
    cases hst : st.check s.methods env with
    | none => rfl
    | some env' =>
      have hlen := Stmt.length_check hst
      exact ih (w.push st.kind) (ne_nil_of_length hlen hne) (hlen ▸ hdepth)
  | block head inner rest ihInner ih =>
    rw [lines, walked_cons, head.toOption_step hactive w hne, check]
    cases head.check env with
    | false => rfl
    | true =>
      have hstart := ihInner (w.push .condition) (List.cons_ne_nil ∅ env) (Nat.le_succ_of_le hdepth)
      show walked Progress.step (inside s (w.push .condition) (∅ :: env))
          (inner.lines ++ blockEnd :: rest.lines) =
        Option.map _ (inner.check s.methods (∅ :: env) >>= fun env' => rest.check s.methods env'.tail)
      rw [walked_append, hstart]
      cases hinner : inner.check s.methods (∅ :: env) with
      | none => rfl
      | some env' =>
        have hlen := Body.length_check hinner
        obtain ⟨table, outer, rfl⟩ : ∃ table outer, env' = table :: outer :=
          List.exists_cons_of_length_eq_add_one hlen
        rw [List.length_cons, List.length_cons, Nat.add_right_cancel_iff] at hlen
        have hne' : outer ≠ [] := ne_nil_of_length hlen hne
        have hdepth' : active.depth ≤ outer.length := hlen ▸ hdepth
        show walked Progress.step _ (blockEnd :: rest.lines) = Option.map _ (rest.check s.methods outer)
        rw [walked_cons, toOption_step_blockEnd hactive _ table hne' hdepth']
        refine (ih _ hne' hdepth').trans ?_
        rw [kinds, List.foldl_cons, List.foldl_append, List.foldl_cons]

end Inside

end SJava.Tree
