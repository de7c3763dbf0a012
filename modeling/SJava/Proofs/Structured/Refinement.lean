import SJava.Proofs.Walks
import SJava.Proofs.Structured.Simulation

/-!
# The line walks refine the structured checker

Checking the text of a tree line by line is checking the tree by recursion.

* `Tree.Program.outlined_lines`: the first walk finds the global variables and the
  methods of the items;
* `Tree.Program.stepped_lines`: the second walk goes through exactly when the body of
  every method is in order;
* `Tree.Program.toOption_verify`: a text is legal when its tree is, with the same
  global variables and methods.
-/

namespace SJava.Tree

/-- What is known of a program, outside of all methods. -/
def outside (known : Scope × Registry) : State :=
  { stack := { globals := known.1 }, methods := known.2 }

variable (known : Scope × Registry)

/-! ## The first walk -/

/-- A statement outside of all methods works on the table of global variables alone. -/
theorem outlined_statement {line : Text} {kind : Kind} {x : Except Fault Stack} {r : Option Env}
    (htrack : (outside known).track line = .ok (outside known, kind))
    (hkind : (outside known).outlineKind kind line = x.map fun stack => { outside known with stack })
    (hx : x.toOption = r.map (outside known).stack.withTables) (hlen : ∀ env ∈ r, env.length = 1) :
    walked State.outlineLine (outside known) [line] = Option.map outside do
      let env ← r
      return (← env.head?, known.2) := by
  rw [walked_singleton, State.outlineLine, htrack, ok_bind]
  show ((outside known).outlineKind kind line).toOption = _
  rw [hkind, toOption_map, hx]
  cases r with
  | none => rfl
  | some env =>
    obtain ⟨globals, rfl⟩ := List.length_eq_one_iff.1 (hlen env rfl)
    rfl

/-- The first walk over the lines of an item. -/
theorem Item.outlined_lines (i : Item) :
    walked State.outlineLine (outside known) i.lines = (i.outline known).map outside := by
  have hglobal : (outside known).stack.isGlobal = true := rfl
  cases i with
  | vars l =>
    have htrack : (outside known).track l.render = .ok (outside known, .declaration) :=
      (Stmt.vars l).track_render _
    refine outlined_statement known htrack ?_ (l.toOption_declareLine _) fun env henv =>
      VarLine.length_check henv
    rw [State.outlineKind, if_pos hglobal]
  | set l =>
    have htrack : (outside known).track l.render = .ok (outside known, .assignment) :=
      (Stmt.set l).track_render _
    refine outlined_statement known htrack ?_ (l.toOption_assignLine _) fun env henv =>
      SetLine.length_check henv
    rw [State.outlineKind, if_pos hglobal]
  | method m =>
    have hline : ((outside known).outlineLine m.header).toOption =
        (outline known (.method m)).map fun known =>
          { outside known with stack := (outside known).stack.enter } := by
      rw [State.outlineLine, track_of_ending _ m.kind_of_header rfl, ok_bind]
      show (State.register _ m.header).toOption = _
      rw [State.register, toOption_bind, m.toOption_ofLine, outline]
      cases m.declared with
      | none => rfl
      | some method =>
        show Except.toOption (if method.name ∈ known.2 then _ else _) =
          Option.map _ (if method.name ∈ known.2 then none
            else some (known.1, known.2.insert method.name method))
        split <;> rfl
    rw [lines, walked_cons, hline]
    cases outline known (.method m) with
    | none => rfl
    | some known' =>
      show walked State.outlineLine _ (m.body.lines ++ [blockEnd]) = some (outside known')
      rw [walked_append, m.body.outlined_lines rfl rfl, Option.bind_eq_bind, Option.bind_some,
        walked_cons_of_ok (outlineLine_blockEnd rfl)]
      rfl

theorem Program.outlined_lines (p : Program) :
    walked State.outlineLine (outside known) (Program.lines p) =
      (p.foldlM Item.outline known).map outside := by
  induction p generalizing known with
  | nil => rfl
  | cons i p ih =>
    rw [Program.lines, List.flatMap_cons, walked_append, i.outlined_lines, List.foldlM_cons]
    cases i.outline known with
    | none => rfl
    | some known' => exact ih known'

/-! ## The second walk -/

/-- Whether a block ends in a return is told by the kind of its last line. -/
theorem Body.getLast?_kinds (b : Body) :
    b.kinds.getLast? = some .returnStatement ↔ b.endsInReturn = true := by
  induction b with
  | done => simp [kinds, endsInReturn]
  | stmt st rest ih =>
    cases rest with
    | done => cases st <;> simp [kinds, endsInReturn, Stmt.kind]
    | stmt st' rest =>
      rw [kinds, kinds, List.getLast?_cons_cons, ← kinds, ih]
      cases st <;> rfl
    | block head inner rest =>
      rw [kinds, kinds, List.getLast?_cons_cons, ← kinds, ih]
      cases st <;> rfl
  | block head inner rest ihInner ih =>
    rw [kinds, ← List.cons_append, List.getLast?_append, List.getLast?_cons, Option.some_or,
      endsInReturn, ← ih]
    cases rest.kinds.getLast? with
    | none => simp
    | some kind => rfl

/-- What is known of a program while a method is checked. -/
def entered (m : Method) : State :=
  { stack := { globals := known.1, active := some ⟨m, 2⟩ }, methods := known.2 }

/-- Parameters are no global variables. -/
theorem globals_of_foldlM (s : Stack) {globals : Scope} {env : Env} {vs : List Variable}
    (h : vs.foldlM Env.declare [∅, globals] = some env) : (s.withTables env).globals = globals := by
  have htail : env.tail = [globals] := foldlM_keeps (g := List.tail) (fun h => (Env.tail_declare h).1) h
  cases env with
  | nil => cases htail
  | cons table outer =>
    rw [List.tail_cons] at htail
    rw [htail]
    rfl

theorem toOption_step_header (m : MethodItem) :
    ((Progress.mk (outside known) none).step m.header).toOption = do
      let method ← m.declared
      let env ← (method.parameters.map Variable.setDefault).foldlM Env.declare [∅, known.1]
      return inside (entered known method) { method, globals := known.1 } env := by
  show (Progress.outerLine (outside known) m.header).toOption = _
  rw [Progress.outerLine, track_of_ending _ m.kind_of_header rfl, ok_bind]
  show Except.toOption (Method.ofLine m.header >>= _) = _
  rw [toOption_bind, m.toOption_ofLine]
  cases m.declared with
  | none => rfl
  | some method =>
    have henter := toOption_enterMethod (outside known).stack.enter method
    have hblock : (outside known).stack.enter.tables = [∅, known.1] := rfl
    rw [hblock] at henter
    simp only [Option.bind_eq_bind, Option.bind_some]
    rcases hmethod : (outside known).stack.enter.enterMethod method with ⟨stack, _ | fault⟩ <;>
      rw [hmethod] at henter <;> simp only
    · obtain ⟨env, henv, rfl⟩ : ∃ env, (method.parameters.map Variable.setDefault).foldlM Env.declare
          [∅, known.1] = some env ∧ (entered known method).stack.withTables env = stack :=
        Option.map_eq_some_iff.1 henter.symm
      have hglobals := globals_of_foldlM (entered known method).stack henv
      rw [henv]
      show some _ = some _
      rw [hglobals]
      rfl
    · rw [Option.map_eq_none_iff.1 henter.symm]
      rfl

/-- The line that ends a method, behind its body. -/
theorem toOption_step_methodEnd {m : Method} {w : Window} {env : Env} (hlen : env.length = 2) :
    ((inside (entered known m) w env).step blockEnd).toOption =
      if w.previous = some .returnStatement then some ⟨outside (w.globals, known.2), none⟩
      else none := by
  obtain ⟨table, globals, rfl⟩ := List.length_eq_two.1 hlen
  show (Progress.innerLine { entered known m with stack := (entered known m).stack.withTables _ } w
    blockEnd).toOption = _
  rw [Progress.innerLine, bodyLine_blockEnd, exit_withTables _ _ (List.cons_ne_nil globals [])]
  show Except.toOption (Progress.close _ _) = _
  rw [Progress.close]
  show Except.toOption (if w.previous = some .returnStatement then _ else _) = _
  split <;> rfl

/-- The second walk over the body of a method and the line that ends it. -/
theorem stepped_body (method : Method) (b : Body) {env : Env} (hlen : env.length = 2) :
    walked Progress.step (inside (entered known method) { method, globals := known.1 } env)
        (b.lines ++ [blockEnd]) =
      if (b.check known.2 env).isSome ∧ b.endsInReturn = true then some ⟨outside known, none⟩
      else none := by
  have hne : env ≠ [] := List.ne_nil_of_length_eq_add_one hlen
  have hactive : (entered known method).stack.active = some ⟨method, 2⟩ := rfl
  have hbody := b.stepped_lines hactive { method, globals := known.1 } hne hlen.ge
  have hmethods : (entered known method).methods = known.2 := rfl
  rw [walked_append, hbody, hmethods]
  cases hcheck : b.check known.2 env with
  | none => rfl
  | some env' =>
    obtain ⟨hglobals, hprevious⟩ := Window.foldl_push b.kinds { method, globals := known.1 }
    have hlen' : env'.length = 2 := (Body.length_check hcheck).trans hlen
    show walked Progress.step (inside (entered known method) _ env') [blockEnd] = _
    rw [walked_cons, toOption_step_methodEnd known hlen', hglobals, hprevious, Option.or_none]
    simp only [b.getLast?_kinds, Option.isSome_some, true_and]
    split <;> rfl

/-- The second walk over the lines of a method. -/
theorem MethodItem.stepped_lines (m : MethodItem) :
    walked Progress.step ⟨outside known, none⟩ (Item.method m).lines =
      if m.check known.1 known.2 then some ⟨outside known, none⟩ else none := by
  rw [Item.lines, walked_cons, toOption_step_header, MethodItem.check]
  cases m.declared with
  | none => rfl
  | some method =>
    show ((method.parameters.map Variable.setDefault).foldlM Env.declare [∅, known.1] >>= fun env =>
        some (inside (entered known method) { method, globals := known.1 } env)) >>= _ =
      if Option.isSome ((method.parameters.map Variable.setDefault).foldlM Env.declare [∅, known.1] >>=
        fun env => m.body.check known.2 env >>= fun _ => guard m.body.endsInReturn) then _ else _
    cases henv : (method.parameters.map Variable.setDefault).foldlM Env.declare [∅, known.1] with
    | none => rfl
    | some env =>
      have hlen : env.length = 2 :=
        foldlM_keeps (g := List.length) (fun h => (Env.tail_declare h).2) henv
      refine (stepped_body known method m.body hlen).trans ?_
      show _ = if Option.isSome (m.body.check known.2 env >>= fun _ => guard m.body.endsInReturn) then _
        else _
      cases m.body.check known.2 env with
      | none => rfl
      | some env' => cases m.body.endsInReturn <;> rfl

/-- The second walk over the lines of an item. -/
theorem Item.stepped_lines (i : Item) :
    walked Progress.step ⟨outside known, none⟩ i.lines =
      if i.checkBody known.1 known.2 then some ⟨outside known, none⟩ else none := by
  have houter {line : Text} {kind : Kind}
      (htrack : (outside known).track line = .ok (outside known, kind)) (hkind : kind ≠ .methodHeader) :
      walked Progress.step ⟨outside known, none⟩ [line] = some ⟨outside known, none⟩ := by
    have hline : (Progress.mk (outside known) none).step line = .ok ⟨outside known, none⟩ := by
      show Progress.outerLine (outside known) line = _
      rw [Progress.outerLine, htrack, ok_bind]
      exact if_neg hkind
    rw [walked_cons, hline]
    rfl
  cases i with
  | vars l => exact houter ((Stmt.vars l).track_render _) Kind.noConfusion
  | set l => exact houter ((Stmt.set l).track_render _) Kind.noConfusion
  | method m => exact m.stepped_lines known

/-- The second walk over the lines of a program. -/
theorem Program.stepped_lines (p : Program) :
    walked Progress.step ⟨outside known, none⟩ (Program.lines p) =
      if p.all (Item.checkBody known.1 known.2) then some ⟨outside known, none⟩ else none := by
  induction p with
  | nil => rfl
  | cons i p ih =>
    rw [Program.lines, List.flatMap_cons, walked_append, i.stepped_lines, List.all_cons]
    cases i.checkBody known.1 known.2 with
    | false => rfl
    | true => exact ih

/-! ## Programs -/

theorem Program.toOption_script {p : Program} {script : Script}
    (h : script.lines.map (·.text) = Program.lines p) :
    script.verify.toOption = p.check.map outside := by
  have houtline : (script.outline).toOption = (p.foldlM Item.outline (∅, ∅)).map outside := by
    rw [Script.outline, toOption_bind, State.outlineLines, toOption_walk, h]
    show walked State.outlineLine (outside (∅, ∅)) (Program.lines p) >>= _ = _
    rw [p.outlined_lines]
    cases p.foldlM Item.outline (∅, ∅) <;> rfl
  have hbodies (known : Scope × Registry) : (script.bodies (outside known)).toOption =
      if p.all (Item.checkBody known.1 known.2) then some (outside known) else none := by
    rw [Script.bodies, toOption_bind, Progress.steps, toOption_walk, h, p.stepped_lines]
    cases p.all (Item.checkBody known.1 known.2) <;> rfl
  rw [Script.verify, Program.checkBalance_render h, ok_bind, toOption_bind, houtline, Program.check]
  cases p.foldlM Item.outline (∅, ∅) with
  | none => rfl
  | some known =>
    refine (hbodies known).trans ?_
    show _ = Option.map outside (guard (p.all (Item.checkBody known.1 known.2)) >>= fun _ => some known)
    cases p.all (Item.checkBody known.1 known.2) <;> rfl

/-- Checking the text of a tree line by line accepts it exactly when the structured
checker accepts the tree, and both find the same global variables and methods. -/
theorem Program.toOption_verify (p : Program) :
    (Content.verify ({} : Config).marker (.text p.render)).toOption = p.check.map outside := by
  obtain ⟨script, hscript, hlines⟩ := p.script_render
  have hread : (Content.text p.render).script ({} : Config).marker = .ok script := hscript
  rw [Content.verify, hread]
  exact toOption_script hlines

end SJava.Tree
