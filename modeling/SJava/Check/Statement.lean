import SJava.Braces
import SJava.Scope.Stack
import SJava.Statement.Assignment
import SJava.Statement.Call
import SJava.Statement.Condition

/-!
# Checking statements

What each kind of statement asks of the variables and methods in view, and what
it does to them.

* `declareLine`: the clauses of a declaration are all checked before any of them
  takes effect;
* `assignLine`: the assignments of a line take effect one after the other.
-/

namespace SJava

/-- The declared methods, by name. -/
abbrev Registry := Std.ExtTreeMap Text Method compare

namespace Stack

/-- The variable that a clause declares, with its first value. A final variable
must have one. -/
def clauseVariable (s : Stack) (ty : Ty) (isFinal : Bool) (c : Clause) : Except Fault Variable := do
  let v ← Variable.new c.name ty isFinal
  match c.value with
  | some raw => v.setInitial (← Variable.resolve s.lookup ty raw)
  | none => if isFinal then throw (.finalNotInitialized c.name) else return v

/-- Carries out a declaration: every clause is checked against the stack as it
was before the line, and then all are declared. -/
def declareClauses (s : Stack) (d : Declaration) : Except Fault Stack := do
  let ty ← Ty.ofKeyword d.typeToken
  let declared ← d.clauses.mapM (s.clauseVariable ty d.isFinal)
  match s.declareAll declared with
  | (s, none) => return s
  | (_, some fault) => throw fault

/-- Carries out a declaration line. -/
def declareLine (s : Stack) (line : Text) : Except Fault Stack :=
  Declaration.ofLine line >>= s.declareClauses

/-- Carries out one assignment. -/
def assign (s : Stack) (a : Assignment) : Except Fault Stack := do
  let some target := s.lookup a.target
    | throw (.variableNotDeclared a.target)
  if target.isFinal then throw (.finalReassignment a.target)
  let value ← Variable.resolve s.lookup target.ty a.value
  (s.update? (·.reassign value) a.target).getD (.error (.variableNotDeclared a.target))

/-- Carries out an assignment line from left to right. -/
def assignLine (s : Stack) (line : Text) : Except Fault Stack := do
  (← Assignment.allOfLine line).foldlM assign s

/-- An operand is an initialized variable of a suitable type or else a truth
value. -/
def checkOperand (s : Stack) (operand : Text) : Except Fault Unit :=
  match s.lookup operand with
  | some v =>
    if !v.isInitialized then .error (.variableNotInitialized operand)
    else if !v.ty.isConditionOperand then .error (.invalidConditionOperand operand v.ty.keyword)
    else .ok ()
  | none =>
    if Name.isNameLike operand then .error (.variableNotDeclared operand)
    else Ty.boolean.checkValue operand

/-- Checks the operands of a condition line. -/
def checkCondition (s : Stack) (line : Text) : Except Fault Unit := do
  (← Condition.operands line).forM s.checkOperand

/-- Checks a call line: the method is declared, and its arguments suit it. -/
def checkCall (s : Stack) (methods : Registry) (line : Text) : Except Fault Unit := do
  let call ← Call.ofLine line
  match methods[call.name]? with
  | some m => m.checkArguments s.lookup call.arguments
  | none => throw (.methodNotDeclared call.name)

/-- Opens or closes a block where the line does. -/
def track (s : Stack) (line : Text) : Except Fault Stack :=
  let opened := if Braces.opens line then s.enter else s
  if Braces.closes line then opened.exit else .ok opened

end Stack

end SJava
