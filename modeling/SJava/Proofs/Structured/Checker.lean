import SJava.Check.Statement
import SJava.Proofs.Structured.Syntax

/-!
# The structured checker

Checks a program by recursion on its tree. A block is checked with a table of its
own in front of those around it, and the table is gone behind the block.

* `Tree.Body.check`: the statements of a block in turn;
* `Tree.Item.outline`: the global variables and the methods of a program;
* `Tree.Program.check`: these first, and then the body of every method against
  them.
-/

namespace SJava.Tree

/-- The tables in view, innermost first. The last is the global one. -/
abbrev Env := List Scope

namespace Env

/-- Enters a variable into the innermost table, which must not have one of its
name. -/
def declare (env : Env) (v : Variable) : Option Env :=
  match env with
  | [] => none
  | table :: outer => if v.name ∈ table then none else some (table.insert v.name v :: outer)

/-- Puts a variable in the place of the one the name stands for. -/
def replace (name : Text) (v : Variable) : Env → Env
  | [] => []
  | table :: outer =>
    if name ∈ table then table.insert name v :: outer else table :: replace name v outer

/-- The literal that a value stands for, if a variable of type `ty` can hold it. -/
def literal (env : Env) (ty : Ty) (v : Value) : Option Text := do
  let text ←
    match Scope.lookup env v.text with
    | some source => if Ty.Widens source.ty ty then source.value else none
    | none => if Name.isNameLike v.text then none else some v.text
  if ty.holds text then some text else none

end Env

/-! ## Statements -/

/-- Whether a variable may have the word as its name. -/
def Word.isName (w : Word) : Bool :=
  !Name.isReserved w.text && Name.variablePattern.accepts w.text

/-- The variable that a clause declares. A final variable needs a value. -/
def Declarator.variable (env : Env) (isFinal : Bool) (ty : Ty) (d : Declarator) : Option Variable :=
  if d.name.isName then
    match d.value with
    | some v => (env.literal ty v).map fun text => ⟨d.name.text, ty, isFinal, some text⟩
    | none => if isFinal then none else some ⟨d.name.text, ty, isFinal, none⟩
  else none

/-- All clauses of a declaration are checked against the tables in front of it, and
then entered. -/
def VarLine.check (env : Env) (l : VarLine) : Option Env := do
  let vs ← l.clauses.mapM (Declarator.variable env l.isFinal l.ty)
  vs.foldlM Env.declare env

/-- A target that is not final takes the value. It keeps its place among the tables. -/
def Setter.check (env : Env) (a : Setter) : Option Env := do
  let target ← Scope.lookup env a.target.text
  if target.isFinal then none
  else
    let text ← env.literal target.ty a.value
    return env.replace a.target.text { target with value := some text }

/-- The clauses of an assignment are carried out one after the other. -/
def SetLine.check (env : Env) (l : SetLine) : Option Env := l.clauses.foldlM Setter.check env

/-- A call names a method that is known and gives each parameter a value it can hold. -/
def CallLine.check (methods : Registry) (env : Env) (l : CallLine) : Bool :=
  match methods[l.name.text]? with
  | some m =>
    m.parameters.length == l.arguments.length &&
      (m.parameters.zip l.arguments).all fun (p, v) => (env.literal p.ty v).isSome
  | none => false

/-- An operand is an initialized variable of a suitable type, or a truth value. -/
def Value.isOperand (env : Env) (v : Value) : Bool :=
  match Scope.lookup env v.text with
  | some source => source.isInitialized && source.ty.isConditionOperand
  | none => !Name.isNameLike v.text && Ty.boolean.holds v.text

/-- Every operand has to be one by itself; how they are joined does not matter. -/
def Head.check (env : Env) (h : Head) : Bool := h.operands.all (Value.isOperand env)

/-- Checks a statement; a call or a return leaves the tables as they are. -/
def Stmt.check (methods : Registry) (env : Env) : Stmt → Option Env
  | vars l => l.check env
  | set l => l.check env
  | call l => if l.check methods env then some env else none
  | ret => some env

/-- Checks the statements of a block in turn. What an inner block assigns to
variables around it stays; what it declares goes. -/
def Body.check (methods : Registry) (env : Env) : Body → Option Env
  | done => some env
  | stmt s rest => do
    let env ← s.check methods env
    rest.check methods env
  | block head inner rest =>
    if head.check env then do
      let inside ← inner.check methods (∅ :: env)
      rest.check methods inside.tail
    else none

/-- Whether the last statement of a block is a return. -/
def Body.endsInReturn : Body → Bool
  | done => false
  | stmt .ret done => true
  | stmt _ rest => rest.endsInReturn
  | block _ _ rest => rest.endsInReturn

/-! ## Methods and programs -/

/-- The variable that a parameter declares, without a value. -/
def Param.variable (p : Param) : Option Variable :=
  if p.name.isName then some ⟨p.name.text, p.ty, p.isFinal, none⟩ else none

/-- The method an item declares, whose name and parameters must have names they may
have. -/
def MethodItem.declared (m : MethodItem) : Option Method := do
  let parameters ← m.params.mapM Param.variable
  if Name.isReserved m.name.text then none else some ⟨m.name.text, parameters⟩

/-- Checks a method against the global variables and all methods. The parameters
have values from the start, in a table of their own, and the last statement is a
return. -/
def MethodItem.check (globals : Scope) (methods : Registry) (m : MethodItem) : Bool :=
  Option.isSome do
    let method ← m.declared
    let env ← (method.parameters.map Variable.setDefault).foldlM Env.declare [∅, globals]
    let _ ← m.body.check methods env
    guard m.body.endsInReturn

/-- Adds what an item declares to the global variables and the methods. Methods have
different names. -/
def Item.outline (known : Scope × Registry) : Item → Option (Scope × Registry)
  | vars l => do
    let env ← l.check [known.1]
    return (← env.head?, known.2)
  | set l => do
    let env ← l.check [known.1]
    return (← env.head?, known.2)
  | method m => do
    let m ← m.declared
    if m.name ∈ known.2 then none else some (known.1, known.2.insert m.name m)

/-- Checks the body of an item, which only a method has. -/
def Item.checkBody (globals : Scope) (methods : Registry) : Item → Bool
  | method m => m.check globals methods
  | _ => true

/-- Checks a program: the items in turn for the global variables and methods, and
then all bodies. A legal program gives its globals and methods. -/
def Program.check (p : Program) : Option (Scope × Registry) := do
  let (globals, methods) ← p.foldlM Item.outline (∅, ∅)
  guard (p.all (Item.checkBody globals methods))
  return (globals, methods)

end SJava.Tree
