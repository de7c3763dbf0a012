import SJava.Name
import SJava.Ty

/-!
# Programs as trees

A program as a tree: items with nested blocks, in place of lines. Every tree can be
written out, one statement a line, with a lone brace at the end of every block and
no blanks but those that keep words apart.

* `Tree.Word`, `Tree.Value`: what can be written where a name or a value is needed;
* `Tree.Body`, `Tree.Program`: blocks and programs;
* `Tree.Body.lines`, `Tree.Program.render`: the lines and the text of a tree.
-/

namespace SJava.Tree

/-! ## Trees -/

/-- A word where a variable is named. It can be one that no variable may have as its
name. -/
structure Word where
  text : Text
  shape : Name.wordPattern.Matches text

/-- A word where a method is named. -/
structure MethodName where
  text : Text
  shape : Name.methodPattern.Matches text

/-- The characters that cut the text of a statement apart. -/
def separators : Text := [',', '=', '{', '}', '|', '&']

/-- A word or a literal of some type, without blanks and separators. -/
structure Value where
  text : Text
  shape : Name.wordPattern.Matches text ∨ ∃ ty : Ty, ty.literal.Matches text
  plain : ∀ c ∈ text, Text.isBlank c = false ∧ c ∉ separators

/-- A clause of a declaration: `name` or `name=value`. -/
structure Declarator where
  name : Word
  value : Option Value

/-- A declaration with its clauses, of which there is one at least. -/
structure VarLine where
  isFinal : Bool
  ty : Ty
  first : Declarator
  others : List Declarator

/-- A clause of an assignment: `target=value`. -/
structure Setter where
  target : Word
  value : Value

/-- An assignment with its clauses, of which there is one at least. -/
structure SetLine where
  first : Setter
  others : List Setter

/-- A call of a method with its arguments. -/
structure CallLine where
  name : MethodName
  arguments : List Value

/-- What joins two operands of a condition. -/
inductive Joint where
  | or
  | and

/-- What a condition decides: whether its block is run, or run once more. -/
inductive Branch where
  | conditional
  | loop

/-- The header of a block: its operands, with what joins each to those before. -/
structure Head where
  branch : Branch
  first : Value
  others : List (Joint × Value)

/-- A statement on a line of its own. -/
inductive Stmt where
  | vars (line : VarLine)
  | set (line : SetLine)
  | call (line : CallLine)
  | ret

/-- The statements of a block, from the first to the last. -/
inductive Body where
  | done
  | stmt (s : Stmt) (rest : Body)
  | block (head : Head) (inner rest : Body)

/-- A parameter of a method. -/
structure Param where
  isFinal : Bool
  ty : Ty
  name : Word

/-- A method with its body. -/
structure MethodItem where
  name : MethodName
  params : List Param
  body : Body

/-- What can stand outside of methods. -/
inductive Item where
  | vars (line : VarLine)
  | set (line : SetLine)
  | method (m : MethodItem)

/-- A program, from its first item to its last. -/
abbrev Program := List Item

/-- All clauses of a declaration. -/
def VarLine.clauses (l : VarLine) : List Declarator := l.first :: l.others

/-- All clauses of an assignment. -/
def SetLine.clauses (l : SetLine) : List Setter := l.first :: l.others

/-- All operands of a condition. -/
def Head.operands (h : Head) : List Value := h.first :: h.others.map (·.2)

/-! ## Text -/

/-- `final` where it is needed, and the type. -/
def typed (isFinal : Bool) (ty : Ty) : Text :=
  (if isFinal then Keyword.finalWord ++ [' '] else []) ++ ty.keyword

/-- The pieces with a comma between each two. -/
def commas (pieces : List Text) : Text := [','].intercalate pieces

/-- The text of a clause, without blanks. -/
def Declarator.render (d : Declarator) : Text :=
  match d.value with
  | none => d.name.text
  | some v => d.name.text ++ '=' :: v.text

/-- The line of a declaration. -/
def VarLine.render (l : VarLine) : Text :=
  typed l.isFinal l.ty ++ ' ' :: commas (l.clauses.map (·.render)) ++ [';']

/-- The text of a clause, without blanks. -/
def Setter.render (a : Setter) : Text := a.target.text ++ '=' :: a.value.text

/-- The line of an assignment. -/
def SetLine.render (l : SetLine) : Text := commas (l.clauses.map (·.render)) ++ [';']

/-- The line of a call. -/
def CallLine.render (l : CallLine) : Text :=
  l.name.text ++ '(' :: commas (l.arguments.map (·.text)) ++ [')', ';']

/-- The characters between two operands. -/
def Joint.render : Joint → Text
  | or => ['|', '|']
  | and => ['&', '&']

/-- The word that the header of a block starts with. -/
def Branch.keyword : Branch → Text
  | conditional => Keyword.ifWord
  | loop => Keyword.whileWord

/-- The line that opens a block. -/
def Head.render (h : Head) : Text :=
  h.branch.keyword ++
    '(' :: h.first.text ++ (h.others.flatMap fun o => o.1.render ++ o.2.text) ++ [')', '{']

/-- The line of a statement. -/
def Stmt.render : Stmt → Text
  | vars l => l.render
  | set l => l.render
  | call l => l.render
  | ret => Keyword.returnWord ++ [';']

/-- The line that ends a block. -/
def blockEnd : Text := ['}']

/-- The lines of a block, without its header and its end. -/
def Body.lines : Body → List Text
  | done => []
  | stmt s rest => s.render :: rest.lines
  | block head inner rest => head.render :: (inner.lines ++ blockEnd :: rest.lines)

/-- The text of a parameter in the header of its method. -/
def Param.render (p : Param) : Text := typed p.isFinal p.ty ++ ' ' :: p.name.text

/-- The line that opens the body of a method. -/
def MethodItem.header (m : MethodItem) : Text :=
  Keyword.voidWord ++ ' ' :: m.name.text ++ '(' :: commas (m.params.map (·.render)) ++ [')', '{']

/-- The lines of an item. A method ends with a brace, as every block does. -/
def Item.lines : Item → List Text
  | vars l => [l.render]
  | set l => [l.render]
  | method m => m.header :: (m.body.lines ++ [blockEnd])

/-- The lines of a program. -/
def Program.lines (p : Program) : List Text := p.flatMap Item.lines

/-- The text of a program, with a line feed behind every line. -/
def Program.render (p : Program) : Text := (Program.lines p).flatMap (· ++ ['\n'])

end SJava.Tree
