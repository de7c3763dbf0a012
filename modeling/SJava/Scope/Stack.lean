import SJava.Method
import SJava.Scope.Table

/-!
# Scope stacks

The global table, the tables of the blocks that are open around the current
line, and the method being checked, if there is one.

* `depth_enter`, `depth_exit`: the depth follows the braces;
* `update?_eq_none_iff`: what can be seen can be changed.
-/

namespace SJava

/-- A method being checked, and the depth of its own block. -/
structure Active where
  method : Method
  depth : Nat
  deriving DecidableEq, Repr

/-- What is declared around the current line, and the method it lies in. -/
structure Stack where
  globals : Scope := ∅
  /-- The tables of the open blocks, innermost first. -/
  blocks : List Scope := []
  active : Option Active := none

/-- Where the innermost block of a stack lies. -/
inductive Place where
  | global
  | block
  | methodBody
  deriving DecidableEq, Repr

namespace Stack

/-- The number of tables, the global one included. -/
def depth (s : Stack) : Nat := s.blocks.length + 1

/-- Whether no block is open. -/
def isGlobal (s : Stack) : Bool := s.blocks.isEmpty

/-- Whether a method is being checked. -/
def isInsideMethod (s : Stack) : Bool := s.active.isSome

/-- Where the innermost block lies. The own block of a method counts as its body, like the blocks
in it. -/
def place (s : Stack) : Place :=
  if s.isGlobal then .global
  else
    match s.active with
    | some active => if active.depth ≤ s.depth then .methodBody else .block
    | none => .block

/-- Opens a block. -/
def enter (s : Stack) : Stack := { s with blocks := ∅ :: s.blocks }

/-- Closes the innermost block, and with its own block the method being
checked. -/
def exit (s : Stack) : Except Fault Stack :=
  match s.blocks with
  | [] => .error .noScopeToExit
  | _ :: outer =>
    .ok { s with blocks := outer, active := s.active.filter (·.depth ≤ outer.length + 1) }

/-- All tables, innermost first. -/
def tables (s : Stack) : List Scope := s.blocks ++ [s.globals]

/-- The variable a name stands for: the one declared furthest in. -/
def lookup (s : Stack) (name : Text) : Option Variable := Scope.lookup s.tables name

/-- Changes the variable a name stands for; `none` if it stands for none. -/
def update? (f : Variable → Except Fault Variable) (name : Text) (s : Stack) :
    Option (Except Fault Stack) :=
  match Scope.update? f name s.blocks with
  | some result => some (result.map fun blocks => { s with blocks })
  | none =>
    s.globals[name]?.map fun v =>
      (f v).map fun w => { s with globals := s.globals.insert name w }

/-- The table of the innermost block. -/
def innermost (s : Stack) : Scope := s.blocks.head?.getD s.globals

/-- Enters a variable into the innermost table, under its own name. -/
def insert (s : Stack) (v : Variable) : Stack :=
  match s.blocks with
  | [] => { s with globals := s.globals.insert v.name v }
  | table :: outer => { s with blocks := table.insert v.name v :: outer }

/-- Declares a variable in the innermost block, which must not have one of its
name; blocks further out may. -/
def declare (s : Stack) (v : Variable) : Except Fault Stack :=
  if v.name ∈ s.innermost then .error (.variableAlreadyDeclared v.name) else .ok (s.insert v)

/-- Declares variables one after the other, up to the first that cannot be;
those before it stay declared. -/
def declareAll (s : Stack) : List Variable → Stack × Option Fault
  | [] => (s, none)
  | v :: vs =>
    match s.declare v with
    | .ok s => s.declareAll vs
    | .error fault => (s, some fault)

/-- Starts checking a method whose block is the innermost one: its parameters
are declared there, with the default values of their types. -/
def enterMethod (s : Stack) (m : Method) : Stack × Option Fault :=
  { s with active := some ⟨m, s.depth⟩ }.declareAll (m.parameters.map Variable.setDefault)

@[simp] theorem depth_enter (s : Stack) : s.enter.depth = s.depth + 1 := rfl

theorem depth_exit {s t : Stack} (h : s.exit = .ok t) : t.depth + 1 = s.depth := by
  cases hb : s.blocks <;> simp [exit, hb] at h
  simp [← h, depth, hb]

theorem isGlobal_iff {s : Stack} : s.isGlobal = true ↔ s.depth = 1 := by
  simp [isGlobal, depth]

theorem update?_eq_none_iff {f : Variable → Except Fault Variable} {name : Text} {s : Stack} :
    s.update? f name = none ↔ s.lookup name = none := by
  have h := Scope.update?_isSome f name s.blocks
  simp only [update?, lookup, tables, Scope.lookup_append]
  cases hu : Scope.update? f name s.blocks <;> cases hl : Scope.lookup s.blocks name <;>
    simp_all [Scope.lookup_cons]

end Stack

end SJava
