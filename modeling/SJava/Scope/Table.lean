import Std.Data.ExtTreeMap
import SJava.Variable

/-!
# Tables of variables

The variables of one block, by name, and what an innermost-first list of such
tables shows of them.

* `lookup_cons`: an inner table hides what lies further out;
* `update?_isSome`: what can be seen can be changed.
-/

namespace SJava

/-- The variables that one block declares, by name. -/
abbrev Scope := Std.ExtTreeMap Text Variable compare

namespace Scope

/-- The entry of that name in the first table that has one. -/
def lookup (tables : List Scope) (name : Text) : Option Variable :=
  tables.findSome? (·[name]?)

/-- Changes the entry of that name in the first table that has one; `none` if
none has. -/
def update? (f : Variable → Except Fault Variable) (name : Text) :
    List Scope → Option (Except Fault (List Scope))
  | [] => none
  | table :: outer =>
    match table[name]? with
    | some v => some ((f v).map fun w => table.insert name w :: outer)
    | none => (update? f name outer).map (·.map (table :: ·))

@[simp] theorem lookup_nil (name : Text) : lookup [] name = none := rfl

theorem lookup_cons (table : Scope) (outer : List Scope) (name : Text) :
    lookup (table :: outer) name = table[name]?.or (lookup outer name) := by
  cases h : table[name]? <;> simp [lookup, h]

theorem lookup_append (inner outer : List Scope) (name : Text) :
    lookup (inner ++ outer) name = (lookup inner name).or (lookup outer name) := by
  simp [lookup, List.findSome?_append]

theorem update?_isSome (f : Variable → Except Fault Variable) (name : Text) (tables : List Scope) :
    (update? f name tables).isSome = (lookup tables name).isSome := by
  induction tables with
  | nil => rfl
  | cons table outer ih => cases h : table[name]? <;> simp [update?, lookup_cons, h, ih]

end Scope

end SJava
