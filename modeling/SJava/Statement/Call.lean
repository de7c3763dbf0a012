import SJava.Statement.Parenthesized

/-!
# Calls

A call line, `name(argument, ...);`, taken apart.
-/

namespace SJava

/-- The name of a method and the arguments for it, as they are written. -/
structure Call where
  name : Text
  arguments : List Text
  deriving DecidableEq, Repr

/-- A call line taken apart; blanks alone are no argument. -/
def Call.ofLine (line : Text) : Except Fault Call := do
  let (name, inside) ← Text.parenthesized line
  let inside := Text.trim inside
  return {
    name := Text.trim name
    arguments := if inside.isEmpty then [] else (inside.splitOn ',').map Text.trim }

end SJava
