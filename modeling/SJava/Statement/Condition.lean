import SJava.Statement.Parenthesized

/-!
# Conditions

The header of a block, `if (operand || operand && ...) {`, taken apart.
-/

namespace SJava

/-- The operands of a condition, which are cut at every `||` and then at every
`&&` and must not be blank. -/
def Condition.operands (line : Text) : Except Fault (List Text) := do
  let (_, inside) ← Text.parenthesized line
  let operands := ((Text.splitOnDouble '|' inside).flatMap (Text.splitOnDouble '&')).map Text.trim
  if operands.any (·.isEmpty) then throw .invalidCondition
  return operands

end SJava
