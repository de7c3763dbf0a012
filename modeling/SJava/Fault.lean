import SJava.Text.Escape

/-!
# Faults

Everything that can be wrong with a program, with the names and values needed to
say so. A fault has a name, belongs to a family that decides the exit code, and
is worded by `message` and, for some faults, `tip`.
-/

namespace SJava

/-- What can be wrong with a program, or keep it from being read. The fields are what the message
tells of: names, types, values and counts. -/
inductive Fault where
  | missingTerminator
  | invalidLineFormat
  | invalidMethodDeclaration
  | invalidParameters
  | invalidAssignment
  | invalidCondition
  | unclosedScope
  | noScopeToExit
  | methodAlreadyDeclared (name : Text)
  | nestedMethod
  | conditionInGlobalScope
  | statementInGlobalScope
  | missingReturn (method : Text)
  | invalidName (name : Text)
  | reservedName (name : Text)
  | variableAlreadyDeclared (name : Text)
  | variableNotDeclared (name : Text)
  | methodNotDeclared (name : Text)
  | unknownType (token : Text)
  | incompatibleTypes (expected received : Text)
  | invalidConditionOperand (name ty : Text)
  | invalidValue (ty value : Text)
  | finalNotInitialized (name : Text)
  | finalReassignment (name : Text)
  | variableNotInitialized (name : Text)
  | argumentCount (expected received : Nat)
  /-- The file cannot be read; the system's own words say why. -/
  | io (reason : Text)
  deriving DecidableEq, Repr

namespace Fault

/-- What part of the rules a fault is about. -/
inductive Family where
  | form
  | structural
  | naming
  | typing
  | value
  | io
  deriving DecidableEq, Repr

/-- The family as it stands in front of a message. -/
def Family.name : Family → String
  | .form => "SyntaxError"
  | .structural => "StructureError"
  | .naming => "NameError"
  | .typing => "TypeError"
  | .value => "ValueError"
  | .io => "IoError"

/-- A file that cannot be read ends the program with 2, an illegal one with 1. -/
def Family.exitCode : Family → UInt32
  | .io => 2
  | _ => 1

/-- The family of a fault, which decides the exit code. -/
def family : Fault → Family
  | missingTerminator | invalidLineFormat | invalidMethodDeclaration | invalidParameters
  | invalidAssignment | invalidCondition => .form
  | unclosedScope | noScopeToExit | methodAlreadyDeclared _ | nestedMethod
  | conditionInGlobalScope | statementInGlobalScope | missingReturn _ => .structural
  | invalidName _ | reservedName _ | variableAlreadyDeclared _ | variableNotDeclared _
  | methodNotDeclared _ => .naming
  | unknownType _ | incompatibleTypes .. | invalidConditionOperand .. => .typing
  | invalidValue .. | finalNotInitialized _ | finalReassignment _ | variableNotInitialized _
  | argumentCount .. => .value
  | io _ => .io

/-- The fault as it stands in the headline of a diagnostic. -/
def name : Fault → String
  | missingTerminator => "MissingTerminator"
  | invalidLineFormat => "InvalidLineFormat"
  | invalidMethodDeclaration => "InvalidMethodDeclaration"
  | invalidParameters => "InvalidParameters"
  | invalidAssignment => "InvalidAssignment"
  | invalidCondition => "InvalidCondition"
  | unclosedScope => "UnclosedScope"
  | noScopeToExit => "NoScopeToExit"
  | methodAlreadyDeclared _ => "MethodAlreadyDeclared"
  | nestedMethod => "NestedMethod"
  | conditionInGlobalScope => "ConditionInGlobalScope"
  | statementInGlobalScope => "StatementInGlobalScope"
  | missingReturn _ => "MissingReturn"
  | invalidName _ => "InvalidName"
  | reservedName _ => "ReservedName"
  | variableAlreadyDeclared _ => "VariableAlreadyDeclared"
  | variableNotDeclared _ => "VariableNotDeclared"
  | methodNotDeclared _ => "MethodNotDeclared"
  | unknownType _ => "UnknownType"
  | incompatibleTypes .. => "IncompatibleTypes"
  | invalidConditionOperand .. => "InvalidConditionOperand"
  | invalidValue .. => "InvalidValue"
  | finalNotInitialized _ => "FinalNotInitialized"
  | finalReassignment _ => "FinalReassignment"
  | variableNotInitialized _ => "VariableNotInitialized"
  | argumentCount .. => "ArgumentCount"
  | io _ => "Io"

/-- A text as it stands in a message. -/
private def plain (s : Text) : String := String.ofList s

/-- A name or value as it stands in a message, quoted. -/
private def shown (s : Text) : String := String.ofList (Text.quoted s)

/-- The fault in words. Names and values that the program gives are quoted, types are not. -/
def message : Fault → String
  | missingTerminator => "invalid line - missing ; or \x7b or \x7d"
  | invalidLineFormat => "invalid line format"
  | invalidMethodDeclaration => "invalid method declaration"
  | invalidParameters => "invalid parameters"
  | invalidAssignment => "invalid assignment expression"
  | invalidCondition => "invalid condition"
  | unclosedScope => "there is a scope that was not closed"
  | noScopeToExit => "no scope to exit"
  | methodAlreadyDeclared name => s!"method {shown name} already exists"
  | nestedMethod => "nested methods are not allowed"
  | conditionInGlobalScope => "if and while statements cannot be declared in global scope"
  | statementInGlobalScope => "invalid statement in global scope"
  | missingReturn method => s!"method {shown method} has no return statement"
  | invalidName name => s!"invalid name {shown name}"
  | reservedName name => s!"invalid name {shown name}, name is a keyword"
  | variableAlreadyDeclared name => s!"variable {shown name} already declared in this scope"
  | variableNotDeclared name => s!"variable {shown name} not declared"
  | methodNotDeclared name => s!"trying to call method {shown name} that does not exist"
  | unknownType token => s!"invalid variable type {shown token}"
  | incompatibleTypes expected received =>
    s!"trying to assign incompatible types: expected {plain expected}, received {plain received}"
  | invalidConditionOperand name ty =>
    s!"variable {shown name} of type {plain ty} cannot be used as a condition"
  | invalidValue ty value => s!"invalid {plain ty} value {shown value}"
  | finalNotInitialized name => s!"final variable {shown name} must be initialized"
  | finalReassignment name => s!"final variable {shown name} cannot be assigned a new value"
  | variableNotInitialized name => s!"variable {shown name} is not initialized"
  | argumentCount expected received =>
    s!"invalid number of parameters: expected {expected}, received {received}"
  | io reason => plain reason

/-- A hint at how to mend the fault. -/
def tip : Fault → Option String
  | missingTerminator => some "Every line must end with `;`, `\x7b` or `\x7d`"
  | invalidMethodDeclaration => some "Methods are declared as `void name(type param, ...) \x7b`"
  | unclosedScope => some "Did you miss a closing `\x7d`?"
  | conditionInGlobalScope | statementInGlobalScope =>
    some "Move this statement into a method body"
  | missingReturn method => some s!"The last statement of `{plain method}` must be `return;`"
  | reservedName name => some s!"`{plain name}` is a reserved word"
  | incompatibleTypes expected received =>
    some ("Only int -> double and int/double -> boolean widen implicitly, found " ++
      s!"{plain received} -> {plain expected}")
  | finalNotInitialized name => some s!"Give `{plain name}` a value where it is declared"
  | argumentCount expected received =>
    some s!"Expected {expected} arguments, received {received}"
  | _ => none

end Fault

end SJava
