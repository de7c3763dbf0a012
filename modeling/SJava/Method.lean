import SJava.Statement.Header
import SJava.Variable

/-!
# Methods

A method has a name and parameters; a call of it gives one argument for each
parameter.
-/

namespace SJava

/-- A method as it can be called: by its name, with a value for each parameter. -/
structure Method where
  name : Text
  parameters : List Variable
  deriving DecidableEq, Repr

namespace Method

/-- A method of that name, if a method may have it. -/
def new (name : Text) (parameters : List Variable) : Except Fault Method := do
  Name.checkMethod name
  return { name, parameters }

/-- The method a header declares. The parameters are checked before the name. -/
def ofHeader (header : Header) : Except Fault Method := do
  let parameters ← header.parameters.mapM fun p => Variable.ofTokens p.name p.typeToken p.isFinal
  new header.name parameters

/-- The method a header line declares. -/
def ofLine (line : Text) : Except Fault Method := Header.ofLine line >>= ofHeader

/-- An argument has to stand for a value that its parameter can hold. -/
def checkArgument (lookup : Text → Option Variable) (parameter : Variable) (argument : Text) :
    Except Fault Unit :=
  Variable.resolve lookup parameter.ty argument >>= parameter.ty.checkValue

/-- The arguments of a call: as many as there are parameters, and then each
checked from left to right. -/
def checkArguments (lookup : Text → Option Variable) (m : Method) (arguments : List Text) :
    Except Fault Unit :=
  if arguments.length = m.parameters.length then
    (m.parameters.zip arguments).forM fun (parameter, argument) =>
      checkArgument lookup parameter argument
  else .error (.argumentCount m.parameters.length arguments.length)

end Method

end SJava
