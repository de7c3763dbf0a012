import SJava.Fault
import SJava.Keyword
import SJava.Pattern

/-!
# Types and their literals

The five types, the literals each can hold, and which type widens to which.
-/

namespace SJava

/-- The types of the language. -/
inductive Ty where
  | int
  | double
  | boolean
  | char
  | string
  deriving DecidableEq, Repr

namespace Ty

/-- All types, in the order in which their keywords are tried. -/
def all : List Ty := [int, double, boolean, char, string]

/-- The word that names the type. -/
def keyword : Ty → Text
  | int => Keyword.intWord
  | double => Keyword.doubleWord
  | boolean => Keyword.booleanWord
  | char => Keyword.charWord
  | string => Keyword.stringWord

/-- The type a keyword names. -/
def ofKeyword (token : Text) : Except Fault Ty :=
  match all.find? (·.keyword == token) with
  | some ty => .ok ty
  | none => .error (.unknownType token)

open Pattern in
/-- Digits, with a sign or without. -/
def intLiteral : Pattern := optional (one (.char '+' ∪ .char '-')) ++ oneOrMore .digit

open Pattern in
/-- Digits with at most one point before, between or behind them, and with a
sign or without. -/
def doubleLiteral : Pattern :=
  optional (one (.char '+' ∪ .char '-')) ++
    (oneOrMore .digit ||| Pattern.char '.' ++ oneOrMore .digit ||| oneOrMore .digit ++ Pattern.char '.' |||
      oneOrMore .digit ++ Pattern.char '.' ++ oneOrMore .digit)

open Pattern in
/-- The literals a variable of the type can hold. A number is a truth value
too; a string holds neither a comma, a quote nor a backslash. -/
def literal : Ty → Pattern
  | int => intLiteral
  | double => doubleLiteral
  | boolean => word Keyword.trueWord ||| word Keyword.falseWord ||| doubleLiteral
  | char => Pattern.char '\'' ++ one .notNewline ++ Pattern.char '\''
  | string =>
    Pattern.char '"' ++
      many (.compl (.char ',' ∪ .char '\'' ∪ .char '"' ∪ .char '\\')) ++ Pattern.char '"'

/-- Whether a variable of the type can hold the literal. -/
def holds (ty : Ty) (s : Text) : Bool := ty.literal.accepts s

/-- Refuses a literal that a variable of the type cannot hold. -/
def checkValue (ty : Ty) (s : Text) : Except Fault Unit :=
  if ty.holds s then .ok () else .error (.invalidValue ty.keyword s)

/-- What a parameter holds while the body of its method is checked. -/
def defaultValue : Ty → Text
  | int | double | boolean => ['0']
  | char => ['\'', '\x00', '\'']
  | string => ['"', '"']

/-- Whether a value of the type `source` may be stored as one of the type
`target`: a number widens to `double`, and numbers to `boolean`. -/
def Widens : (source target : Ty) → Prop
  | int, double | int, boolean | double, boolean => True
  | source, target => source = target

instance : DecidableRel Widens := fun source target => by
  cases source <;> cases target <;> unfold Widens <;> infer_instance

/-- Whether a variable of the type may stand alone in a condition. -/
def isConditionOperand (ty : Ty) : Bool := Widens ty boolean

theorem ofKeyword_keyword (ty : Ty) : ofKeyword ty.keyword = .ok ty := by
  cases ty <;> rfl

theorem holds_defaultValue (ty : Ty) : ty.holds ty.defaultValue = true := by
  cases ty <;> decide

end Ty

end SJava
