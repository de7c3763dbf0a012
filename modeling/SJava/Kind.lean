import SJava.Fault
import SJava.Keyword
import SJava.Pattern
import SJava.Text.Cut

/-!
# Kinds of lines

Every line is one statement, or the end of a block. A line must end in `;`,
`{` or `}` and is of the first kind, in the order of `Kind.all`, whose form it
has. The kind that is tried first has a say in all lines that start with `void`.

* `Kind.ofTable`: the kind of a line with the kinds tried in any order;
* `Kind.of_eq_ok_iff`: when a line is of a kind.
-/

namespace SJava

/-- What a line is by its form. -/
inductive Kind where
  | methodHeader
  | condition
  | returnStatement
  | call
  | declaration
  | assignment
  | scopeEnd
  deriving DecidableEq, Repr

namespace Kind

/-- The kinds that are tried behind the header of a method, in this order. -/
def others : List Kind := [condition, returnStatement, call, declaration, assignment, scopeEnd]

/-- All kinds, in the order in which they are tried. -/
def all : List Kind := methodHeader :: others

/-- The kind as it stands in the trace of a run. -/
def name : Kind → String
  | methodHeader => "MethodDeclaration"
  | condition => "Condition"
  | returnStatement => "Return"
  | call => "MethodCall"
  | declaration => "VariableDeclaration"
  | assignment => "VariableAssignment"
  | scopeEnd => "ScopeEnd"

open Pattern

/-- The name of a method or of a variable, as far as the form of a line goes. -/
def namePattern (first : CharSet) : Pattern := one first ++ many .namePart

/-- Parentheses with anything on one line between them. -/
def parenthesized (inside : CharSet) : Pattern := char '(' ++ many inside ++ char ')'

/-- The form of a line of the kind; for an assignment, of each of the pieces
between the commas. -/
def form : Kind → Pattern
  | methodHeader =>
    blanks ++ word Keyword.voidWord ++ oneOrMore .blank ++ namePattern .letter ++ blanks ++
      parenthesized (.namePart ∪ .blank ∪ .char ',') ++ blanks ++ char '{' ++ blanks
  | condition =>
    blanks ++ (word Keyword.ifWord ||| word Keyword.whileWord) ++ blanks ++
      parenthesized .notNewline ++ blanks ++ char '{' ++ blanks
  | returnStatement => blanks ++ word Keyword.returnWord ++ blanks ++ char ';' ++ blanks
  | call =>
    blanks ++ namePattern .letter ++ blanks ++ parenthesized .notNewline ++ blanks ++ char ';' ++
      blanks
  | declaration =>
    blanks ++ optional (word Keyword.finalWord ++ oneOrMore .blank) ++
      (word Keyword.intWord ||| word Keyword.doubleWord ||| word Keyword.stringWord |||
        word Keyword.booleanWord ||| word Keyword.charWord) ++
      oneOrMore .blank ++ oneOrMore .notNewline ++ char ';'
  | assignment =>
    blanks ++ namePattern (.letter ∪ .char '_') ++ blanks ++ char '=' ++ blanks ++
      oneOrMore (.compl .blank)
  | scopeEnd => blanks ++ char '}' ++ blanks

/-- Whether the line has the form of the kind. -/
def fits : Kind → Text → Bool
  | assignment, line => (line.splitOn ',').all assignment.form.accepts
  | kind, line => kind.form.accepts line

/-- Whether the line ends as every line must. -/
def isTerminated (line : Text) : Bool :=
  match line.getLast? with
  | some c => c == ';' || c == '{' || c == '}'
  | none => false

/-- Whether the line starts like the header of a method: with `void` and a blank. -/
def startsVoid (line : Text) : Bool := (Text.afterWord? Keyword.voidWord line).isSome

/-- The kind of a line, with the kinds tried in the order of a table. What starts like the
header of a method has to fit the first kind of the table, whichever that is. -/
def ofTable (first : Kind) (rest : List Kind) (line : Text) : Except Fault Kind :=
  if !isTerminated line then .error .missingTerminator
  else if startsVoid line && !first.fits line then .error .invalidMethodDeclaration
  else
    match (first :: rest).find? (·.fits line) with
    | some kind => .ok kind
    | none => .error .invalidLineFormat

/-- The kind of a line. The header of a method leads the table, so a line that starts like
one has to be one. -/
def of (line : Text) : Except Fault Kind := ofTable methodHeader others line

theorem mem_all (kind : Kind) : kind ∈ all := by cases kind <;> decide

/-- A line is of a kind when it ends as it must, starts like a method header
only if it is one, and fits the kind but none that is tried before it. -/
theorem of_eq_ok_iff {line : Text} {kind : Kind} :
    of line = .ok kind ↔
      isTerminated line = true ∧
        (startsVoid line = true → methodHeader.fits line = true) ∧
          all.find? (·.fits line) = some kind := by
  rw [of, ofTable, all]
  split <;> rename_i ht
  · simp_all
  · split <;> rename_i hv
    · simp_all
    · cases h : (methodHeader :: others).find? (·.fits line) <;> simp_all

end Kind

end SJava
