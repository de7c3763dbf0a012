import SJava.Text.Utf8

/-!
# Lines of a source

A source is cut into physical lines after every line feed. Comment lines and
blank lines are skipped; the others are trimmed and keep their physical number.
A line that is not UTF-8 cannot be read and takes no number.

* `physicalLines_append_cons`, `physicalLines_of_not_mem`: physical lines end
  behind a line feed or with the source;
* `Content.script_text`: every line of a text can be read.
-/

namespace SJava

/-- What stands before each `newline`, and behind the last one if that is not
empty. -/
def physicalLines {α : Type} [BEq α] (newline : α) (s : List α) : List (List α) :=
  let pieces := s.splitOn newline
  match pieces.getLast? with
  | some [] => pieces.dropLast
  | _ => pieces

@[simp] theorem physicalLines_nil {α : Type} [BEq α] (newline : α) :
    physicalLines newline [] = [] := by
  simp [physicalLines]

theorem physicalLines_of_not_mem {α : Type} [BEq α] [LawfulBEq α] {newline : α} {s : List α}
    (h : newline ∉ s) (hs : s ≠ []) : physicalLines newline s = [s] := by
  have hsplit : s.splitOn newline = [s] := List.splitOn_eq_singleton h
  cases s with
  | nil => exact absurd rfl hs
  | cons x s => simp [physicalLines, hsplit]

theorem physicalLines_append_cons {α : Type} [BEq α] [LawfulBEq α] (newline : α) (s t : List α) :
    physicalLines newline (s ++ newline :: t) = s.splitOn newline ++ physicalLines newline t := by
  have ht : t.splitOn newline ≠ [] := List.splitOn_ne_nil newline t
  have hlast := List.getLast?_eq_some_getLast ht
  generalize (t.splitOn newline).getLast ht = last at hlast
  simp only [physicalLines, List.splitOn_append_cons_self, List.getLast?_append, hlast]
  cases last <;> simp [List.dropLast_append_of_ne_nil ht]

/-- A line to be checked: trimmed, with its physical number. -/
structure Line where
  number : Nat
  text : Text
  deriving DecidableEq, Repr

/-- What reading on in a source gives: the next line to be checked, or the
failure to read one, with the number of lines read before it. -/
inductive Reading where
  | line (line : Line)
  | unreadable (before : Nat)
  deriving DecidableEq, Repr

namespace Reading

/-- The line that was read, if it could be. -/
def line? : Reading → Option Line
  | line l => some l
  | unreadable _ => none

/-- The number of lines read before the failure, if it is one. -/
def unreadable? : Reading → Option Nat
  | line _ => none
  | unreadable before => some before

/-- The number of lines read when it is done. -/
def linesRead : Reading → Nat
  | line l => l.number
  | unreadable before => before

/-- Whether a line is skipped: it is blank, or a comment. -/
def isIgnored (marker raw : Text) : Bool := raw.all Text.isBlank || marker.isPrefixOf raw

/-- A physical line without the carriage returns in front of its end. -/
def withoutEnding (raw : Text) : Text := Text.dropEndWhile (· == '\r') raw

/-- Reads physical lines, `none` being one that is not UTF-8, when `before` have
been read already. -/
def all (marker : Text) (before : Nat) : List (Option Text) → List Reading
  | [] => []
  | none :: rest => unreadable before :: all marker before rest
  | some raw :: rest =>
    let raw := withoutEnding raw
    if isIgnored marker raw then all marker (before + 1) rest
    else line ⟨before + 1, Text.trim raw⟩ :: all marker (before + 1) rest

end Reading

/-- What a source holds: a text, or the bytes of a file. -/
inductive Content where
  | text (text : Text)
  | bytes (bytes : List UInt8)
  deriving DecidableEq, Repr

/-- A source all of which can be read: the lines to be checked, and the number
of physical lines. -/
structure Script where
  lines : List Line
  length : Nat
  deriving DecidableEq, Repr

namespace Content

/-- The physical lines, `none` for one that is not UTF-8. -/
def physical : Content → List (Option Text)
  | text t => (physicalLines '\n' t).map some
  | bytes b => (physicalLines 10 b).map Text.decode?

/-- What reading a source from its start gives. -/
def readings (marker : Text) (c : Content) : List Reading := Reading.all marker 0 c.physical

/-- The number of lines that can be read. -/
def linesRead (c : Content) : Nat := c.physical.countP Option.isSome

/-- All lines, or the number of lines in front of the first that cannot be
read. -/
def script (marker : Text) (c : Content) : Except Nat Script :=
  match (c.readings marker).findSome? Reading.unreadable? with
  | some before => .error before
  | none => .ok { lines := (c.readings marker).filterMap Reading.line?, length := c.linesRead }

theorem unreadable?_readings_text (marker : Text) (before : Nat) (ls : List Text) :
    (Reading.all marker before (ls.map some)).findSome? Reading.unreadable? = none := by
  induction ls generalizing before with
  | nil => rfl
  | cons l ls ih =>
    simp only [List.map_cons, Reading.all]
    split
    · exact ih _
    · exact ih _

/-- Every line of a text can be read. -/
theorem script_text (marker t : Text) :
    (text t).script marker =
      .ok { lines := ((text t).readings marker).filterMap Reading.line?
            length := (physicalLines '\n' t).length } := by
  have h := unreadable?_readings_text marker 0 (physicalLines '\n' t)
  simp [script, readings, physical, linesRead, h, List.countP_map, Function.comp_def]

/-- The physical line of that number, counted from 1, if all of the content is
UTF-8. -/
def lineAt? (c : Content) (number : Nat) : Option Text := do
  let text ← match c with
    | text t => some t
    | bytes b => Text.decode? b
  let index ← if number = 0 then none else some (number - 1)
  (physicalLines '\n' text)[index]?.map Reading.withoutEnding

end Content

end SJava
