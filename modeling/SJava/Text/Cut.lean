import SJava.Text.Blank

/-!
# Cutting a text at a separator

A statement is cut at single characters (`(`, `)`, `,`, `=`) and at doubled
ones (`||`, `&&`).

* `cut?_eq_some_iff`, `beforeLast?_eq_some_iff`: both cuts are where the
  separator stands for the first and for the last time;
* `afterWord?`: what follows a leading keyword and the blanks behind it.
-/

namespace SJava.Text

/-- What stands in front of the first `c`, and what stands behind it. -/
def cut? (c : Char) : Text → Option (Text × Text)
  | [] => none
  | x :: s => if x = c then some ([], s) else (cut? c s).map fun (front, back) => (x :: front, back)

/-- What stands in front of the last `c`. -/
def beforeLast? (c : Char) : Text → Option Text
  | [] => none
  | x :: s =>
    match beforeLast? c s with
    | some front => some (x :: front)
    | none => if x = c then some [] else none

/-- Cuts at every doubled `c`; of three in a row the first two form the
separator. -/
def splitOnDouble (c : Char) : Text → List Text
  | [] => [[]]
  | [x] => [[x]]
  | x :: y :: s =>
    if x = c ∧ y = c then [] :: splitOnDouble c s
    else
      match splitOnDouble c (y :: s) with
      | [] => [[x]]
      | piece :: pieces => (x :: piece) :: pieces

/-- The text without its ending `c`, if it has one. -/
def dropFinal (c : Char) (s : Text) : Text :=
  if s.getLast? = some c then s.dropLast else s

/-- The part of a statement that stands before its final semicolon. -/
def statementBody (line : Text) : Text := trim (dropFinal ';' (trim line))

/-- What follows the word `w` and the blanks behind it, when the text starts,
after any blanks, with `w` and at least one blank. -/
def afterWord? (w s : Text) : Option Text :=
  match w.isPrefixOf? (trimStart s) with
  | some (c :: rest) => if isBlank c then some (trimStart rest) else none
  | _ => none

theorem cut?_cons_self (c : Char) (s : Text) : cut? c (c :: s) = some ([], s) := if_pos rfl

theorem cut?_cons_of_ne {c x : Char} (h : x ≠ c) (s : Text) :
    cut? c (x :: s) = (cut? c s).map fun (front, back) => (x :: front, back) := if_neg h

theorem cut?_eq_some_iff {c : Char} {s front back : Text} :
    cut? c s = some (front, back) ↔ s = front ++ c :: back ∧ c ∉ front := by
  induction s generalizing front with
  | nil => simp [cut?]
  | cons x s ih =>
    by_cases h : x = c
    · subst h
      rw [cut?_cons_self]
      constructor
      · rintro ⟨⟩
        exact ⟨rfl, List.not_mem_nil⟩
      · rintro ⟨hs, hf⟩
        cases front with
        | nil => exact congrArg (fun t => some ([], t)) (List.cons_eq_cons.1 hs).2
        | cons y front => exact absurd ((List.cons_eq_cons.1 hs).1 ▸ List.mem_cons_self) hf
    · rw [cut?_cons_of_ne h, Option.map_eq_some_iff]
      constructor
      · rintro ⟨⟨inner, _⟩, hi, ⟨⟩⟩
        obtain ⟨rfl, hc⟩ := ih.1 hi
        exact ⟨rfl, fun hm => (List.mem_cons.1 hm).elim (fun e => h e.symm) hc⟩
      · rintro ⟨hs, hf⟩
        cases front with
        | nil => exact absurd (List.cons_eq_cons.1 hs).1 h
        | cons y front =>
          obtain ⟨rfl, rfl⟩ := List.cons_eq_cons.1 hs
          exact ⟨(front, back), ih.2 ⟨rfl, fun hm => hf (List.mem_cons_of_mem _ hm)⟩, rfl⟩

theorem cut?_eq_none_iff {c : Char} {s : Text} : cut? c s = none ↔ c ∉ s := by
  induction s with
  | nil => simp [cut?]
  | cons x s ih =>
    by_cases h : x = c
    · simp [h, cut?_cons_self]
    · rw [cut?_cons_of_ne h, Option.map_eq_none_iff, ih, List.mem_cons, not_or]
      exact ⟨fun hc => ⟨fun e => h e.symm, hc⟩, And.right⟩

theorem beforeLast?_eq_none_iff {c : Char} {s : Text} : beforeLast? c s = none ↔ c ∉ s := by
  induction s with
  | nil => simp [beforeLast?]
  | cons x s ih =>
    cases h : beforeLast? c s with
    | none =>
      have hc := ih.1 h
      by_cases hx : x = c
      · simp [beforeLast?, h, hx]
      · simp [beforeLast?, h, hx, hc, Ne.symm hx]
    | some front =>
      have hc : c ∈ s := Decidable.not_not.1 fun hc => by simp [ih.2 hc] at h
      simp [beforeLast?, h, hc]

theorem beforeLast?_eq_some_iff {c : Char} {s front : Text} :
    beforeLast? c s = some front ↔ ∃ back, s = front ++ c :: back ∧ c ∉ back := by
  induction s generalizing front with
  | nil => simp [beforeLast?]
  | cons x s ih =>
    cases h : beforeLast? c s with
    | none =>
      have hc := beforeLast?_eq_none_iff.1 h
      cases front with
      | nil =>
        by_cases hx : x = c
        · simp [beforeLast?, h, hx, hc]
        · simp [beforeLast?, h, hx]
      | cons y front =>
        have hno : ¬∃ back, x :: s = y :: front ++ c :: back ∧ c ∉ back := by
          rintro ⟨back, hs, -⟩
          exact hc (by rw [(List.cons_eq_cons.1 hs).2]; simp)
        by_cases hx : x = c <;> simp [beforeLast?, h, hx] <;> simpa [hx] using hno
    | some inner =>
      obtain ⟨back, hs, -⟩ := ih.1 h
      cases front with
      | nil =>
        have hno : ¬∃ back, x :: s = [] ++ c :: back ∧ c ∉ back := by
          rintro ⟨back', hs', hb⟩
          exact hb (by rw [← (List.cons_eq_cons.1 hs').2, hs]; simp)
        simpa [beforeLast?, h] using hno
      | cons y front =>
        simp only [beforeLast?, h, Option.some.injEq, List.cons.injEq, List.cons_append,
          and_assoc, exists_and_left]
        rw [← ih, h, Option.some.injEq]

end SJava.Text
