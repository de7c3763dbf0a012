import SJava.Proofs.LineBraces
import SJava.Proofs.Walks

/-!
# Depth

The depth of the stack is a matter of the braces alone: `Braces.shift` says what
a line does to it, and both walks follow it.

* `Stack.track_eq_ok`: what the braces of a line do to a stack;
* `Stack.exists_track_iff`: they can be followed unless they close the global
  table, which depends on the depth only;
* `exists_return`: a block that is closed is closed by a line of its own;
* `State.depth_outlineLines`, `Progress.depth_steps`: the depth behind some lines,
  in either walk.
-/

namespace SJava

/-- The depth behind a line that starts at depth `d`. -/
def Braces.shift (line : Text) (d : Nat) : Nat :=
  let opened := if opens line then d + 1 else d
  if closes line then opened - 1 else opened

/-- The depth behind some lines that start at depth `d`. -/
def depthAfter (d : Nat) (lines : List Text) : Nat := lines.foldl (fun d line => Braces.shift line d) d

@[simp] theorem depthAfter_nil (d : Nat) : depthAfter d [] = d := rfl

@[simp] theorem depthAfter_cons (d : Nat) (line : Text) (lines : List Text) :
    depthAfter d (line :: lines) = depthAfter (Braces.shift line d) lines := rfl

theorem depthAfter_append (d : Nat) (xs ys : List Text) :
    depthAfter d (xs ++ ys) = depthAfter (depthAfter d xs) ys := List.foldl_append

/-- The same for lines with their numbers, which it does not depend on. -/
def depthBehind (d : Nat) (ls : List Line) : Nat := depthAfter d (ls.map (·.text))

@[simp] theorem depthBehind_nil (d : Nat) : depthBehind d [] = d := rfl

@[simp] theorem depthBehind_cons (d : Nat) (l : Line) (ls : List Line) :
    depthBehind d (l :: ls) = depthBehind (Braces.shift l.text d) ls := rfl

theorem depthBehind_append (d : Nat) (xs ys : List Line) :
    depthBehind d (xs ++ ys) = depthBehind (depthBehind d xs) ys := by
  rw [depthBehind, List.map_append, depthAfter_append, depthBehind, depthBehind]

/-- A line changes the depth by one at most. -/
theorem Braces.shift_bounds (line : Text) (d : Nat) :
    d ≤ shift line d + 1 ∧ shift line d ≤ d + 1 := by
  simp only [shift]
  split <;> split <;> omega

/-- A depth that falls below `e` first returns from it: at a line that closes a
block, with all the lines before it at depth `e` or further in. -/
theorem exists_return {d e : Nat} {ls : List Line} (he : e ≤ d) (h : depthBehind d ls < e) :
    ∃ mid close rest, ls = mid ++ close :: rest ∧ Braces.closes close.text = true ∧
      (∀ n, e ≤ depthBehind d (mid.take n)) ∧ depthBehind d mid = e ∧
      depthBehind d (mid ++ [close]) + 1 = e := by
  induction ls generalizing d with
  | nil =>
    rw [depthBehind_nil] at h
    omega
  | cons l ls ih =>
    obtain ⟨hdown, -⟩ := Braces.shift_bounds l.text d
    rcases Nat.lt_or_ge (Braces.shift l.text d) e with hlt | hge
    · have hcloses : Braces.closes l.text = true := by
        by_contra hc
        rw [Braces.shift, if_neg hc] at hlt
        split at hlt <;> omega
      refine ⟨[], l, ls, rfl, hcloses, fun n => ?_, ?_, ?_⟩
      · rw [List.take_nil, depthBehind_nil]
        exact he
      · rw [depthBehind_nil]
        omega
      · rw [List.nil_append, depthBehind_cons, depthBehind_nil]
        omega
    · obtain ⟨mid, close, rest, rfl, hcloses, hmid, hlast, hback⟩ := ih hge h
      refine ⟨l :: mid, close, rest, rfl, hcloses, fun n => ?_, hlast, hback⟩
      cases n with
      | zero => exact he
      | succ n => exact hmid n

/-- A header is one block further in. -/
theorem Braces.shift_of_ending {line : Text} {kind : Kind} (h : Kind.of line = .ok kind)
    (hk : kind.ending? = some '{') (d : Nat) : shift line d = d + 1 := by
  have hne : kind ≠ .scopeEnd := by
    rintro rfl
    cases hk
  rw [shift, not_closes_of_ne h hne, opens_of_ending h hk]
  rfl

/-- A line that ends in a semicolon is in one block with what follows. -/
theorem Braces.shift_of_semicolon {line : Text} {kind : Kind} (h : Kind.of line = .ok kind)
    (hne : kind ≠ .scopeEnd) (hlast : line.getLast? = some ';') (d : Nat) : shift line d = d := by
  rw [shift, not_closes_of_ne h hne, not_opens_of_semicolon h hlast]
  rfl

/-! ## Braces on a stack -/

namespace Stack

variable {s t u : Stack} {line : Text}

/-- The braces of a line keep the entries of the blocks that stay open. -/
theorem track_eq_ok (h : s.track line = .ok t) :
    t.depth = Braces.shift line s.depth ∧
      t.active = (if Braces.closes line then s.active.filter (·.depth ≤ t.depth) else s.active) ∧
      ∀ d name, t.entry d name = if d ≤ t.depth then s.entry d name else none := by
  simp only [track] at h
  have hopened : ∀ d name, (if Braces.opens line then s.enter else s).entry d name = s.entry d name := by
    intro d name
    split
    · exact entry_enter s d name
    · rfl
  have hdepth : (if Braces.opens line then s.enter else s).depth =
      if Braces.opens line then s.depth + 1 else s.depth := by split <;> rfl
  have hactive : (if Braces.opens line then s.enter else s).active = s.active := by split <;> rfl
  generalize (if Braces.opens line then s.enter else s) = opened at h hopened hdepth hactive
  split at h
  · next hcloses =>
    obtain ⟨hd, ha, he⟩ := exit_eq_ok h
    refine ⟨?_, by rw [if_pos hcloses, ha, hactive], fun d name => by rw [he, hopened]⟩
    rw [Braces.shift, if_pos hcloses, ← hdepth]
    omega
  · next hcloses =>
    cases h
    refine ⟨by rw [Braces.shift, if_neg hcloses, hdepth], by rw [if_neg hcloses, hactive], ?_⟩
    intro d name
    split
    · exact hopened d name
    · next hd => exact entry_eq_none_of_lt (by omega) name

/-- The braces of a line can be followed unless they close the global table. -/
theorem exists_track_iff :
    (∃ t, s.track line = .ok t) ↔
      (Braces.closes line = true → 1 < if Braces.opens line then s.depth + 1 else s.depth) := by
  have hdepth : (if Braces.opens line then s.enter else s).depth =
      if Braces.opens line then s.depth + 1 else s.depth := by split <;> rfl
  rw [← hdepth, ← exists_exit_iff]
  cases hc : Braces.closes line <;> simp [track, hc]

theorem exists_track_congr (h : s.depth = t.depth) :
    (∃ u, s.track line = .ok u) ↔ ∃ u, t.track line = .ok u := by
  rw [exists_track_iff, exists_track_iff, h]

/-! ## Statements keep the depth -/

theorem declareLine_keeps (h : s.declareLine line = .ok t) :
    t.depth = s.depth ∧ t.active = s.active := by
  obtain ⟨_, _, vs, -, -, -, hall⟩ := declareLine_eq_ok h
  exact ⟨(entry_declareAll hall).1, (entry_declareAll hall).2.1⟩

theorem assignAll_keeps {as : List Assignment} (h : as.foldlM assign s = .ok t) :
    t.depth = s.depth ∧ t.active = s.active := by
  induction as generalizing s with
  | nil =>
    cases h
    exact ⟨rfl, rfl⟩
  | cons a as ih =>
    rw [List.foldlM_cons] at h
    obtain ⟨u, hu, h⟩ := bind_eq_ok_iff.1 h
    obtain ⟨_, _, _, -, -, -, -, -, hdepth, hactive, -⟩ := assign_eq_ok hu
    obtain ⟨hd, ha⟩ := ih h
    exact ⟨hd.trans hdepth, ha.trans hactive⟩

theorem assignLine_eq_ok_iff :
    s.assignLine line = .ok t ↔
      ∃ as, Assignment.allOfLine line = .ok as ∧ as.foldlM assign s = .ok t := bind_eq_ok_iff

theorem assignLine_keeps (h : s.assignLine line = .ok t) :
    t.depth = s.depth ∧ t.active = s.active := by
  obtain ⟨as, -, h⟩ := assignLine_eq_ok_iff.1 h
  exact assignAll_keeps h

theorem Checked.keeps {methods : Registry} {kind : Kind} (h : u.Checked methods line kind t) :
    t.depth = u.depth ∧ t.active = u.active := by
  cases h with
  | declaration done => exact declareLine_keeps done
  | assignment done => exact assignLine_keeps done
  | _ => exact ⟨rfl, rfl⟩

theorem enterMethod_keeps {m : Method} (h : s.enterMethod m = (t, none)) :
    t.depth = s.depth ∧ t.active = some ⟨m, s.depth⟩ := by
  obtain ⟨hd, ha, -⟩ := entry_declareAll h
  exact ⟨hd, ha⟩

end Stack

/-! ## The depth of both walks -/

theorem State.Outlined.tracked {s t : State} {line : Text} {kind : Kind}
    (h : s.Outlined line kind t) : ∃ u, s.stack.track line = .ok u := by
  cases h with
  | header tracked | declared tracked | assigned tracked | passed tracked => exact ⟨_, tracked⟩

theorem State.Outlined.depth {s t : State} {line : Text} {kind : Kind}
    (h : s.Outlined line kind t) : t.stack.depth = Braces.shift line s.stack.depth := by
  cases h with
  | header tracked | passed tracked => exact (Stack.track_eq_ok tracked).1
  | declared tracked _ done =>
    exact (Stack.declareLine_keeps done).1.trans (Stack.track_eq_ok tracked).1
  | assigned tracked _ done =>
    exact (Stack.assignLine_keeps done).1.trans (Stack.track_eq_ok tracked).1

theorem State.depth_outlineLines {s t : State} {ls : List Line} (h : s.outlineLines ls = .ok t) :
    t.stack.depth = depthBehind s.stack.depth ls := by
  refine walk_foldl (f := (·.stack.depth)) (fun hline => ?_) h
  obtain ⟨_, -, hout⟩ := outlineLine_eq_ok hline
  exact hout.depth

theorem Progress.Stepped.depth {p q : Progress} {line : Text} {kind : Kind}
    (h : p.Stepped line kind q) :
    q.state.stack.depth = Braces.shift line p.state.stack.depth := by
  cases h with
  | enter _ tracked _ entered =>
    exact (Stack.enterMethod_keeps entered).1.trans (Stack.track_eq_ok tracked).1
  | skip _ tracked _ => exact (Stack.track_eq_ok tracked).1
  | stay _ tracked checked _ => exact checked.keeps.1.trans (Stack.track_eq_ok tracked).1
  | leave _ tracked checked _ _ => exact checked.keeps.1.trans (Stack.track_eq_ok tracked).1

theorem Progress.depth_steps {p q : Progress} {ls : List Line} (h : p.steps ls = .ok q) :
    q.state.stack.depth = depthBehind p.state.stack.depth ls := by
  refine walk_foldl (f := (·.state.stack.depth)) (fun hline => ?_) h
  obtain ⟨_, -, hstep⟩ := step_eq_ok hline
  exact hstep.depth

end SJava
