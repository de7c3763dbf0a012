import SJava.Proofs.Entries

/-!
# Sequences of operations on a stack

A stack is used through a few operations, any of which may be refused. A method
is recorded with the depth of its block when it is entered, even if one of its
parameters is then refused, and forgotten by closing that block.

* `registers_perform`, `registers_performAll`: the depth and the method move as
  in a machine that keeps the method and its depth in two separate registers;
* `Registers.Sound.move`, `Registers.Sound.moveAll`: what the registers always
  agree on;
* `depth_perform`, `depth_performAll`: the depth counts the blocks that are open;
* `Registers.Holds.move`, `holds_performAll`: a method stays current while its
  block is open;
* `keepsTrack`: what holds behind every sequence of operations.
-/

namespace SJava

namespace Stack

/-- An operation on a stack. -/
inductive Op where
  | enter
  | exit
  | declare (v : Variable)
  | enterMethod (m : Method)
  /-- Changes the variable a name stands for, if it stands for one. -/
  | change (name : Text) (f : Variable → Except Fault Variable)
  | setGlobals (globals : Scope)

namespace Op

/-- Whether the operation opens a block. -/
def isEnter : Op → Bool
  | enter => true
  | _ => false

/-- Whether the operation closes a block. -/
def isExit : Op → Bool
  | exit => true
  | _ => false

/-- Whether the operation starts a method, in the block that is open already. -/
def isEnterMethod : Op → Bool
  | enterMethod _ => true
  | _ => false

end Op

/-- What is left of `s` by an operation that changes nothing when it is refused. -/
def settle (s : Stack) : Except Fault Stack → Stack × Option Fault
  | .ok t => (t, none)
  | .error fault => (s, some fault)

/-- The stack behind an operation, and the fault if it is refused. -/
def perform (s : Stack) : Op → Stack × Option Fault
  | .enter => (s.enter, none)
  | .exit => s.settle s.exit
  | .declare v => s.settle (s.declare v)
  | .enterMethod m => s.enterMethod m
  | .change name f => s.settle ((s.update? f name).getD (.ok s))
  | .setGlobals globals => ({ s with globals }, none)

/-- The stack behind some operations, refused or not. -/
def performAll (s : Stack) (ops : List Op) : Stack :=
  ops.foldl (fun s op => (s.perform op).1) s

/-- Whether the operation closes a block of `s`. -/
def closing (s : Stack) (op : Op) : Bool := op.isExit && (s.perform op).2.isNone

/-- How many blocks the operations close. -/
def closings (s : Stack) : List Op → Nat
  | [] => 0
  | op :: ops => (s.closing op).toNat + (s.perform op).1.closings ops

/-- The operations leave the stack at depth `d` or further in, from the first to
the last. -/
def StaysAt (s : Stack) (d : Nat) (ops : List Op) : Prop :=
  ∀ n, d ≤ (s.performAll (ops.take n)).depth

variable {s t : Stack} {op : Op} {ops : List Op} {m : Method} {d : Nat}

@[simp] theorem performAll_nil (s : Stack) : s.performAll [] = s := rfl

@[simp] theorem performAll_cons (s : Stack) (op : Op) (ops : List Op) :
    s.performAll (op :: ops) = (s.perform op).1.performAll ops := rfl

theorem performAll_append (s : Stack) (xs ys : List Op) :
    s.performAll (xs ++ ys) = (s.performAll xs).performAll ys :=
  List.foldl_append

theorem StaysAt.le_depth (h : s.StaysAt d ops) : d ≤ s.depth := h 0

theorem StaysAt.le_depth_performAll (h : s.StaysAt d ops) : d ≤ (s.performAll ops).depth := by
  simpa using h ops.length

theorem staysAt_nil : s.StaysAt d [] ↔ d ≤ s.depth := by simp [StaysAt]

theorem staysAt_cons : s.StaysAt d (op :: ops) ↔ d ≤ s.depth ∧ (s.perform op).1.StaysAt d ops := by
  constructor
  · exact fun h => ⟨h.le_depth, fun n => h (n + 1)⟩
  · rintro ⟨hd, h⟩ n
    cases n with
    | zero => exact hd
    | succ n => exact h n

/-- An exit is refused at depth 1, and nowhere else. -/
theorem exit_eq_error_iff {fault : Fault} :
    s.exit = .error fault ↔ s.depth = 1 ∧ fault = .noScopeToExit := by
  cases hb : s.blocks <;> simp [exit, depth, hb, eq_comm]

theorem perform_exit_of_depth (h : s.depth = 1) : s.perform .exit = (s, some .noScopeToExit) := by
  rw [perform, exit_eq_error_iff.2 ⟨h, rfl⟩, settle]

theorem isSome_perform_exit_iff : (s.perform .exit).2.isSome = true ↔ s.depth = 1 := by
  refine ⟨fun h => ?_, fun h => by rw [perform_exit_of_depth h]; rfl⟩
  cases he : s.exit with
  | ok t => rw [perform, he, settle] at h; cases h
  | error fault => exact (exit_eq_error_iff.1 he).1

/-! ## Registers -/

end Stack

/-- The depth of a stack and what it records of the method being checked, kept
as two registers that are set and cleared by themselves. -/
structure Registers where
  depth : Nat := 1
  method : Option Method := none
  methodDepth : Option Nat := none

namespace Registers

open Stack (Op)

/-- What an operation does to the registers. -/
def move (r : Registers) : Op → Registers
  | .enter => { r with depth := r.depth + 1 }
  | .exit =>
    if r.depth ≤ 1 then r
    else if r.methodDepth.any (r.depth - 1 < ·) then { depth := r.depth - 1 }
    else { r with depth := r.depth - 1 }
  | .enterMethod m => { r with method := some m, methodDepth := some r.depth }
  | .declare _ | .change _ _ | .setGlobals _ => r

/-- What the registers always agree on. -/
structure Sound (r : Registers) : Prop where
  depth_pos : 1 ≤ r.depth
  method_iff : r.method.isSome ↔ r.methodDepth.isSome
  methodDepth_le : ∀ d ∈ r.methodDepth, d ≤ r.depth

/-- The registers hold the method `m`, entered at depth `d`. -/
structure Holds (r : Registers) (m : Method) (d : Nat) : Prop where
  method : r.method = some m
  methodDepth : r.methodDepth = some d

variable {r : Registers} {m : Method} {d : Nat}

theorem Sound.move (h : r.Sound) (op : Op) : (r.move op).Sound := by
  obtain ⟨hpos, hiff, hle⟩ := h
  cases op with
  | enter => exact ⟨Nat.le_add_left 1 _, hiff, fun d hd => Nat.le_succ_of_le (hle d hd)⟩
  | exit =>
    simp only [Registers.move]
    split
    · exact ⟨hpos, hiff, hle⟩
    · next hdepth =>
      split
      · exact ⟨by simp only; omega, by simp, by simp⟩
      · next hany =>
        refine ⟨by simp only; omega, hiff, fun d hd => ?_⟩
        rw [Option.mem_def.1 hd] at hany
        simpa using hany
  | enterMethod m =>
    refine ⟨hpos, by simp [Registers.move], fun d hd => ?_⟩
    cases hd
    exact Nat.le_refl _
  | declare | change | setGlobals => exact ⟨hpos, hiff, hle⟩

theorem Sound.moveAll (h : r.Sound) (ops : List Op) : (ops.foldl Registers.move r).Sound := by
  induction ops generalizing r with
  | nil => exact h
  | cons op ops ih => exact ih (h.move op)

/-- A method is held by what does not enter another and does not close its
block. -/
theorem Holds.move (h : r.Holds m d) {op : Op} (hop : op.isEnterMethod = false)
    (hdepth : d ≤ (r.move op).depth) : (r.move op).Holds m d := by
  cases op with
  | enterMethod => cases hop
  | exit =>
    simp only [Registers.move] at hdepth ⊢
    split
    · exact h
    · next hpos =>
      split
      · next hany =>
        rw [if_neg hpos, if_pos hany] at hdepth
        rw [h.methodDepth, Option.any_some, decide_eq_true_eq] at hany
        exact absurd hany (Nat.not_lt.2 hdepth)
      · exact ⟨h.method, h.methodDepth⟩
  | enter => exact ⟨h.method, h.methodDepth⟩
  | declare | change | setGlobals => exact h

/-- What leaves the block of the method that is held is an exit, and clears both
registers. -/
theorem Holds.move_below (h : r.Holds m d) {op : Op} (hle : d ≤ r.depth)
    (hlt : (r.move op).depth < d) :
    op = .exit ∧ r.move op = { depth := d - 1, method := none, methodDepth := none } := by
  cases op with
  | exit =>
    refine ⟨rfl, ?_⟩
    simp only [Registers.move] at hlt ⊢
    split
    · next hpos =>
      rw [if_pos hpos] at hlt
      omega
    · next hpos =>
      rw [if_neg hpos] at hlt
      have hback : r.depth = d := by split at hlt <;> simp only at hlt <;> omega
      have hany : r.methodDepth.any (r.depth - 1 < ·) = true := by
        rw [h.methodDepth, Option.any_some, decide_eq_true_eq]
        omega
      rw [if_pos hany, hback]
  | enter | enterMethod | declare | change | setGlobals =>
    simp only [Registers.move] at hlt
    omega

end Registers

namespace Stack

variable {s t : Stack} {op : Op} {ops : List Op} {m : Method} {d : Nat}

/-- What a stack has in the registers. -/
def registers (s : Stack) : Registers where
  depth := s.depth
  method := s.active.map (·.method)
  methodDepth := s.active.map (·.depth)

theorem registers_congr (hdepth : t.depth = s.depth) (hactive : t.active = s.active) :
    t.registers = s.registers := by
  rw [registers, registers, hdepth, hactive]

theorem holds_registers_iff : s.registers.Holds m d ↔ s.active = some ⟨m, d⟩ := by
  constructor
  · rintro ⟨hm, hd⟩
    obtain ⟨a, ha, rfl⟩ := Option.map_eq_some_iff.1 hm
    simp only [registers, ha, Option.map_some, Option.some.injEq] at hd
    rw [ha, ← hd]
  · intro h
    exact ⟨by simp [registers, h], by simp [registers, h]⟩

/-- A refused operation leaves the registers alone, and so does one that is
carried out if its result has the same. -/
theorem registers_settle {x : Except Fault Stack}
    (h : ∀ t, x = .ok t → t.registers = s.registers) : (s.settle x).1.registers = s.registers := by
  cases x with
  | ok t => exact h t rfl
  | error fault => rfl

theorem registers_declare (h : s.declare v = .ok t) : t.registers = s.registers := by
  obtain ⟨-, rfl⟩ := declare_eq_ok_iff.1 h
  exact registers_congr (depth_insert s v) (active_insert s v)

/-- Declaring variables leaves the registers alone, however far it gets. -/
theorem registers_declareAll (s : Stack) (vs : List Variable) :
    (s.declareAll vs).1.registers = s.registers := by
  induction vs generalizing s with
  | nil => rfl
  | cons v vs ih =>
    rw [declareAll]
    cases hd : s.declare v with
    | ok t => exact (ih t).trans (registers_declare hd)
    | error fault => rfl

theorem registers_exit (h : s.exit = .ok t) : t.registers = s.registers.move .exit := by
  obtain ⟨hdepth, hactive, -⟩ := exit_eq_ok h
  have hpos : ¬ s.depth ≤ 1 := by have := t.depth_pos; omega
  have hout : s.depth - 1 = t.depth := by omega
  simp only [registers, Registers.move, if_neg hpos, hout, hactive]
  cases s.active with
  | none => rfl
  | some a =>
    by_cases ha : a.depth ≤ t.depth
    · simp [Option.filter, ha]
    · simp [Option.filter, ha, Nat.lt_of_not_le ha]

/-- An operation moves the registers of a stack as it moves registers by
themselves. -/
theorem registers_perform (s : Stack) (op : Op) :
    (s.perform op).1.registers = s.registers.move op := by
  cases op with
  | enter => rfl
  | exit =>
    cases he : s.exit with
    | ok t => rw [perform, he, settle, registers_exit he]
    | error fault =>
      have hfloor : s.registers.depth ≤ 1 := Nat.le_of_eq (exit_eq_error_iff.1 he).1
      rw [perform, he, settle, Registers.move, if_pos hfloor]
  | declare v => exact registers_settle fun t ht => registers_declare ht
  | enterMethod m => exact registers_declareAll _ _
  | change name f =>
    refine registers_settle fun t ht => ?_
    cases hu : s.update? f name with
    | none =>
      rw [hu] at ht
      cases ht
      rfl
    | some result =>
      rw [hu] at ht
      obtain rfl : result = .ok t := ht
      obtain ⟨_, _, _, -, -, -, hdepth, hactive, -⟩ := update?_eq_ok hu
      exact registers_congr hdepth hactive
  | setGlobals globals => rfl

theorem registers_performAll (s : Stack) (ops : List Op) :
    (s.performAll ops).registers = ops.foldl Registers.move s.registers := by
  induction ops generalizing s with
  | nil => rfl
  | cons op ops ih => rw [performAll_cons, ih, registers_perform, List.foldl_cons]

/-- Every stack that comes of operations on an empty one keeps its registers
sound. -/
theorem sound_registers (ops : List Op) : (performAll {} ops).registers.Sound := by
  rw [registers_performAll]
  exact Registers.Sound.moveAll ⟨Nat.le_refl 1, by simp [registers], by simp [registers]⟩ ops

/-! ## The depth -/

/-- An operation adds the block it opens to the depth and takes away the one it
closes. -/
theorem depth_perform (s : Stack) (op : Op) :
    (s.perform op).1.depth + (s.closing op).toNat = s.depth + op.isEnter.toNat := by
  cases op with
  | exit =>
    cases he : s.exit with
    | ok t => simpa [closing, perform, he, settle, Op.isExit, Op.isEnter] using depth_exit he
    | error fault => simp [closing, perform, he, settle, Op.isExit, Op.isEnter]
  | enter | enterMethod | declare | change | setGlobals =>
    exact congrArg Registers.depth (registers_perform s _)

theorem depth_performAll (s : Stack) (ops : List Op) :
    (s.performAll ops).depth + s.closings ops = s.depth + ops.countP Op.isEnter := by
  induction ops generalizing s with
  | nil => rfl
  | cons op ops ih =>
    have hstep := s.depth_perform op
    have hrun := ih (s.perform op).1
    rw [performAll_cons, closings, List.countP_cons]
    cases he : op.isEnter <;> simp [he] at hstep ⊢ <;> omega

/-! ## The method being checked -/

/-- A method is current behind operations that enter no other and never leave
its block. -/
theorem holds_performAll (h : s.registers.Holds m d) (hno : ∀ op ∈ ops, op.isEnterMethod = false)
    (hstays : s.StaysAt d ops) : (s.performAll ops).registers.Holds m d := by
  induction ops generalizing s with
  | nil => exact h
  | cons op ops ih =>
    obtain ⟨-, hrest⟩ := staysAt_cons.1 hstays
    have hdepth : d ≤ (s.registers.move op).depth := by
      rw [← registers_perform]
      exact hrest.le_depth
    have hstep : (s.perform op).1.registers.Holds m d := by
      rw [registers_perform]
      exact h.move (hno op List.mem_cons_self) hdepth
    exact ih hstep (fun o ho => hno o (List.mem_cons_of_mem _ ho)) hrest

theorem holds_enterMethod (s : Stack) (m : Method) :
    (s.perform (.enterMethod m)).1.registers.Holds m s.depth := by
  rw [registers_perform]
  exact ⟨rfl, rfl⟩

/-! ## Where the innermost block lies -/

theorem place_eq (h : s.registers.Sound) :
    s.place = if s.depth = 1 then .global
      else if s.isInsideMethod then .methodBody
      else .block := by
  rw [place, isInsideMethod]
  split
  · next hglobal => rw [if_pos (isGlobal_iff.1 hglobal)]
  · next hglobal =>
    rw [if_neg (mt isGlobal_iff.2 hglobal)]
    cases ha : s.active with
    | none => rfl
    | some a =>
      have hle : a.depth ≤ s.depth := h.methodDepth_le a.depth (by simp [registers, ha])
      simp [hle]

/-! ## Every sequence of operations -/

/-- What holds of a stack that the operations have made of an empty one. -/
structure Accounted (s : Stack) (ops : List Op) : Prop where
  registers : s.registers = ops.foldl Registers.move {}
  sound : s.registers.Sound
  /-- The depth is one more than the blocks opened and not closed. -/
  depth : s.depth + closings {} ops = 1 + ops.countP Op.isEnter
  refused : (s.perform .exit).2.isSome ↔ s.depth = 1
  unchanged : s.depth = 1 → s.perform .exit = (s, some .noScopeToExit)
  place : s.place = if s.depth = 1 then .global
    else if s.isInsideMethod then .methodBody
    else .block

theorem accounted (ops : List Op) : (performAll {} ops).Accounted ops where
  registers := registers_performAll {} ops
  sound := sound_registers ops
  depth := depth_performAll {} ops
  refused := isSome_perform_exit_iff
  unchanged := perform_exit_of_depth
  place := place_eq (sound_registers ops)

/-- What becomes of a method `m` that has just been entered at depth `d`. -/
structure Tenure (s : Stack) (m : Method) (d : Nat) : Prop where
  /-- It is current as long as its block stays open and no other is entered. -/
  current : ∀ ops, (∀ op ∈ ops, op.isEnterMethod = false) → s.StaysAt d ops →
    (s.performAll ops).active = some ⟨m, d⟩
  /-- What first leaves its block is an exit, and behind that it is not current. -/
  cleared : ∀ ops op, (∀ o ∈ ops, o.isEnterMethod = false) → s.StaysAt d ops →
    (s.performAll (ops ++ [op])).depth < d →
      op = .exit ∧ (s.performAll (ops ++ [op])).depth = d - 1 ∧
        (s.performAll (ops ++ [op])).active = none

theorem tenure_of_holds (h : s.registers.Holds m d) : s.Tenure m d where
  current _ hno hstays := holds_registers_iff.1 (holds_performAll h hno hstays)
  cleared ops op hno hstays hlt := by
    have hbefore := holds_performAll h hno hstays
    have hdepth := hstays.le_depth_performAll
    rw [performAll_append, performAll_cons, performAll_nil] at hlt ⊢
    have hmove := registers_perform (s.performAll ops) op
    obtain ⟨rfl, hcleared⟩ := hbefore.move_below hdepth (by rwa [← hmove])
    rw [hcleared] at hmove
    exact ⟨rfl, congrArg Registers.depth hmove,
      Option.map_eq_none_iff.1 (congrArg Registers.method hmove)⟩

/-- Whatever is done to a stack, its depth counts the open blocks, the method
being checked and its depth are recorded together, and a method is current from
where it is entered, even if a parameter of it is refused, to where its block is
closed. -/
theorem keepsTrack :
    (∀ ops, (performAll {} ops).Accounted ops) ∧
      ∀ (s : Stack) (m : Method), (s.perform (.enterMethod m)).1.Tenure m s.depth :=
  ⟨accounted, fun s m => tenure_of_holds (holds_enterMethod s m)⟩

/-- A method of which the second parameter is refused, with a block opened and
closed within its own. -/
theorem keepsTrack_refusedParameter :
    let m : Method := ⟨['f'], [⟨['a'], .int, false, none⟩, ⟨['a'], .char, false, none⟩]⟩
    let entered := (({} : Stack).enter.perform (.enterMethod m))
    let ops : List Op := [.enter, .change ['a'] (·.reassign ['1']), .exit]
    entered.2 = some (.variableAlreadyDeclared ['a']) ∧
      (entered.1.performAll ops).active = some ⟨m, 2⟩ ∧
      (entered.1.performAll (ops ++ [.exit])).active = none ∧
      (entered.1.performAll (ops ++ [.exit])).place = .global := by
  intro m entered ops
  have hno : ∀ op ∈ ops, op.isEnterMethod = false := by simp [ops, Op.isEnterMethod]
  have hstays : entered.1.StaysAt 2 ops := by
    simp only [ops, staysAt_cons, staysAt_nil]
    decide +kernel
  have hrun := keepsTrack.2 ({} : Stack).enter m
  obtain ⟨-, -, hcleared⟩ := hrun.cleared ops .exit hno hstays (by decide +kernel)
  exact ⟨by decide +kernel, hrun.current ops hno hstays, hcleared, by decide +kernel⟩

/-- A method that is entered outside all blocks is current until another is. -/
theorem active_of_depth_one (h : s.depth = 1) (hno : ∀ op ∈ ops, op.isEnterMethod = false) :
    ((s.perform (.enterMethod m)).1.performAll ops).active = some ⟨m, 1⟩ :=
  (tenure_of_holds (h ▸ holds_enterMethod s m)).current ops hno fun _ => depth_pos _

end Stack

end SJava
