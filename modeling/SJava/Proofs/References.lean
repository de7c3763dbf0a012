import SJava.Proofs.Depth

/-!
# References to variables

Where on a line a variable is read or written, and the stack that such a reference
is checked against: the one in front of the line, but for an assignment the one
behind the clauses before.

* `Stack.Checked.exists_lookup`: on a line that passes its check, every reference
  stands for a variable, and for one that may be read or written there.
-/

namespace SJava

/-- What a reference does with a variable. -/
inductive Access where
  | read
  | write
  deriving DecidableEq, Repr

/-- Whether the variable may be referred to in that way. -/
def Access.Allows : Access → Variable → Prop
  | read, v => v.isInitialized = true
  | write, v => v.isFinal = false

/-- The name that stands on the line refers to a variable. Assignments are told
apart by their place on the line. -/
inductive References (line : Text) : (clause : Nat) → Access → (name : Text) → Prop
  | initializer {d : Declaration} {c : Clause} {raw : Text} (kind : Kind.of line = .ok .declaration)
      (parsed : Declaration.ofLine line = .ok d) (mem : c ∈ d.clauses) (value : c.value = some raw)
      (named : Name.isNameLike raw = true) : References line 0 .read raw
  | target {as : List Assignment} {n : Nat} {a : Assignment} (kind : Kind.of line = .ok .assignment)
      (parsed : Assignment.allOfLine line = .ok as) (mem : as[n]? = some a) :
      References line n .write a.target
  | value {as : List Assignment} {n : Nat} {a : Assignment} (kind : Kind.of line = .ok .assignment)
      (parsed : Assignment.allOfLine line = .ok as) (mem : as[n]? = some a)
      (named : Name.isNameLike a.value = true) : References line n .read a.value
  | argument {call : Call} {raw : Text} (kind : Kind.of line = .ok .call)
      (parsed : Call.ofLine line = .ok call) (mem : raw ∈ call.arguments)
      (named : Name.isNameLike raw = true) : References line 0 .read raw
  | operand {operands : List Text} {raw : Text} (kind : Kind.of line = .ok .condition)
      (parsed : Condition.operands line = .ok operands) (mem : raw ∈ operands)
      (named : Name.isNameLike raw = true) : References line 0 .read raw

/-- `t` is what the first `n` clauses of the line make of the stack `u`, if it is
an assignment. The clauses of all other lines are checked against `u` itself. -/
inductive Stack.BehindClauses (u : Stack) (line : Text) : Nat → Stack → Prop
  | start : BehindClauses u line 0 u
  | assigned {as : List Assignment} {n : Nat} {t : Stack} (kind : Kind.of line = .ok .assignment)
      (parsed : Assignment.allOfLine line = .ok as) (le : n ≤ as.length)
      (done : (as.take n).foldlM assign u = .ok t) : BehindClauses u line n t

/-- A line with references is a statement. -/
theorem References.kind_ne {line : Text} {n : Nat} {access : Access} {name : Text}
    (h : References line n access name) {kind : Kind} (hkind : Kind.of line = .ok kind) :
    kind ≠ .methodHeader ∧ kind ≠ .scopeEnd := by
  cases h with
  | initializer hk | target hk | value hk | argument hk | operand hk =>
    cases Except.ok.inj (hkind.symm.trans hk)
    decide

/-- Of a sequence of steps that goes through, each goes through behind those before
it. -/
theorem foldlM_take_eq_ok {α β ε : Type} {f : β → α → Except ε β} {b c : β} {xs : List α} {n : Nat}
    {x : α} (h : xs.foldlM f b = .ok c) (hx : xs[n]? = some x) :
    ∃ d e, (xs.take n).foldlM f b = .ok d ∧ f d x = .ok e ∧ (xs.take (n + 1)).foldlM f b = .ok e := by
  obtain ⟨e, he⟩ := exists_foldlM_take h (n + 1)
  obtain ⟨d, hd, hstep⟩ := (foldlM_take_add_one_eq_ok hx).1 he
  exact ⟨d, e, hd, hstep, he⟩

/-- An argument that is a name stands for an initialized variable. -/
theorem Method.exists_of_checkArguments {lookup : Text → Option Variable} {m : Method}
    {arguments : List Text} {raw : Text} (h : m.checkArguments lookup arguments = .ok ())
    (hmem : raw ∈ arguments) (hraw : Name.isNameLike raw = true) :
    ∃ v, lookup raw = some v ∧ v.isInitialized = true := by
  unfold checkArguments at h
  split at h
  · next hlen =>
    obtain ⟨n, hn, rfl⟩ := List.getElem_of_mem hmem
    have hpair : (m.parameters[n], arguments[n]) ∈ m.parameters.zip arguments := by
      rw [← List.getElem_zip (h := by rw [List.length_zip]; omega)]
      exact List.getElem_mem _
    obtain ⟨value, hvalue, -⟩ := bind_eq_ok_iff.1 (forM_eq_ok_iff.1 h _ hpair)
    exact Variable.exists_of_resolve_name hvalue hraw
  · cases h

namespace Stack

/-- An operand that is a name stands for an initialized variable. -/
theorem exists_of_checkOperand {s : Stack} {raw : Text} (h : s.checkOperand raw = .ok ())
    (hraw : Name.isNameLike raw = true) : ∃ v, s.lookup raw = some v ∧ v.isInitialized = true := by
  unfold checkOperand at h
  split at h
  · next v hv =>
    split at h
    · cases h
    · next hinit => exact ⟨v, hv, by simpa using hinit⟩
  · rw [if_pos hraw] at h
    cases h

/-- On a line that passes its check, every reference stands for a variable that may
be referred to in that way. -/
theorem Checked.exists_lookup {u t : Stack} {methods : Registry} {line : Text} {kind : Kind}
    (h : u.Checked methods line kind t) (hkind : Kind.of line = .ok kind) {n : Nat} {access : Access}
    {name : Text} (href : References line n access name) :
    ∃ t', u.BehindClauses line n t' ∧ ∃ v, t'.lookup name = some v ∧ access.Allows v := by
  cases href with
  | initializer hk parsed mem value named =>
    cases Except.ok.inj (hkind.symm.trans hk)
    cases h with
    | declaration done =>
      obtain ⟨d, ty, vs, hd, -, hvs, -⟩ := declareLine_eq_ok done
      cases Except.ok.inj (hd.symm.trans parsed)
      obtain ⟨i, hi, rfl⟩ := List.getElem_of_mem mem
      have hv := hvs.get hi (hvs.length_eq ▸ hi)
      obtain ⟨value', hresolve, -⟩ := hv.resolve _ value
      exact ⟨u, .start, Variable.exists_of_resolve_name hresolve named⟩
  | @target as n a hk parsed mem =>
    cases Except.ok.inj (hkind.symm.trans hk)
    cases h with
    | assignment done =>
      obtain ⟨as', has, hall⟩ := assignLine_eq_ok_iff.1 done
      cases Except.ok.inj (has.symm.trans parsed)
      obtain ⟨t', _, htake, hassign, -⟩ := foldlM_take_eq_ok hall mem
      have hle : n ≤ as.length := Nat.le_of_lt (List.getElem?_eq_some_iff.1 mem).1
      obtain ⟨d, v, _, hv, hin, hfinal, -⟩ := assign_eq_ok hassign
      exact ⟨t', .assigned hk parsed hle htake, v, lookup_eq_some_iff.2 ⟨d, hv, hin⟩, hfinal⟩
  | @value as n a hk parsed mem named =>
    cases Except.ok.inj (hkind.symm.trans hk)
    cases h with
    | assignment done =>
      obtain ⟨as', has, hall⟩ := assignLine_eq_ok_iff.1 done
      cases Except.ok.inj (has.symm.trans parsed)
      obtain ⟨t', _, htake, hassign, -⟩ := foldlM_take_eq_ok hall mem
      have hle : n ≤ as.length := Nat.le_of_lt (List.getElem?_eq_some_iff.1 mem).1
      obtain ⟨_, _, _, -, -, -, hresolve, -⟩ := assign_eq_ok hassign
      exact ⟨t', .assigned hk parsed hle htake, Variable.exists_of_resolve_name hresolve named⟩
  | argument hk parsed mem named =>
    cases Except.ok.inj (hkind.symm.trans hk)
    cases h with
    | call done =>
      obtain ⟨call, hcall, hm⟩ := bind_eq_ok_iff.1 done
      cases Except.ok.inj (hcall.symm.trans parsed)
      split at hm
      · exact ⟨u, .start, Method.exists_of_checkArguments hm mem named⟩
      · exact absurd hm throw_ne_ok
  | operand hk parsed mem named =>
    cases Except.ok.inj (hkind.symm.trans hk)
    cases h with
    | condition done =>
      obtain ⟨operands, hops, hall⟩ := bind_eq_ok_iff.1 done
      cases Except.ok.inj (hops.symm.trans parsed)
      exact ⟨u, .start, exists_of_checkOperand (forM_eq_ok_iff.1 hall _ mem) named⟩

end Stack

end SJava
