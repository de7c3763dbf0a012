import SJava.Proofs.Legality
import SJava.Proofs.Scoping

/-!
# What an accepted script results in

The state that checking an accepted script ends with, in terms of the lines of the
script: its globals are what the statements at global scope make, its methods are those
of the headers, and the second walk, which starts every method from these globals, leaves
no trace in it.

* `Script.Accepted.final_eq`: the result is the outline;
* `Script.Registers`, `Script.registers`: the invariant of the first walk: the
  registry holds the methods of the headers so far, each under its own name;
* `Script.Accepted.window_iff`: when the window of a method is open in the second walk;
* `Script.Exact`, `Script.exact_of_accepted`: the result.
-/

namespace SJava

/-- The parameters of a method that is being checked have different names. -/
theorem Stack.nodup_of_enterMethod {s t : Stack} {m : Method} (h : s.enterMethod m = (t, none)) :
    (m.parameters.map (·.name)).Nodup := by
  obtain ⟨hnodup, -⟩ := declareAll_fresh h
  rwa [List.map_map] at hnodup

/-- The line starts the method `m` in the second walk. In front of the line and behind it,
and in the window it opens, the globals are these. -/
def Progress.Starts (p : Progress) (line : Text) (m : Method) (globals : Scope) : Prop :=
  p.window = none ∧ p.state.stack.globals = globals ∧
    ∃ q, p.step line = .ok q ∧ q.state.stack.globals = globals ∧
      ∃ w, q.window = some w ∧ w.method = m ∧ w.globals = globals

/-! ## Statements at global scope -/

/-- Whether lines of the kind declare variables or assign to them. -/
def Kind.setsVariables : Kind → Bool
  | .declaration | .assignment => true
  | _ => false

namespace Script

/-- The line declares variables or assigns to them. -/
def setsVariables (line : Text) : Bool := (Kind.of line).toOption.any Kind.setsVariables

theorem applyLine_of_not_setsVariables {line : Text} (h : setsVariables line = false)
    (globals : Scope) : applyLine globals line = some globals := by
  unfold setsVariables at h
  unfold applyLine
  cases hkind : Kind.of line with
  | error fault => rfl
  | ok kind =>
    rw [hkind] at h
    cases kind with
    | declaration | assignment => cases h
    | _ => rfl

theorem foldlM_filter_setsVariables (lines : List Text) (globals : Scope) :
    (lines.filter setsVariables).foldlM applyLine globals = lines.foldlM applyLine globals := by
  induction lines generalizing globals with
  | nil => rfl
  | cons line lines ih =>
    cases h : setsVariables line with
    | true =>
      rw [List.filter_cons_of_pos h, List.foldlM_cons, List.foldlM_cons]
      exact congrArg _ (funext ih)
    | false =>
      rw [List.filter_cons_of_neg (by simp [h]), List.foldlM_cons, applyLine_of_not_setsVariables h]
      exact ih globals

/-- The declarations and assignments that the first walk meets at depth 1, in order. As
everywhere in the first walk, it is the depth behind the braces of the line that counts:
an assignment that opens a block is met within that block. -/
def globalStatements (script : Script) : List Text :=
  (globalLines 1 (script.lines.map (·.text))).filter setsVariables

/-! ## Headers and methods -/

/-- The line at place `i` is a header, and the method it declares is `m`. -/
def DeclaresMethod (script : Script) (i : Nat) (m : Method) : Prop :=
  ∃ l, script.lines[i]? = some l ∧ Kind.of l.text = .ok .methodHeader ∧ Method.ofLine l.text = .ok m

variable {script : Script} {outline final s : State} {i j k : Nat} {l : Line} {m m' : Method}

theorem DeclaresMethod.header (h : script.DeclaresMethod i m) :
    ∃ l, script.lines[i]? = some l ∧ Kind.of l.text = .ok .methodHeader := by
  obtain ⟨l, hl, hkind, -⟩ := h
  exact ⟨l, hl, hkind⟩

theorem DeclaresMethod.lt_length (h : script.DeclaresMethod i m) : i < script.lines.length := by
  obtain ⟨l, hl, -⟩ := h.header
  exact (List.getElem?_eq_some_iff.1 hl).1

theorem DeclaresMethod.unique (h : script.DeclaresMethod i m) (h' : script.DeclaresMethod i m') :
    m = m' := by
  obtain ⟨l, hl, -, hm⟩ := h
  obtain ⟨l', hl', -, hm'⟩ := h'
  cases Option.some.inj (hl.symm.trans hl')
  exact Except.ok.inj (hm.symm.trans hm')

theorem not_declaresMethod {kind : Kind} (hl : script.lines[i]? = some l)
    (hkind : Kind.of l.text = .ok kind) (hne : kind ≠ .methodHeader) :
    ¬script.DeclaresMethod i m := by
  rintro ⟨l', hl', hheader, -⟩
  cases Option.some.inj (hl.symm.trans hl')
  exact hne (Except.ok.inj (hkind.symm.trans hheader))

/-- What the registry of the first walk holds in front of line `k`. -/
structure Registers (script : Script) (k : Nat) (s : State) : Prop where
  /-- The methods of the headers so far, each under its own name. -/
  getElem?_iff : ∀ name m, s.methods[name]? = some m ↔
    m.name = name ∧ ∃ i, i < k ∧ script.DeclaresMethod i m
  /-- No two headers declare methods of one name. -/
  inj : ∀ i i' m m', i < k → i' < k → script.DeclaresMethod i m → script.DeclaresMethod i' m' →
    m.name = m'.name → i = i'

/-- A line that is no header keeps the methods. -/
theorem Registers.next {t : State} (h : script.Registers k s)
    (hno : ∀ m, ¬script.DeclaresMethod k m) (hmethods : t.methods = s.methods) :
    script.Registers (k + 1) t where
  getElem?_iff name m := by
    rw [hmethods, h.getElem?_iff, Nat.exists_lt_succ_right, or_iff_left (hno m)]
  inj i i' m m' hi hi' hm hm' hname := by
    rcases Nat.lt_succ_iff_lt_or_eq.1 hi with hlt | rfl
    · rcases Nat.lt_succ_iff_lt_or_eq.1 hi' with hlt' | rfl
      · exact h.inj i i' m m' hlt hlt' hm hm' hname
      · exact absurd hm' (hno m')
    · exact absurd hm (hno m)

/-- A header adds its method, whose name is new. -/
theorem Registers.insert {stack : Stack} (h : script.Registers k s) (hm : script.DeclaresMethod k m)
    (hfresh : m.name ∉ s.methods) :
    script.Registers (k + 1) { stack, methods := s.methods.insert m.name m } := by
  have hne (i : Nat) (m' : Method) (hi : i < k) (hm' : script.DeclaresMethod i m') :
      m'.name ≠ m.name := by
    intro hname
    rw [← Std.ExtTreeMap.isSome_getElem?_iff_mem, (h.getElem?_iff _ m').2 ⟨hname, i, hi, hm'⟩] at hfresh
    exact hfresh rfl
  constructor
  · intro name m'
    simp only [Std.ExtTreeMap.getElem?_insert, Std.LawfulEqCmp.compare_eq_iff_eq]
    split
    · next hname =>
      subst hname
      rw [Option.some.injEq, Nat.exists_lt_succ_right]
      constructor
      · rintro rfl
        exact ⟨rfl, .inr hm⟩
      · rintro ⟨hname, ⟨i, hi, hm'⟩ | hm'⟩
        · exact absurd hname (hne i m' hi hm')
        · exact hm.unique hm'
    · next hname =>
      rw [h.getElem?_iff, Nat.exists_lt_succ_right]
      refine and_congr_right fun hname' => (or_iff_left fun hm' => hname ?_).symm
      rw [hm.unique hm', hname']
  · intro i i' m₁ m₂ hi hi' hm₁ hm₂ hname
    rcases Nat.lt_succ_iff_lt_or_eq.1 hi with hlt | rfl <;>
      rcases Nat.lt_succ_iff_lt_or_eq.1 hi' with hlt' | rfl
    · exact h.inj i i' m₁ m₂ hlt hlt' hm₁ hm₂ hname
    · rw [← hm.unique hm₂] at hname
      exact absurd hname (hne i m₁ hlt hm₁)
    · rw [← hm.unique hm₁] at hname
      exact absurd hname.symm (hne i' m₂ hlt' hm₂)
    · rfl

theorem Registers.step {t : State} {kind : Kind} (h : script.Registers k s)
    (hl : script.lines[k]? = some l) (hkind : Kind.of l.text = .ok kind)
    (hout : s.Outlined l.text kind t) : script.Registers (k + 1) t := by
  cases hout with
  | header _ parsed fresh => exact h.insert ⟨l, hl, hkind, parsed⟩ fresh
  | declared | assigned => exact h.next (fun _ => not_declaresMethod hl hkind (by decide)) rfl
  | passed _ notHeader => exact h.next (fun _ => not_declaresMethod hl hkind notHeader) rfl

/-- Wherever the first walk comes, it has the registry of the headers so far. -/
theorem registers (hk : k ≤ script.lines.length)
    (hs : State.outlineLines {} (script.lines.take k) = .ok s) : script.Registers k s :=
  outlineLines_take_induction (P := script.Registers)
    ⟨fun name m => by simp, fun i _ _ _ hi => absurd hi (Nat.not_lt_zero i)⟩
    (fun hl _ hkind hout h => h.step hl hkind hout) hk hs

/-! ## The two walks over an accepted script -/

/-- A window has one end. -/
theorem IsWindow.end_unique {j' : Nat} (hw : script.IsWindow i j) (hw' : script.IsWindow i j') :
    j = j' := by
  have hle {j j' : Nat} (hw : script.IsWindow i j) (hw' : script.IsWindow i j') : j' ≤ j := by
    by_contra hlt
    have hbehind := hw'.inside (j + 1) (by have := hw.lt; omega) (by omega)
    rw [hw.back] at hbehind
    exact Nat.lt_irrefl _ hbehind
  exact Nat.le_antisymm (hle hw' hw) (hle hw hw')

namespace Accepted

variable (h : script.Accepted outline final)
include h

/-- The second walk leaves nothing behind. -/
theorem final_eq : final = outline := by
  obtain ⟨_, rfl, -, hclosed, -⟩ := outline_eq_ok_iff_parts.1 h.outline_eq
  exact ((bodies_eq_ok_iff_stepped hclosed).1 h.bodies_eq).1

theorem foldlM_globalStatements :
    script.globalStatements.foldlM applyLine ∅ = some outline.stack.globals := by
  obtain ⟨_, rfl, -, -, hglobals, -⟩ := outline_eq_ok_iff_parts.1 h.outline_eq
  rw [globalStatements, foldlM_filter_setsVariables]
  exact hglobals

theorem registers_outline : script.Registers script.lines.length outline := by
  refine registers (Nat.le_refl _) ?_
  rw [List.take_length]
  exact (outline_eq_ok_iff.1 h.outline_eq).1

theorem exists_declaresMethod (hl : script.lines[i]? = some l)
    (hkind : Kind.of l.text = .ok .methodHeader) : ∃ m, script.DeclaresMethod i m := by
  obtain ⟨q, hq, -⟩ := h.exists_steps (i + 1)
  obtain ⟨m, hm, -⟩ := h.inBlock_add_one hl hkind hq
  exact ⟨m, l, hl, hkind, hm⟩

/-- The globals of the second walk, where they are not those of a method, are those of
the outline. -/
theorem restores {p : Progress} {ls : List Line}
    (hp : Progress.steps { state := outline } ls = .ok p) :
    p.Restores (outline.stack.globals, outline.methods) := by
  obtain ⟨known, rfl, -⟩ := outline_eq_ok_iff_parts.1 h.outline_eq
  exact (Progress.restores_outside known).steps hp

/-- A window that starts at a header stays open as long as its block, and no other one is
ever opened on its method. -/
theorem window_iff {p : Progress} (hw : script.IsWindow i j) (hm : script.DeclaresMethod i m)
    (hk : k ≤ script.lines.length)
    (hp : Progress.steps { state := outline } (script.lines.take k) = .ok p) :
    (∃ w, p.window = some w ∧ w.method = m) ↔ i < k ∧ k ≤ j := by
  constructor
  · rintro ⟨w, hpw, rfl⟩
    obtain ⟨i', j', hw', hik, hkj⟩ := (h.tracks hk hp).within w hpw
    obtain ⟨l', hl', hkind⟩ := hw'.header
    obtain ⟨m', hparsed, hblock⟩ := h.inBlock hw' hik hkj hl' hp
    obtain ⟨w', hpw', rfl⟩ := hblock.window
    cases Option.some.inj (hpw'.symm.trans hpw)
    have hm' : script.DeclaresMethod i' w.method := ⟨l', hl', hkind, hparsed⟩
    obtain rfl := h.registers_outline.inj i i' _ _ hm.lt_length hm'.lt_length hm hm' rfl
    rw [hw.end_unique hw']
    exact ⟨hik, hkj⟩
  · rintro ⟨hik, hkj⟩
    obtain ⟨l, hl, -, hparsed⟩ := hm
    obtain ⟨m', hparsed', hblock⟩ := h.inBlock hw hik hkj hl hp
    cases Except.ok.inj (hparsed.symm.trans hparsed')
    exact hblock.window

/-- At its header a method is started, whose parameters have different names. -/
theorem starts {p : Progress} (hl : script.lines[i]? = some l) (hm : script.DeclaresMethod i m)
    (hp : Progress.steps { state := outline } (script.lines.take i) = .ok p) :
    p.Starts l.text m outline.stack.globals ∧ (m.parameters.map (·.name)).Nodup := by
  obtain ⟨l', hl', hheader, hparsed⟩ := hm
  cases Option.some.inj (hl.symm.trans hl')
  obtain ⟨kind, q, hkind, hstep, hq⟩ := h.stepped hl hp
  cases Except.ok.inj (hheader.symm.trans hkind)
  have hnone := h.window_eq_none hl hheader hp
  have hrestores := h.restores hq
  have hq' := hstep.step_eq hheader
  cases hstep with
  | @enter u t m' outside tracked parsed entered =>
    cases Except.ok.inj (hparsed.symm.trans parsed)
    have hglobals := hrestores.inside _ rfl
    exact ⟨⟨hnone, (h.restores hp).outside hnone, _, hq', hglobals, _, rfl, rfl, hglobals⟩,
      Stack.nodup_of_enterMethod entered⟩
  | skip _ _ notHeader => exact absurd rfl notHeader
  | stay _ _ checked | leave _ _ checked => cases checked

end Accepted

/-! ## The result -/

/-- The state `final` is what the lines of the script make. -/
structure Exact (script : Script) (final : State) : Prop where
  /-- The second walk, which starts from the outline, leaves it as it was. -/
  outline_eq : script.outline = .ok final
  /-- The globals are what the statements at global scope make, one after the other. -/
  globals : script.globalStatements.foldlM applyLine ∅ = some final.stack.globals
  /-- Every header declares a method, which is registered under its own name. -/
  declared : ∀ i l, script.lines[i]? = some l → Kind.of l.text = .ok .methodHeader →
    ∃ m, script.DeclaresMethod i m ∧ final.methods[m.name]? = some m
  /-- Every registered method is under its own name, and declared by one header only. -/
  registered : ∀ name m, final.methods[name]? = some m →
    m.name = name ∧ ∃! i, script.DeclaresMethod i m
  /-- The parameters of a registered method have different names. -/
  parameters : ∀ (name : Text) (m : Method), final.methods[name]? = some m →
    (m.parameters.map (·.name)).Nodup
  /-- The second walk starts every method from the same globals. -/
  started : ∀ i l m, script.lines[i]? = some l → script.DeclaresMethod i m →
    ∃ p, Progress.steps { state := final } (script.lines.take i) = .ok p ∧
      p.Starts l.text m final.stack.globals
  /-- A window on a method is open behind its header, up to the end of its block, and
  nowhere else. -/
  scanned : ∀ i m, script.DeclaresMethod i m → ∃ j, script.IsWindow i j ∧
    ∀ k, k ≤ script.lines.length →
      ∃ p, Progress.steps { state := final } (script.lines.take k) = .ok p ∧
        ((∃ w, p.window = some w ∧ w.method = m) ↔ i < k ∧ k ≤ j)
  /-- In the end all blocks are closed, and no method is being checked. -/
  restored : final.stack.depth = 1 ∧ final.stack.active = none

/-- Checking a script gives what its lines make. -/
theorem exact_of_accepted (haccepted : script.verify = .ok final) : script.Exact final := by
  obtain ⟨outline, h⟩ := exists_accepted haccepted
  obtain rfl := h.final_eq
  have hregisters := h.registers_outline
  have hparameters (i : Nat) (m : Method) (hm : script.DeclaresMethod i m) :
      (m.parameters.map (·.name)).Nodup := by
    obtain ⟨p, hp, -⟩ := h.exists_steps i
    obtain ⟨l, hl, -⟩ := hm.header
    exact (h.starts hl hm hp).2
  refine ⟨h.outline_eq, h.foldlM_globalStatements, fun i l hl hkind => ?_, fun name m hm => ?_,
    fun name m hm => ?_, fun i l m hl hm => ?_, fun i m hm => ?_, ?_⟩
  · obtain ⟨m, hm⟩ := h.exists_declaresMethod hl hkind
    exact ⟨m, hm, (hregisters.getElem?_iff _ m).2 ⟨rfl, i, hm.lt_length, hm⟩⟩
  · obtain ⟨hname, i, hi, hdecl⟩ := (hregisters.getElem?_iff name m).1 hm
    exact ⟨hname, i, hdecl, fun i' hdecl' =>
      hregisters.inj i' i m m hdecl'.lt_length hi hdecl' hdecl rfl⟩
  · obtain ⟨-, i, -, hdecl⟩ := (hregisters.getElem?_iff name m).1 hm
    exact hparameters i m hdecl
  · obtain ⟨p, hp, -⟩ := h.exists_steps i
    exact ⟨p, hp, (h.starts hl hm hp).1⟩
  · obtain ⟨l, hl, hkind⟩ := hm.header
    obtain ⟨j, hw⟩ := h.exists_window hl hkind
    refine ⟨j, hw, fun k hk => ?_⟩
    obtain ⟨p, hp, -⟩ := h.exists_steps k
    exact ⟨p, hp, h.window_iff hw hm hk hp⟩
  · exact (walks_agree h.outline_eq).restored _ h.bodies_eq

/-- Two methods, the first of which assigns to a global that the second reads. -/
theorem exact_of_accepted_twoMethods :
    let script : Script :=
      { lines := [⟨1, "int g;".toList⟩, ⟨2, "void f(int a, boolean b) \x7b".toList⟩,
          ⟨3, "g = a;".toList⟩, ⟨4, "return;".toList⟩, ⟨5, "\x7d".toList⟩, ⟨6, "g = 7;".toList⟩,
          ⟨7, "void h() \x7b".toList⟩, ⟨8, "f(g, true);".toList⟩, ⟨9, "return;".toList⟩,
          ⟨10, "\x7d".toList⟩], length := 10 }
    ∃ final, script.verify = .ok final ∧ script.Exact final := by
  intro script
  have hok : script.verify.toOption.isSome = true := by decide +kernel
  obtain ⟨final, hfinal⟩ := exists_eq_ok_iff.2 hok
  exact ⟨final, hfinal, exact_of_accepted hfinal⟩

end Script

end SJava
