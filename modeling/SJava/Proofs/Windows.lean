import SJava.Proofs.Agreement

/-!
# Lines and windows of a script

A line of a script is told by its place, counted from 0. `Script.depthAt` is the
depth in front of a place, and a window reaches from a header to the line that
closes its block.

* `Script.outlineLines_take_induction`: induction along the first walk;
* `Script.Accepted.outlined`, `Script.Accepted.stepped`: what each walk over an
  accepted script does on a line;
* `Script.exists_window`: every header has a window;
* `Script.Accepted.inBlock`: behind the header the second walk is in the block of
  that method, up to the end of the window.
-/

namespace SJava

namespace Script

/-- The depth in front of the line at place `n`. -/
def depthAt (script : Script) (n : Nat) : Nat := depthBehind 1 (script.lines.take n)

/-- A window: a header at place `i`, and at place `j` the end of its block. -/
structure IsWindow (script : Script) (i j : Nat) : Prop where
  lt : i < j
  header : ∃ l, script.lines[i]? = some l ∧ Kind.of l.text = .ok .methodHeader
  close : ∃ l, script.lines[j]? = some l ∧ Braces.closes l.text = true
  inside : ∀ n, i < n → n ≤ j → script.depthAt i < script.depthAt n
  back : script.depthAt (j + 1) = script.depthAt i

theorem take_add_one {script : Script} {k : Nat} {l : Line} (hl : script.lines[k]? = some l) :
    script.lines.take (k + 1) = script.lines.take k ++ [l] := by
  rw [List.take_add_one, hl]
  rfl

theorem depthAt_zero (script : Script) : script.depthAt 0 = 1 := rfl

theorem depthAt_add_one {script : Script} {k : Nat} {l : Line} (hl : script.lines[k]? = some l) :
    script.depthAt (k + 1) = Braces.shift l.text (script.depthAt k) := by
  rw [depthAt, take_add_one hl, depthBehind_append]
  rfl

/-- What holds in front of all lines, and goes from the front of each line to its back,
holds wherever the first walk comes. -/
theorem outlineLines_take_induction {script : Script} {P : Nat → State → Prop} (hstart : P 0 {})
    (hline : ∀ {k l s t kind}, script.lines[k]? = some l →
      State.outlineLines {} (script.lines.take k) = .ok s → Kind.of l.text = .ok kind →
        s.Outlined l.text kind t → P k s → P (k + 1) t)
    {k : Nat} (hk : k ≤ script.lines.length) {s : State}
    (hs : State.outlineLines {} (script.lines.take k) = .ok s) : P k s := by
  induction k generalizing s with
  | zero =>
    cases hs
    exact hstart
  | succ k ih =>
    have hl : script.lines[k]? = some script.lines[k] := List.getElem?_eq_getElem hk
    obtain ⟨r, hr, hone⟩ := (walk_take_add_one_eq_ok hl).1 hs
    obtain ⟨kind, hkind, hout⟩ := State.outlineLine_eq_ok hone
    exact hline hl hr hkind hout (ih (Nat.le_of_succ_le hk) hr)

/-! ## Scripts with an outline -/

section

variable {script : Script} {outline : State} (h : script.outline = .ok outline)
include h

/-- The first walk reaches every place. -/
theorem exists_outlineLines (k : Nat) :
    ∃ s, State.outlineLines {} (script.lines.take k) = .ok s ∧ s.stack.depth = script.depthAt k := by
  obtain ⟨s, hs⟩ := exists_walk_take (outline_eq_ok_iff.1 h).1 k
  exact ⟨s, hs, State.depth_outlineLines hs⟩

/-- No place is outside of the global scope. -/
theorem depthAt_pos (k : Nat) : 1 ≤ script.depthAt k := by
  obtain ⟨s, -, hs⟩ := exists_outlineLines h k
  rw [← hs]
  exact s.stack.depth_pos

/-- Every header has a window. -/
theorem exists_window {i : Nat} {l : Line} (hl : script.lines[i]? = some l)
    (hkind : Kind.of l.text = .ok .methodHeader) : ∃ j, script.IsWindow i j := by
  have hopen : script.depthAt (i + 1) = script.depthAt i + 1 := by
    rw [depthAt_add_one hl, Braces.shift_of_ending hkind rfl]
  have hsplit : script.lines = script.lines.take (i + 1) ++ script.lines.drop (i + 1) :=
    (List.take_append_drop _ _).symm
  have hend : depthBehind (script.depthAt (i + 1)) (script.lines.drop (i + 1)) <
      script.depthAt (i + 1) := by
    have hlast := depthBehind_lines h
    rw [hsplit, depthBehind_append] at hlast
    have := depthAt_pos h i
    rw [depthAt, hlast, ← depthAt]
    omega
  obtain ⟨mid, close, rest, hdrop, hcloses, hmid, -, hback⟩ := exists_return (Nat.le_refl _) hend
  have hlen : (script.lines.take (i + 1)).length = i + 1 := by
    rw [List.length_take, Nat.min_eq_left]
    exact (List.getElem?_eq_some_iff.1 hl).1
  -- Places behind the header, counted from it.
  have hplace (n : Nat) : script.depthAt (i + 1 + n) =
      depthBehind (script.depthAt (i + 1)) ((mid ++ close :: rest).take n) := by
    rw [depthAt, depthAt, ← depthBehind_append, ← hdrop, List.take_add, List.take_drop]
  refine ⟨i + 1 + mid.length, by omega, ⟨l, hl, hkind⟩, ⟨close, ?_, hcloses⟩, fun n hin hnj => ?_, ?_⟩
  · rw [hsplit, hdrop, List.getElem?_append_right (by omega), hlen,
      List.getElem?_append_right (by omega)]
    simp
  · obtain ⟨n, rfl⟩ := Nat.exists_eq_add_of_le hin
    have := hmid n
    rw [hplace n, List.take_append_of_le_length (by omega)]
    omega
  · have := hplace (mid.length + 1)
    rw [List.take_append, List.take_of_length_le (by omega)] at this
    rw [Nat.add_assoc, this]
    simp only [Nat.add_sub_cancel_left, List.take_succ_cons, List.take_zero]
    omega

end

/-! ## Accepted scripts -/

/-- The script is accepted: the first walk over it gives `outline`, and the second
goes through. -/
structure Accepted (script : Script) (outline final : State) : Prop where
  outline_eq : script.outline = .ok outline
  bodies_eq : script.bodies outline = .ok final

theorem exists_accepted {script : Script} {final : State} (h : script.verify = .ok final) :
    ∃ outline, script.Accepted outline final := by
  obtain ⟨-, outline, ho, hb⟩ := verify_eq_ok_iff.1 h
  exact ⟨outline, ho, hb⟩

namespace Accepted

variable {script : Script} {outline final : State} (h : script.Accepted outline final)
include h

/-- The first walk reaches every place. -/
theorem exists_outlineLines (k : Nat) :
    ∃ s, State.outlineLines {} (script.lines.take k) = .ok s ∧ s.stack.depth = script.depthAt k :=
  Script.exists_outlineLines h.outline_eq k

/-- So does the second. -/
theorem exists_steps (k : Nat) :
    ∃ p, Progress.steps { state := outline } (script.lines.take k) = .ok p ∧ p.Coherent ∧
      p.state.stack.depth = script.depthAt k := by
  obtain ⟨p, hp, -⟩ := bodies_eq_ok_iff.1 h.bodies_eq
  obtain ⟨q, hq⟩ := exists_walk_take hp k
  exact ⟨q, hq, coherent_steps h.outline_eq hq, depth_steps h.outline_eq hq⟩

/-- No place is outside of the global scope. -/
theorem depthAt_pos (k : Nat) : 1 ≤ script.depthAt k := Script.depthAt_pos h.outline_eq k

variable {k : Nat} {l : Line} (hl : script.lines[k]? = some l)
include hl

/-- What the first walk does on a line. -/
theorem outlined {s : State} (hs : State.outlineLines {} (script.lines.take k) = .ok s) :
    ∃ kind t, Kind.of l.text = .ok kind ∧ s.outlineLine l.text = .ok t ∧
      s.Outlined l.text kind t := by
  obtain ⟨t, ht, -⟩ := h.exists_outlineLines (k + 1)
  obtain ⟨s', hs', hline⟩ := (walk_take_add_one_eq_ok hl).1 ht
  cases Except.ok.inj (hs.symm.trans hs')
  obtain ⟨kind, hkind, hout⟩ := State.outlineLine_eq_ok hline
  exact ⟨kind, t, hkind, hline, hout⟩

/-- What the second walk does on a line. -/
theorem stepped {p : Progress}
    (hp : Progress.steps { state := outline } (script.lines.take k) = .ok p) :
    ∃ kind q, Kind.of l.text = .ok kind ∧ p.Stepped l.text kind q ∧
      Progress.steps { state := outline } (script.lines.take (k + 1)) = .ok q := by
  obtain ⟨q, hq, -⟩ := h.exists_steps (k + 1)
  obtain ⟨p', hp', hone⟩ := (walk_take_add_one_eq_ok hl).1 hq
  cases Except.ok.inj (hp.symm.trans hp')
  obtain ⟨kind, hkind, hstep⟩ := Progress.step_eq_ok hone
  exact ⟨kind, q, hkind, hstep, hq⟩

end Accepted

/-! ## Windows of accepted scripts -/

namespace Accepted

variable {script : Script} {outline final : State} (h : script.Accepted outline final)
include h

/-- Every header has a window. -/
theorem exists_window {i : Nat} {l : Line} (hl : script.lines[i]? = some l)
    (hkind : Kind.of l.text = .ok .methodHeader) : ∃ j, script.IsWindow i j :=
  Script.exists_window h.outline_eq hl hkind

/-- A header is never met inside a window, so it opens one. -/
theorem window_eq_none {i : Nat} {l : Line} (hl : script.lines[i]? = some l)
    (hkind : Kind.of l.text = .ok .methodHeader) {p : Progress}
    (hp : Progress.steps { state := outline } (script.lines.take i) = .ok p) : p.window = none := by
  obtain ⟨kind, q, hk, hstep, -⟩ := h.stepped hl hp
  cases Except.ok.inj (hkind.symm.trans hk)
  cases hstep with
  | enter outside => exact outside
  | skip outside => exact outside
  | stay _ _ checked => cases checked
  | leave _ _ checked => cases checked

/-- Behind a header the second walk is in the block of the method it declares. -/
theorem inBlock_add_one {i : Nat} {l : Line} (hl : script.lines[i]? = some l)
    (hkind : Kind.of l.text = .ok .methodHeader) {q : Progress}
    (hq : Progress.steps { state := outline } (script.lines.take (i + 1)) = .ok q) :
    ∃ m, Method.ofLine l.text = .ok m ∧ q.InBlock m (script.depthAt (i + 1)) := by
  obtain ⟨p, hp, -⟩ := h.exists_steps i
  have hnone := h.window_eq_none hl hkind hp
  obtain ⟨kind, q', hk, hstep, hq'⟩ := h.stepped hl hp
  cases Except.ok.inj (hkind.symm.trans hk)
  cases Except.ok.inj (hq'.symm.trans hq)
  have hdepth := depth_steps h.outline_eq hq
  cases hstep with
  | @enter u t m _ tracked parsed entered =>
    have hentered := Progress.Stepped.enter hnone tracked parsed entered
    obtain ⟨-, -, hblock⟩ := hentered.inBlock hkind hnone rfl
    refine ⟨m, parsed, ?_⟩
    rw [depthAt, ← hdepth]
    exact hblock
  | skip _ _ notHeader => exact absurd rfl notHeader
  | stay _ _ checked => cases checked
  | leave _ _ checked => cases checked

/-- It is there up to the end of the window. -/
theorem inBlock {i j n : Nat} (hw : script.IsWindow i j) (hin : i < n) (hnj : n ≤ j)
    {l : Line} (hl : script.lines[i]? = some l) {p : Progress}
    (hp : Progress.steps { state := outline } (script.lines.take n) = .ok p) :
    ∃ m, Method.ofLine l.text = .ok m ∧ p.InBlock m (script.depthAt (i + 1)) := by
  obtain ⟨l', hl', hkind⟩ := hw.header
  cases Option.some.inj (hl'.symm.trans hl)
  obtain ⟨q, hq, -, hdepth⟩ := h.exists_steps (i + 1)
  obtain ⟨m, hm, hblock⟩ := h.inBlock_add_one hl hkind hq
  refine ⟨m, hm, ?_⟩
  obtain ⟨n, rfl⟩ := Nat.exists_eq_add_of_le hin
  rw [List.take_add] at hp
  obtain ⟨q', hq', hp⟩ := walk_append_eq_ok.1 hp
  cases Except.ok.inj (hq'.symm.trans hq)
  refine hblock.steps hp fun m' => ?_
  have hopen : script.depthAt (i + 1) = script.depthAt i + 1 := by
    rw [depthAt_add_one hl, Braces.shift_of_ending hkind rfl]
  rw [hdepth, List.take_take, depthAt, ← depthBehind_append, ← List.take_add]
  have := hw.inside (i + 1 + min m' n) (by omega) (by omega)
  show script.depthAt (i + 1) ≤ script.depthAt (i + 1 + min m' n)
  omega

end Accepted

end Script

end SJava
