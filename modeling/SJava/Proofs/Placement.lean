import SJava.Proofs.Windows

/-!
# Placement

Where the statements of an accepted script stand, and that each of them has been
checked: those outside of all methods by the first walk, those inside by the
second.

* `Script.WellPlaced`: every statement stands where it belongs and was checked;
* `Script.wellPlaced_iff`: an accepted script is well placed exactly when no
  assignment at depth 1 opens a block. Such an assignment is taken for one inside
  a method by the first walk, and for one outside by the second.
-/

namespace SJava

namespace Script

/-- The line at place `k` lies strictly inside of a window. -/
def IsInside (script : Script) (k : Nat) : Prop := ∃ i j, script.IsWindow i j ∧ i < k ∧ k < j

/-- The line at place `k` lies inside of a window or is its end. -/
def IsCovered (script : Script) (k : Nat) : Prop := ∃ i j, script.IsWindow i j ∧ i < k ∧ k ≤ j

/-- The first walk checks the line at place `k` at global scope, as a declaration
or as an assignment, and applies it. -/
def IsApplied (script : Script) (k : Nat) : Prop :=
  ∃ l s u t, script.lines[k]? = some l ∧ State.outlineLines {} (script.lines.take k) = .ok s ∧
    s.stack.track l.text = .ok u ∧ u.depth = 1 ∧ s.outlineLine l.text = .ok { s with stack := t } ∧
      (Kind.of l.text = .ok .declaration ∧ u.declareLine l.text = .ok t ∨
        Kind.of l.text = .ok .assignment ∧ u.assignLine l.text = .ok t)

/-- The second walk checks the line at place `k` as a line of a method. -/
def IsChecked (script : Script) (k : Nat) : Prop :=
  ∃ l outline p w u t kind, script.lines[k]? = some l ∧ script.outline = .ok outline ∧
    Progress.steps { state := outline } (script.lines.take k) = .ok p ∧ p.window = some w ∧
      p.state.stack.track l.text = .ok u ∧ Kind.of l.text = .ok kind ∧
        u.Checked p.state.methods l.text kind t

/-- Every line of the script stands where lines of its kind belong. -/
structure WellPlaced (script : Script) : Prop where
  /-- Calls, returns and conditions lie inside of methods. -/
  inside : ∀ k l kind, script.lines[k]? = some l → Kind.of l.text = .ok kind →
    kind = .call ∨ kind = .returnStatement ∨ kind = .condition → script.IsInside k
  /-- Headers are met at depth 1. -/
  header : ∀ k l, script.lines[k]? = some l → Kind.of l.text = .ok .methodHeader →
    script.depthAt k = 1
  /-- All else outside of methods was applied by the first walk. -/
  outside : ∀ k l kind, script.lines[k]? = some l → Kind.of l.text = .ok kind →
    kind ≠ .methodHeader → ¬script.IsCovered k → script.IsApplied k
  /-- Each statement was checked in one of the two walks. -/
  checked : ∀ k l kind, script.lines[k]? = some l → Kind.of l.text = .ok kind →
    kind ≠ .methodHeader → script.IsApplied k ∨ script.IsChecked k

/-- No assignment at depth 1 opens a block. -/
def NoBlockByAssignment (script : Script) : Prop :=
  ∀ k l, script.lines[k]? = some l → script.depthAt k = 1 → Kind.of l.text = .ok .assignment →
    Braces.opens l.text = false

/-- Of the lines in and at the end of windows, only ends of blocks are not inside. -/
theorem IsCovered.isInside {script : Script} {k : Nat} {l : Line} {kind : Kind}
    (hc : script.IsCovered k) (hl : script.lines[k]? = some l) (hkind : Kind.of l.text = .ok kind)
    (hend : kind ≠ .scopeEnd) : script.IsInside k := by
  obtain ⟨i, j, hw, hik, hkj⟩ := hc
  refine ⟨i, j, hw, hik, ?_⟩
  rcases Nat.lt_or_ge k j with hlt | hge
  · exact hlt
  · cases Nat.le_antisymm hkj hge
    obtain ⟨l', hl', hcloses⟩ := hw.close
    cases Option.some.inj (hl.symm.trans hl')
    exact absurd ((Braces.closes_iff_scopeEnd hkind).1 hcloses) hend

namespace Accepted

variable {script : Script} {outline final : State} (h : script.Accepted outline final)
include h

variable {k : Nat} {l : Line} {kind : Kind} (hl : script.lines[k]? = some l)
  (hkind : Kind.of l.text = .ok kind)
include hl hkind

/-- At depth 1, a line that opens no block is a header, or is applied by the first
walk. -/
theorem isApplied (hdepth : script.depthAt k = 1) (hheader : kind ≠ .methodHeader)
    (hopens : kind = .assignment → Braces.opens l.text = false) :
    script.IsApplied k ∧ script.depthAt (k + 1) = 1 := by
  obtain ⟨s, hs, hsd⟩ := h.exists_outlineLines k
  obtain ⟨kind', s', hkind', hline, hout⟩ := h.outlined hl hs
  cases Except.ok.inj (hkind.symm.trans hkind')
  rw [hdepth] at hsd
  have hbehind : script.depthAt (k + 1) = Braces.shift l.text 1 := by
    rw [depthAt_add_one hl, hdepth]
  cases hout with
  | header => exact absurd rfl hheader
  | @declared u t tracked atGlobal done =>
    refine ⟨⟨l, s, u, t, hl, hs, tracked, atGlobal, hline, .inl ⟨hkind, done⟩⟩, ?_⟩
    rw [hbehind, ← hsd, ← (Stack.track_eq_ok tracked).1, atGlobal, hsd]
  | @assigned u t tracked atGlobal done =>
    refine ⟨⟨l, s, u, t, hl, hs, tracked, atGlobal, hline, .inr ⟨hkind, done⟩⟩, ?_⟩
    rw [hbehind, ← hsd, ← (Stack.track_eq_ok tracked).1, atGlobal, hsd]
  | @passed u _ tracked notHeader inside placed =>
    exfalso
    have hu : u.depth = Braces.shift l.text 1 := by rw [(Stack.track_eq_ok tracked).1, hsd]
    have hpos := u.depth_pos
    -- A line that opens no block stays at depth 1, where the first walk stops it.
    have hstay (hno : Braces.opens l.text = false) : u.depth = 1 := by
      rw [Braces.shift, hno] at hu
      simp only [Bool.false_eq_true, if_false] at hu
      split at hu <;> omega
    cases kind with
    | methodHeader => exact hheader rfl
    | condition =>
      refine placed rfl ?_
      rw [hu, Braces.shift_of_ending hkind rfl]
    | scopeEnd =>
      have hcloses := (Braces.closes_iff_scopeEnd hkind).2 rfl
      have hopens := Braces.not_opens_of_ending hkind rfl (by decide)
      rw [Braces.shift, hcloses, hopens] at hu
      simp only [Bool.false_eq_true, if_false, if_true] at hu
      omega
    | assignment => exact inside (by decide) (by decide) (hstay (hopens rfl))
    | declaration | call | returnStatement =>
      exact inside (by decide) (by decide) (hstay (Braces.not_opens_of_ending hkind rfl (by decide)))

/-- A line of a window is checked by the second walk, and is no header. -/
theorem isChecked (hc : script.IsCovered k) : kind ≠ .methodHeader ∧ script.IsChecked k := by
  obtain ⟨i, j, hw, hik, hkj⟩ := hc
  obtain ⟨li, hli, -⟩ := hw.header
  obtain ⟨p, hp, -⟩ := h.exists_steps k
  obtain ⟨m, -, hblock⟩ := h.inBlock hw hik hkj hli hp
  obtain ⟨w, hpw, -⟩ := hblock.window
  obtain ⟨kind', q, hkind', hstep, -⟩ := h.stepped hl hp
  cases Except.ok.inj (hkind.symm.trans hkind')
  have done {u t : Stack} (tracked : p.state.stack.track l.text = .ok u)
      (checked : u.Checked p.state.methods l.text kind t) :
      kind ≠ .methodHeader ∧ script.IsChecked k := by
    refine ⟨?_, l, outline, p, w, u, t, kind, hl, h.outline_eq, hp, hpw, tracked, hkind, checked⟩
    rintro rfl
    cases checked
  cases hstep with
  | enter outside | skip outside =>
    rw [hpw] at outside
    cases outside
  | stay _ tracked checked | leave _ tracked checked => exact done tracked checked

omit hl hkind

/-- Without blocks opened by assignments, every place is at depth 1 or in a window
that starts at depth 1. -/
theorem depth_or_window (hno : script.NoBlockByAssignment) (hk : k ≤ script.lines.length) :
    script.depthAt k = 1 ∨ ∃ i j, script.IsWindow i j ∧ i < k ∧ k ≤ j ∧ script.depthAt i = 1 := by
  induction k with
  | zero => exact .inl (depthAt_zero script)
  | succ k ih =>
    obtain ⟨l, hl⟩ : ∃ l, script.lines[k]? = some l := ⟨_, List.getElem?_eq_getElem (by omega)⟩
    rcases ih (by omega) with hd | ⟨i, j, hw, hik, hkj, hi⟩
    · obtain ⟨s, hs, -⟩ := h.exists_outlineLines k
      obtain ⟨kind, -, hkind, -, -⟩ := h.outlined hl hs
      by_cases hheader : kind = .methodHeader
      · subst hheader
        obtain ⟨j, hw⟩ := h.exists_window hl hkind
        have := hw.lt
        exact .inr ⟨k, j, hw, by omega, by omega, hd⟩
      · refine .inl (h.isApplied hl hkind hd hheader fun hk => ?_).2
        exact hno k l hl hd (hk ▸ hkind)
    · rcases Nat.lt_or_ge k j with hlt | hge
      · exact .inr ⟨i, j, hw, by omega, by omega, hi⟩
      · cases Nat.le_antisymm hkj hge
        rw [hw.back]
        exact .inl hi

/-- An assignment that opens a block at depth 1 is applied by neither walk. -/
theorem noBlockByAssignment (hplaced : script.WellPlaced) : script.NoBlockByAssignment := by
  intro k l hl hdepth hkind
  have hnot : ¬script.IsCovered k := by
    rintro ⟨i, j, hw, hik, hkj⟩
    have := hw.inside k hik hkj
    have := h.depthAt_pos i
    omega
  obtain ⟨l', s, u, t, hl', hs, tracked, hglobal, -⟩ :=
    hplaced.outside k l _ hl hkind (by decide) hnot
  cases Option.some.inj (hl.symm.trans hl')
  obtain ⟨s', hs', hsd⟩ := h.exists_outlineLines k
  cases Except.ok.inj (hs.symm.trans hs')
  have hcloses : Braces.closes l.text = false := by
    rw [Bool.eq_false_iff, ne_eq, Braces.closes_iff_scopeEnd hkind]
    decide
  rw [(Stack.track_eq_ok tracked).1, hsd, hdepth, Braces.shift, hcloses] at hglobal
  rw [Bool.eq_false_iff]
  intro hopens
  simp [hopens] at hglobal

theorem wellPlaced (hno : script.NoBlockByAssignment) : script.WellPlaced := by
  have hplace {k : Nat} {l : Line} (hl : script.lines[k]? = some l) :
      script.depthAt k = 1 ∨ script.IsCovered k :=
    (h.depth_or_window hno (Nat.le_of_lt (List.getElem?_eq_some_iff.1 hl).1)).imp_right
      fun ⟨i, j, hw, hik, hkj, _⟩ => ⟨i, j, hw, hik, hkj⟩
  have happlied {k : Nat} {l : Line} {kind : Kind} (hl : script.lines[k]? = some l)
      (hkind : Kind.of l.text = .ok kind) (hheader : kind ≠ .methodHeader)
      (hdepth : script.depthAt k = 1) : script.IsApplied k :=
    (h.isApplied hl hkind hdepth hheader fun hk => hno k l hl hdepth (hk ▸ hkind)).1
  exact
    { inside := fun k l kind hl hkind hk => by
        rcases hplace hl with hdepth | hcovered
        · obtain ⟨l', -, -, -, hl', -, -, -, -, ⟨hkind', -⟩ | ⟨hkind', -⟩⟩ :=
            happlied hl hkind (by rintro rfl; simp at hk) hdepth <;>
          · cases Option.some.inj (hl.symm.trans hl')
            cases Except.ok.inj (hkind.symm.trans hkind')
            simp at hk
        · exact hcovered.isInside hl hkind (by rintro rfl; simp at hk)
      header := fun k l hl hkind => by
        rcases hplace hl with hdepth | hcovered
        · exact hdepth
        · exact absurd rfl (h.isChecked hl hkind hcovered).1
      outside := fun k l kind hl hkind hheader hnot => by
        rcases hplace hl with hdepth | hcovered
        · exact happlied hl hkind hheader hdepth
        · exact absurd hcovered hnot
      checked := fun k l kind hl hkind hheader => by
        rcases hplace hl with hdepth | hcovered
        · exact .inl (happlied hl hkind hheader hdepth)
        · exact .inr (h.isChecked hl hkind hcovered).2 }

end Accepted

/-- An accepted script is well placed exactly when no assignment at depth 1 opens a
block. -/
theorem wellPlaced_iff {script : Script} {final : State} (haccepted : script.verify = .ok final) :
    script.WellPlaced ↔ script.NoBlockByAssignment := by
  obtain ⟨outline, h⟩ := exists_accepted haccepted
  exact ⟨h.noBlockByAssignment, h.wellPlaced⟩

/-- The script of a method that does nothing is well placed. -/
theorem wellPlaced_emptyMethod :
    let script : Script :=
      { lines := [⟨1, "void f() \x7b".toList⟩, ⟨2, "return;".toList⟩, ⟨3, "\x7d".toList⟩], length := 3 }
    (∃ final, script.verify = .ok final) ∧ script.WellPlaced := by
  intro script
  have hok : script.verify.toOption.isSome = true := by decide +kernel
  cases h : script.verify with
  | error failure =>
    rw [h] at hok
    cases hok
  | ok final =>
    refine ⟨⟨final, rfl⟩, (wellPlaced_iff h).2 fun k l hl _ hkind => ?_⟩
    have hmem : l ∈ script.lines := List.mem_of_getElem? hl
    revert hkind
    have hall : ∀ l ∈ script.lines, Kind.of l.text ≠ .ok .assignment := by decide +kernel
    exact fun hkind => absurd hkind (hall l hmem)

/-- An accepted script that is not well placed: its first line lies outside of all
methods, and neither walk checks it. -/
theorem not_wellPlaced_block :
    let script : Script := { lines := [⟨1, "a=\x7b".toList⟩, ⟨2, "\x7d".toList⟩], length := 2 }
    (Content.text "a=\x7b\n\x7d\n".toList).script "//".toList = .ok script ∧
      (∃ final, script.verify = .ok final) ∧ ¬script.WellPlaced := by
  intro script
  have hok : script.verify.toOption.isSome = true := by decide +kernel
  refine ⟨by decide +kernel, ?_, fun hplaced => ?_⟩
  · cases h : script.verify with
    | error failure =>
      rw [h] at hok
      cases hok
    | ok final => exact ⟨final, rfl⟩
  · have hkind : Kind.of "a=\x7b".toList = .ok .assignment := by decide +kernel
    obtain ⟨_, s, u, -, hl, hs, tracked, hglobal, -⟩ :=
      hplaced.outside 0 _ _ rfl hkind (by decide) (by rintro ⟨i, j, -, hi, -⟩; omega)
    cases hl
    cases hs
    rw [(Stack.track_eq_ok tracked).1] at hglobal
    revert hglobal
    decide +kernel

end Script

end SJava
