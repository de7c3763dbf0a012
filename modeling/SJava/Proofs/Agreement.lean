import SJava.Proofs.Depth
import SJava.Proofs.Faults

/-!
# The second walk agrees with the first

Both walks open and close blocks on one kind of stack, and do different work on
it. Behind every line they are at the same depth, so the second walk never meets
a fault in the form of a line, and a window that it opens is closed before the
lines end.

* `Progress.Coherent`: the invariant of the second walk: a window is open exactly
  while its method is active, in a block of its own;
* `Progress.Coherent.steps`: every run of the second walk keeps it;
* `Script.walks_agree`: the agreement.
-/

namespace SJava

/-! ## The method being checked -/

theorem Stack.active_isNone_of_track {s t : Stack} {line : Text} (h : s.track line = .ok t)
    (hs : s.active = none) : t.active = none := by
  rw [(Stack.track_eq_ok h).2.1, hs]
  split <;> rfl

/-- A method stays active while its block is open. -/
theorem Stack.active_of_track {s t : Stack} {line : Text} {a : Active} (h : s.track line = .ok t)
    (hs : s.active = some a) (hd : a.depth ≤ s.depth) :
    t.active = if a.depth ≤ t.depth then some a else none := by
  obtain ⟨hdepth, hactive, -⟩ := Stack.track_eq_ok h
  rw [hactive, hs]
  split
  · next hc => simp [Option.filter]
  · next hc =>
    have hle : s.depth ≤ t.depth := by
      rw [hdepth, Braces.shift, if_neg hc]
      split <;> omega
    rw [if_pos (by omega)]

theorem State.active_outlineLines {s t : State} {ls : List Line} (h : s.outlineLines ls = .ok t)
    (hs : s.stack.active = none) : t.stack.active = none := by
  refine walk_keep (P := (·.stack.active = none)) (fun hs hline => ?_) h hs
  obtain ⟨_, -, hout⟩ := outlineLine_eq_ok hline
  cases hout with
  | header tracked | passed tracked => exact Stack.active_isNone_of_track tracked hs
  | declared tracked _ done =>
    exact (Stack.declareLine_keeps done).2.trans (Stack.active_isNone_of_track tracked hs)
  | assigned tracked _ done =>
    exact (Stack.assignLine_keeps done).2.trans (Stack.active_isNone_of_track tracked hs)

namespace Progress

/-- The block of the method `m`, at depth `d`, is being walked over. -/
structure InBlock (p : Progress) (m : Method) (d : Nat) : Prop where
  window : ∃ w, p.window = some w ∧ w.method = m
  active : p.state.stack.active = some ⟨m, d⟩
  le_depth : d ≤ p.state.stack.depth

variable {p q : Progress} {m : Method} {d : Nat} {line : Text} {kind : Kind}

/-- The window stays open as long as the block of its method does, and no
longer. -/
theorem InBlock.step (hp : p.InBlock m d) (h : p.Stepped line kind q) :
    if d ≤ q.state.stack.depth then q.InBlock m d
    else q.window = none ∧ q.state.stack.active = none := by
  obtain ⟨w, hw, rfl⟩ := hp.window
  cases h with
  | enter outside | skip outside =>
    rw [outside] at hw
    cases hw
  | @stay w' u t kind inside tracked checked goesOn =>
    rw [hw, Option.some.injEq] at inside
    subst inside
    obtain ⟨hdepth, hsame⟩ := checked.keeps
    have hactive := Stack.active_of_track tracked hp.active hp.le_depth
    rw [Stack.isInsideMethod, hsame, hactive] at goesOn
    have hd : d ≤ u.depth := by
      by_contra hd
      rw [if_neg hd] at goesOn
      cases goesOn
    rw [if_pos hd] at hactive
    show if d ≤ t.depth then _ else _
    rw [hdepth, if_pos hd]
    exact ⟨⟨_, rfl, rfl⟩, hsame.trans hactive, hdepth ▸ hd⟩
  | @leave w' u t kind inside tracked checked ends returned =>
    obtain ⟨hdepth, hsame⟩ := checked.keeps
    have hactive := Stack.active_of_track tracked hp.active hp.le_depth
    rw [Stack.isInsideMethod, hsame, hactive] at ends
    have hd : ¬d ≤ u.depth := by
      intro hd
      rw [if_pos hd] at ends
      cases ends
    rw [if_neg hd] at hactive
    show if d ≤ t.depth then _ else _
    rw [hdepth, if_neg hd]
    exact ⟨rfl, hsame.trans hactive⟩

theorem InBlock.steps {ls : List Line} (hp : p.InBlock m d) (h : p.steps ls = .ok q)
    (hd : ∀ n, d ≤ depthBehind p.state.stack.depth (ls.take n)) : q.InBlock m d := by
  induction ls generalizing p with
  | nil =>
    cases h
    exact hp
  | cons l ls ih =>
    obtain ⟨r, hr, h⟩ := walk_cons_eq_ok.1 h
    obtain ⟨kind, -, hstep⟩ := step_eq_ok hr
    have hr' := hp.step hstep
    rw [if_pos (by simpa [hstep.depth] using hd 1)] at hr'
    refine ih hr' h fun n => ?_
    rw [hstep.depth]
    exact hd (n + 1)

/-- A header opens a block and starts its method there. -/
theorem Stepped.inBlock {w : Window} (h : p.Stepped line kind q) (hkind : Kind.of line = .ok kind)
    (hp : p.window = none) (hq : q.window = some w) :
    kind = .methodHeader ∧ 2 ≤ q.state.stack.depth ∧ q.InBlock w.method q.state.stack.depth := by
  cases h with
  | @enter u t m outside tracked parsed entered =>
    cases hq
    obtain ⟨hdepth, hactive⟩ := Stack.enterMethod_keeps entered
    have htwo : 2 ≤ t.depth := by
      rw [hdepth, (Stack.track_eq_ok tracked).1, Braces.shift_of_ending hkind rfl]
      have := p.state.stack.depth_pos
      omega
    exact ⟨rfl, htwo, ⟨_, rfl, rfl⟩, by rw [hactive, hdepth], Nat.le_refl _⟩
  | skip => cases hq
  | stay inside =>
    rw [hp] at inside
    cases inside
  | leave => cases hq

/-- A window is open exactly while its method is being checked, whose block is
open and is not the global one. -/
structure Coherent (p : Progress) : Prop where
  outside : p.window = none → p.state.stack.active = none
  inside : ∀ w, p.window = some w → ∃ d, 2 ≤ d ∧ p.InBlock w.method d

theorem Coherent.step (hp : p.Coherent) (hkind : Kind.of line = .ok kind)
    (h : p.Stepped line kind q) : q.Coherent := by
  cases hw : p.window with
  | none =>
    refine ⟨fun hq => ?_, fun w hq => ?_⟩
    · cases h with
      | enter => cases hq
      | skip _ tracked => exact Stack.active_isNone_of_track tracked (hp.outside hw)
      | stay inside | leave inside =>
        rw [hw] at inside
        cases inside
    · obtain ⟨-, htwo, hblock⟩ := h.inBlock hkind hw hq
      exact ⟨_, htwo, hblock⟩
  | some w =>
    obtain ⟨d, htwo, hblock⟩ := hp.inside w hw
    have hstep := hblock.step h
    split at hstep
    · obtain ⟨w', hw', hm⟩ := hstep.window
      refine ⟨fun hq => ?_, fun w'' hq => ?_⟩
      · rw [hq] at hw'
        cases hw'
      · rw [hq, Option.some.injEq] at hw'
        subst hw'
        exact ⟨d, htwo, hm ▸ hstep⟩
    · refine ⟨fun _ => hstep.2, fun w' hq => ?_⟩
      rw [hstep.1] at hq
      cases hq

/-- Every run of the second walk keeps the invariant. -/
theorem Coherent.steps {ls : List Line} (hp : p.Coherent) (h : p.steps ls = .ok q) : q.Coherent := by
  refine walk_keep (P := Coherent) (fun hp hline => ?_) h hp
  obtain ⟨_, hkind, hstep⟩ := step_eq_ok hline
  exact hp.step hkind hstep

end Progress

/-! ## Faults of the second walk -/

namespace Progress

/-- Behind braces that can be followed on a line of a kind, a fault is in the form
of the line only when a declaration cannot be taken apart. -/
theorem isOfForm_of_step {p : Progress} {line : Text} {t : State} {kind : Kind} {fault : Fault}
    (htrack : p.state.track line = .ok (t, kind))
    (hheader : kind = .methodHeader → ∃ m, Method.ofLine line = .ok m)
    (h : p.step line = .error fault) (hform : fault.isOfForm = true) :
    kind = .declaration ∧ Declaration.ofLine line = .error fault := by
  obtain ⟨u, -, hkind, rfl⟩ := State.track_eq_ok_iff.1 htrack
  have absurdForm {α : Type} {x : Except Fault α} (hx : NoForm x) (he : x = .error fault) :
      False := by
    have := hx fault he
    rw [hform] at this
    cases this
  cases hw : p.window with
  | none =>
    simp only [step, hw, outerLine, htrack] at h
    replace h := (bind_eq_error_iff.1 h).resolve_left ok_ne_error
    obtain ⟨_, ⟨rfl⟩, h⟩ := h
    dsimp only at h
    split at h
    · next hk =>
      obtain ⟨m, hm⟩ := hheader hk
      rw [hm] at h
      obtain ⟨_, ⟨rfl⟩, h⟩ := (bind_eq_error_iff.1 h).resolve_left ok_ne_error
      split at h
      · cases h
      · next e he =>
        cases h
        rw [Fault.isOfForm_of_isOfUse (Stack.isOfUse_of_declareAll _ _ he)] at hform
        cases hform
    · cases h
  | some w =>
    simp only [step, hw] at h
    rcases bind_eq_error_iff.1 h with h | ⟨⟨s, k⟩, -, h⟩
    · simp only [State.bodyLine, htrack] at h
      obtain ⟨_, ⟨rfl⟩, h⟩ := (bind_eq_error_iff.1 h).resolve_left ok_ne_error
      cases kind with
      | methodHeader =>
        cases h
        cases hform
      | condition =>
        exact (absurdForm (Raises.noForm (.bind (u.raises_checkCondition hkind) fun _ _ => .ok _)) h).elim
      | call =>
        exact (absurdForm (Raises.noForm (.bind (u.raises_checkCall _ hkind) fun _ _ => .ok _)) h).elim
      | declaration =>
        refine ⟨rfl, ?_⟩
        have hd := (bind_eq_error_iff.1 h).resolve_right (by rintro ⟨_, -, h⟩; cases h)
        rcases bind_eq_error_iff.1 hd with hd | ⟨d, -, hd⟩
        · exact hd
        · exact (absurdForm (u.noForm_declareClauses d) hd).elim
      | assignment =>
        exact (absurdForm (Raises.noForm (.bind (u.raises_assignLine line) fun _ _ => .ok _)) h).elim
      | returnStatement | scopeEnd => cases h
    · dsimp only at h
      split at h
      · cases h
      · unfold close at h
        split at h
        · cases h
        · cases h
          cases hform

end Progress

/-! ## Agreement -/

/-- How a line of the second walk, met with `p`, agrees with the same line of the
first walk, which leads from `s` to `s'`. -/
structure Progress.InStep (s s' : State) (p : Progress) (line : Text) : Prop where
  /-- Both walks are at the same depth in front of the line. -/
  before : p.state.stack.depth = s.stack.depth
  /-- The second walk can follow the braces of the line and tell its kind, with
  the same outcome as the first. -/
  tracked : ∃ t u kind, s.track line = .ok (t, kind) ∧ p.state.track line = .ok (u, kind) ∧
    u.stack.depth = t.stack.depth
  /-- Both walks are at the same depth behind the line. -/
  after : ∀ q, p.step line = .ok q → q.state.stack.depth = s'.stack.depth
  /-- A header can be taken apart. -/
  header : Kind.of line = .ok .methodHeader → ∃ m, Method.ofLine line = .ok m
  /-- No fault is in the form of the line, but for a declaration that cannot be
  taken apart. -/
  form : ∀ fault, p.step line = .error fault → fault.isOfForm = true →
    fault = .invalidLineFormat ∧ Kind.of line = .ok .declaration ∧
      Declaration.ofLine line = .error .invalidLineFormat

/-- The second walk over a script agrees with the first, which gave `outline`. -/
structure Script.Agreement (script : Script) (outline : State) : Prop where
  /-- It does so on every line it comes to. -/
  inStep : ∀ pre l post p, script.lines = pre ++ l :: post →
    Progress.steps { state := outline } pre = .ok p →
      ∃ s s', State.outlineLines {} pre = .ok s ∧ s.outlineLine l.text = .ok s' ∧
        p.InStep s s' l.text
  /-- A window that is opened has a line in the script that closes it, and stays
  open up to that line. -/
  closed : ∀ pre l post p q w, script.lines = pre ++ l :: post →
    Progress.steps { state := outline } pre = .ok p → p.window = none →
      p.step l.text = .ok q → q.window = some w →
        ∃ mid close rest, post = mid ++ close :: rest ∧ Braces.closes close.text = true ∧
          depthBehind 1 (pre ++ l :: (mid ++ [close])) = depthBehind 1 pre ∧
          ∀ n r, q.steps (mid.take n) = .ok r →
            (∃ w', r.window = some w' ∧ w'.method = w.method) ∧
              (mid.length ≤ n → ∀ r', r.step close.text = .ok r' → r'.window = none)
  /-- So none is open behind the last line. -/
  finished : ∀ p, Progress.steps { state := outline } script.lines = .ok p → p.window = none
  /-- A walk that succeeds ends outside of all blocks and methods. -/
  restored : ∀ s, script.bodies outline = .ok s → s.stack.depth = 1 ∧ s.stack.active = none

section

variable {script : Script} {outline : State} (h : script.outline = .ok outline)
include h

theorem Script.depthBehind_lines : depthBehind 1 script.lines = 1 := by
  obtain ⟨hlines, hglobal⟩ := Script.outline_eq_ok_iff.1 h
  exact (State.depth_outlineLines hlines).symm.trans hglobal

theorem Script.depth_steps {ls : List Line} {p : Progress}
    (hp : Progress.steps { state := outline } ls = .ok p) :
    p.state.stack.depth = depthBehind 1 ls := by
  rw [Progress.depth_steps hp, (Script.outline_eq_ok_iff.1 h).2]

theorem Script.coherent_steps {ls : List Line} {p : Progress}
    (hp : Progress.steps { state := outline } ls = .ok p) : p.Coherent := by
  have hactive := State.active_outlineLines (Script.outline_eq_ok_iff.1 h).1 rfl
  have hstart : Progress.Coherent { state := outline } :=
    { outside := fun _ => hactive, inside := fun w hw => by cases hw }
  exact hstart.steps hp

/-- No window is open behind the last line, where the depth is 1 again. -/
theorem Script.window_eq_none {p : Progress}
    (hp : Progress.steps { state := outline } script.lines = .ok p) : p.window = none := by
  cases hw : p.window with
  | none => rfl
  | some w =>
    obtain ⟨d, htwo, hblock⟩ := (Script.coherent_steps h hp).inside w hw
    have hle := hblock.le_depth
    rw [Script.depth_steps h hp, Script.depthBehind_lines h] at hle
    omega

theorem Script.inStep {pre post : List Line} {l : Line} {p : Progress}
    (hsplit : script.lines = pre ++ l :: post)
    (hp : Progress.steps { state := outline } pre = .ok p) :
    ∃ s s', State.outlineLines {} pre = .ok s ∧ s.outlineLine l.text = .ok s' ∧
      p.InStep s s' l.text := by
  have hlines := (Script.outline_eq_ok_iff.1 h).1
  rw [hsplit] at hlines
  obtain ⟨s, hs, hrest⟩ := walk_append_eq_ok.1 hlines
  obtain ⟨s', hs', -⟩ := walk_cons_eq_ok.1 hrest
  have hbefore : p.state.stack.depth = s.stack.depth :=
    (Script.depth_steps h hp).trans (State.depth_outlineLines hs).symm
  obtain ⟨kind, hkind, hout⟩ := State.outlineLine_eq_ok hs'
  obtain ⟨t, ht⟩ := hout.tracked
  obtain ⟨u, hu⟩ := (Stack.exists_track_congr hbefore).2 ⟨t, ht⟩
  have htrack : p.state.track l.text = .ok ({ p.state with stack := u }, kind) :=
    State.track_eq_ok_iff.2 ⟨u, hu, hkind, rfl⟩
  have hheader (hk : kind = .methodHeader) : ∃ m, Method.ofLine l.text = .ok m := by
    subst hk
    cases hout with
    | header _ parsed => exact ⟨_, parsed⟩
    | passed _ notHeader => exact absurd rfl notHeader
  refine ⟨s, s', hs, hs', ?_⟩
  exact
    { before := hbefore
      tracked := by
        refine ⟨_, _, kind, State.track_eq_ok_iff.2 ⟨t, ht, hkind, rfl⟩, htrack, ?_⟩
        rw [(Stack.track_eq_ok hu).1, (Stack.track_eq_ok ht).1, hbefore]
      after := fun q hq => by
        obtain ⟨_, -, hstep⟩ := Progress.step_eq_ok hq
        rw [hstep.depth, hout.depth, hbefore]
      header := fun hk => hheader (Except.ok.inj (hkind.symm.trans hk))
      form := fun fault hf hform => by
        obtain ⟨rfl, hline⟩ := Progress.isOfForm_of_step htrack hheader hf hform
        have hfault := Declaration.raises_ofLine _ _ hline
        exact ⟨hfault, hkind, hfault ▸ hline⟩ }

/-- The block of a method is closed by the first line that leads out of it, and the
window with it. -/
theorem Script.exists_close {pre post : List Line} {l : Line} {p q : Progress} {w : Window}
    (hsplit : script.lines = pre ++ l :: post)
    (hp : Progress.steps { state := outline } pre = .ok p) (hpw : p.window = none)
    (hq : p.step l.text = .ok q) (hqw : q.window = some w) :
    ∃ mid close rest, post = mid ++ close :: rest ∧ Braces.closes close.text = true ∧
      depthBehind 1 (pre ++ l :: (mid ++ [close])) = depthBehind 1 pre ∧
      ∀ n r, q.steps (mid.take n) = .ok r →
        (∃ w', r.window = some w' ∧ w'.method = w.method) ∧
          (mid.length ≤ n → ∀ r', r.step close.text = .ok r' → r'.window = none) := by
  obtain ⟨kind, hkind, hstep⟩ := Progress.step_eq_ok hq
  obtain ⟨rfl, htwo, hblock⟩ := hstep.inBlock hkind hpw hqw
  have hopen : q.state.stack.depth = depthBehind 1 pre + 1 := by
    rw [hstep.depth, Braces.shift_of_ending hkind rfl, Script.depth_steps h hp]
  have hl : q.state.stack.depth = depthBehind 1 (pre ++ [l]) := by
    rw [hstep.depth, Script.depth_steps h hp, depthBehind_append, depthBehind_cons, depthBehind_nil]
  have hpost : depthBehind q.state.stack.depth post < q.state.stack.depth := by
    have hend := Script.depthBehind_lines h
    rw [hsplit, List.append_cons, depthBehind_append, ← hl] at hend
    omega
  obtain ⟨mid, close, rest, rfl, hcloses, hmid, hlast, hback⟩ := exists_return (Nat.le_refl _) hpost
  refine ⟨mid, close, rest, rfl, hcloses, ?_, fun n r hr => ?_⟩
  · rw [List.append_cons, depthBehind_append, ← hl]
    omega
  · have hr' := hblock.steps hr fun k => by rw [List.take_take]; exact hmid _
    refine ⟨hr'.window, fun hn r' hclose => ?_⟩
    obtain ⟨_, -, hstep'⟩ := Progress.step_eq_ok hclose
    have hlt : ¬q.state.stack.depth ≤ r'.state.stack.depth := by
      rw [List.take_of_length_le hn] at hr
      rw [hstep'.depth, Progress.depth_steps hr]
      rw [depthBehind_append, depthBehind_cons, depthBehind_nil] at hback
      omega
    have hout := hr'.step hstep'
    rw [if_neg hlt] at hout
    exact hout.1

end

/-- The two walks over a script agree. -/
theorem Script.walks_agree {script : Script} {outline : State} (h : script.outline = .ok outline) :
    script.Agreement outline where
  inStep _ _ _ _ := Script.inStep h
  closed _ _ _ _ _ _ := Script.exists_close h
  finished _ := Script.window_eq_none h
  restored s hs := by
    obtain ⟨p, hp, hfinish⟩ := Script.bodies_eq_ok_iff.1 hs
    have hnone := Script.window_eq_none h hp
    simp only [Progress.finish, hnone, Except.ok.injEq] at hfinish
    subst hfinish
    rw [Script.depth_steps h hp, Script.depthBehind_lines h]
    exact ⟨rfl, (Script.coherent_steps h hp).outside hnone⟩

/-- The walks over a method that does nothing. -/
theorem Script.walks_agree_emptyMethod :
    let script : Script :=
      { lines := [⟨1, "void f() \x7b".toList⟩, ⟨2, "return;".toList⟩, ⟨3, "\x7d".toList⟩], length := 3 }
    ∃ outline, script.outline = .ok outline ∧ script.Agreement outline := by
  intro script
  have hok : script.outline.toOption.isSome = true := by decide +kernel
  cases h : script.outline with
  | ok outline => exact ⟨outline, rfl, Script.walks_agree h⟩
  | error failure =>
    rw [h] at hok
    cases hok

end SJava
