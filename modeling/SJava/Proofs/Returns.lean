import SJava.Proofs.Readings
import SJava.Proofs.Values
import SJava.Proofs.Windows

/-!
# The return at the end of a method

A window remembers the kinds of its last two lines, and is left with the line that closes
the block of its method. So the older of the two belongs to the line in front of that one:
when all lines of a window are in order, the verdict on the window is whether this line is
a return.

* `Progress.InBlock.steps_of_bodyLines`: lines that stay in the block of a method;
* `Progress.InBlock.step_last`: the line that leads out of it;
* `Script.WindowVerdict`, `Script.windowVerdict`: the verdict on a window;
* `Script.Accepted.returnsAt`: the end of a window of an accepted script;
* `Content.ReturnVerdicts`, `Content.returnVerdicts`: a whole source.
-/

namespace SJava

/-! ## Lines of a window -/

namespace State

variable {s t : State} {line : Text} {kind : Kind}

/-- A line in order changes the depth as its braces do, and keeps the method that is being
checked up to the end of its block. -/
theorem active_bodyLine {a : Active} (h : s.bodyLine line = .ok (t, kind))
    (ha : s.stack.active = some a) (hd : a.depth ≤ s.stack.depth) :
    t.stack.depth = Braces.shift line s.stack.depth ∧
      t.stack.active = if a.depth ≤ t.stack.depth then some a else none := by
  obtain ⟨u, stack, -, htrack, hchecked, rfl⟩ := bodyLine_eq_ok h
  obtain ⟨hdepth, hactive⟩ := hchecked.keeps
  rw [hdepth, hactive]
  exact ⟨(Stack.track_eq_ok htrack).1, Stack.active_of_track htrack ha hd⟩

theorem bodyLines_singleton {l : Line} {kinds : List Kind} (h : s.bodyLines [l] = .ok (t, kinds)) :
    ∃ kind, s.bodyLine l.text = .ok (t, kind) ∧ Kind.of l.text = .ok kind ∧ kinds = [kind] := by
  obtain ⟨kind, hline, rfl⟩ := walkWith_singleton_eq_ok.1 h
  obtain ⟨-, -, hkind, -⟩ := bodyLine_eq_ok hline
  exact ⟨kind, hline, hkind, rfl⟩

end State

namespace Progress

variable {p q : Progress} {m : Method} {d : Nat} {w : Window} {line : Text} {kind : Kind} {t : State}

/-- A header opens a window in which no line has been met. -/
theorem Stepped.entered (h : p.Stepped line .methodHeader q) :
    ∃ m, p.window = none ∧ Method.ofLine line = .ok m ∧
      q.window = some { method := m, globals := q.state.stack.globals } := by
  cases h with
  | enter outside tracked parsed entered => exact ⟨_, outside, parsed, rfl⟩
  | skip _ _ notHeader => exact absurd rfl notHeader
  | stay _ _ checked | leave _ _ checked => cases checked

/-- A line in order that stays in the block of the method is remembered. -/
theorem InBlock.step_inside (hp : p.InBlock m d) (hw : p.window = some w)
    (h : p.state.bodyLine line = .ok (t, kind)) (hd : d ≤ Braces.shift line p.state.stack.depth) :
    p.step line = .ok ⟨t, some (w.push kind)⟩ ∧ InBlock ⟨t, some (w.push kind)⟩ m d := by
  obtain ⟨hdepth, hactive⟩ := State.active_bodyLine h hp.active hp.le_depth
  rw [if_pos (hdepth ▸ hd)] at hactive
  have hinside : t.stack.isInsideMethod = true := by rw [Stack.isInsideMethod, hactive]; rfl
  obtain ⟨w', hw', hm⟩ := hp.window
  cases Option.some.inj (hw.symm.trans hw')
  refine ⟨?_, ⟨_, rfl, hm⟩, hactive, hdepth ▸ hd⟩
  simp only [Progress.step, hw, innerLine, h, ok_bind, hinside, if_true]
  rfl

/-- Lines in order that stay in the block of the method are remembered one after the
other. -/
theorem InBlock.steps_of_bodyLines {ls : List Line} {kinds : List Kind} (hp : p.InBlock m d)
    (hw : p.window = some w) (h : p.state.bodyLines ls = .ok (t, kinds))
    (hd : ∀ n, d ≤ depthBehind p.state.stack.depth (ls.take n)) :
    p.steps ls = .ok ⟨t, some (kinds.foldl Window.push w)⟩ ∧
      InBlock ⟨t, some (kinds.foldl Window.push w)⟩ m d := by
  induction ls generalizing p w kinds with
  | nil =>
    cases h
    obtain ⟨s, window⟩ := p
    cases hw
    exact ⟨rfl, hp⟩
  | cons l ls ih =>
    obtain ⟨u, kind, rest, hline, hrest, rfl⟩ := walkWith_cons_eq_ok.1 h
    obtain ⟨hstep, hblock⟩ := hp.step_inside hw hline (by simpa using hd 1)
    have hdepth := (State.active_bodyLine hline hp.active hp.le_depth).1
    obtain ⟨hsteps, hlast⟩ := ih hblock rfl hrest fun n => by rw [hdepth]; exact hd (n + 1)
    exact ⟨walk_cons_eq_ok.2 ⟨_, hstep, hsteps⟩, hlast⟩

/-- A line in order that leads out of the block of the method decides the verdict on its
window. -/
theorem InBlock.step_last (hp : p.InBlock m d) (hw : p.window = some w)
    (h : p.state.bodyLine line = .ok (t, kind)) (hd : Braces.shift line p.state.stack.depth < d) :
    p.step line = close t (w.push kind) := by
  obtain ⟨hdepth, hactive⟩ := State.active_bodyLine h hp.active hp.le_depth
  have hout : ¬d ≤ t.stack.depth := by omega
  rw [if_neg hout] at hactive
  have hinside : t.stack.isInsideMethod = false := by rw [Stack.isInsideMethod, hactive]; rfl
  simp only [Progress.step, hw, innerLine, h, ok_bind, hinside]
  rfl

end Progress

/-! ## Verdicts -/

namespace Script

/-- The lines of a window behind its header, up to the end of its block. -/
def windowLines (script : Script) (i j : Nat) : List Line := (script.lines.take (j + 1)).drop (i + 1)

/-- The line of a window in front of the end of its block is a return. -/
def EndsInReturn (script : Script) (i j : Nat) : Prop :=
  ∃ n l, i < n ∧ n + 1 = j ∧ script.lines[n]? = some l ∧ Kind.of l.text = .ok .returnStatement

/-- The verdict on a window of `m`, for the walk `q` behind its header. -/
structure WindowVerdict (script : Script) (i j : Nat) (m : Method) (close : Line) (q : Progress) :
    Prop where
  fails_iff : (∃ failure, q.steps (script.windowLines i j) = .error failure) ↔
    ¬script.EndsInReturn i j
  /-- What fails is the line that closes the block, and the whole script with it. -/
  failure : ∀ failure, q.steps (script.windowLines i j) = .error failure →
    failure = ⟨.missingReturn m.name, close.number⟩ ∧ script.verify = .error failure
  /-- A window that does not fail is closed. -/
  closed : ∀ r, q.steps (script.windowLines i j) = .ok r → r.window = none

variable {script : Script} {outline : State} {i j : Nat}

/-- Places behind `i`, counted from there. -/
theorem depthAt_eq_depthBehind {k : Nat} (h : i ≤ k) :
    script.depthAt k = depthBehind (script.depthAt i) ((script.lines.take k).drop i) := by
  have htake : (script.lines.take k).take i = script.lines.take i := by
    rw [List.take_take, Nat.min_eq_left h]
  rw [depthAt, depthAt, ← depthBehind_append, ← htake, List.take_append_drop]

theorem take_append_windowLines (h : i < j) :
    script.lines.take (i + 1) ++ script.windowLines i j = script.lines.take (j + 1) := by
  have htake : (script.lines.take (j + 1)).take (i + 1) = script.lines.take (i + 1) := by
    rw [List.take_take, Nat.min_eq_left (Nat.succ_le_succ h.le)]
  rw [windowLines, ← htake, List.take_append_drop]

theorem windowLines_eq {close : Line} (h : i < j) (hclose : script.lines[j]? = some close) :
    script.windowLines i j = (script.lines.take j).drop (i + 1) ++ [close] := by
  have hj : j < script.lines.length := (List.getElem?_eq_some_iff.1 hclose).1
  rw [windowLines, take_add_one hclose, List.drop_append_of_le_length]
  rw [List.length_take]
  omega

/-- In front of the end of a window the walk stays in the block of the method. -/
theorem IsWindow.le_depthBehind (hw : script.IsWindow i j) (n : Nat) :
    script.depthAt (i + 1) ≤
      depthBehind (script.depthAt (i + 1)) (((script.lines.take j).drop (i + 1)).take n) := by
  obtain ⟨l, hl, hkind⟩ := hw.header
  have hopen : script.depthAt (i + 1) = script.depthAt i + 1 := by
    rw [depthAt_add_one hl, Braces.shift_of_ending hkind rfl]
  have hlt := hw.lt
  have hplace : i + 1 ≤ min (i + 1 + n) j := by omega
  rw [List.take_drop, List.take_take, ← depthAt_eq_depthBehind hplace, hopen]
  exact hw.inside _ (by omega) (by omega)

/-- The last line in front of the end of a window, if there is one behind the header. -/
theorem endsInReturn_iff (hw : script.IsWindow i j) {s t : State} {kinds : List Kind}
    (h : s.bodyLines ((script.lines.take j).drop (i + 1)) = .ok (t, kinds)) :
    script.EndsInReturn i j ↔ kinds.getLast? = some .returnStatement := by
  obtain ⟨n, rfl⟩ : ∃ n, j = n + 1 := ⟨j - 1, by have := hw.lt; omega⟩
  obtain ⟨close, hclose, -⟩ := hw.close
  have hlength : n + 1 < script.lines.length := (List.getElem?_eq_some_iff.1 hclose).1
  have hl : script.lines[n]? = some script.lines[n] := List.getElem?_eq_getElem (by omega)
  rcases Nat.eq_or_lt_of_le (Nat.le_of_lt_succ hw.lt) with rfl | hlt
  · -- nothing stands between the header and the end of its block
    rw [List.drop_eq_nil_of_le (by rw [List.length_take]; omega)] at h
    cases h
    refine iff_of_false ?_ (by simp)
    rintro ⟨k, -, hik, hk, -⟩
    omega
  · rw [take_add_one hl, List.drop_append_of_le_length (by rw [List.length_take]; omega)] at h
    obtain ⟨u, front, back, -, hback, rfl⟩ := walkWith_append_eq_ok.1 h
    obtain ⟨kind, -, hkind, rfl⟩ := State.bodyLines_singleton hback
    rw [List.getLast?_concat, Option.some.injEq]
    constructor
    · rintro ⟨k, l, -, hk, hl', hreturn⟩
      obtain rfl : k = n := by omega
      cases Option.some.inj (hl.symm.trans hl')
      exact Except.ok.inj (hkind.symm.trans hreturn)
    · rintro rfl
      exact ⟨n, _, hlt, rfl, hl, hkind⟩

/-- Behind a header the walk is in the block of its method, where no line has been met. -/
theorem entered (h : script.outline = .ok outline) {l : Line} (hl : script.lines[i]? = some l)
    (hkind : Kind.of l.text = .ok .methodHeader) {q : Progress}
    (hq : Progress.steps { state := outline } (script.lines.take (i + 1)) = .ok q) :
    ∃ m, Method.ofLine l.text = .ok m ∧ q.InBlock m (script.depthAt (i + 1)) ∧
      q.window = some { method := m, globals := q.state.stack.globals } := by
  have hdepth := depth_steps h hq
  obtain ⟨p, -, hone⟩ := (walk_take_add_one_eq_ok hl).1 hq
  obtain ⟨kind, hk, hstep⟩ := Progress.step_eq_ok hone
  cases Except.ok.inj (hkind.symm.trans hk)
  obtain ⟨m, houtside, hm, hwindow⟩ := hstep.entered
  obtain ⟨-, -, hblock⟩ := hstep.inBlock hkind houtside hwindow
  rw [depthAt, ← hdepth]
  exact ⟨m, hm, hblock, hwindow⟩

/-- A window whose lines are all in order comes to the verdict on its last line, where the
line in front of that one is remembered. -/
theorem steps_windowLines (ho : script.outline = .ok outline) (hw : script.IsWindow i j)
    {header close : Line} (hheader : script.lines[i]? = some header)
    (hclose : script.lines[j]? = some close) {q : Progress}
    (hq : Progress.steps { state := outline } (script.lines.take (i + 1)) = .ok q) {t : State}
    {kinds : List Kind} (hlines : q.state.bodyLines (script.windowLines i j) = .ok (t, kinds)) :
    ∃ (w : Window) (kind : Kind), Method.ofLine header.text = .ok w.method ∧
      (script.EndsInReturn i j ↔ w.previous = some .returnStatement) ∧
        q.steps (script.windowLines i j) =
          (Progress.close t (w.push kind)).mapError fun fault => ⟨fault, close.number⟩ := by
  obtain ⟨l, hl, hkind⟩ := hw.header
  cases Option.some.inj (hheader.symm.trans hl)
  obtain ⟨m, hm, hblock, hwindow⟩ := entered ho hheader hkind hq
  have hbody := windowLines_eq hw.lt hclose
  rw [hbody] at hlines
  obtain ⟨u, front, back, hfront, hback, rfl⟩ := walkWith_append_eq_ok.1 hlines
  obtain ⟨kind, hline, -, rfl⟩ := State.bodyLines_singleton hback
  -- up to the last line the window stays open, and remembers the kinds of all lines
  have hdepth : q.state.stack.depth = script.depthAt (i + 1) := depth_steps ho hq
  obtain ⟨hsteps, hinside⟩ := hblock.steps_of_bodyLines hwindow hfront fun n =>
    hdepth ▸ hw.le_depthBehind n
  obtain ⟨_, ⟨⟩, hmethod⟩ := hinside.window
  refine ⟨_, kind, hmethod.symm ▸ hm, ?_, ?_⟩
  · rw [endsInReturn_iff hw hfront, (Window.foldl_push front _).2, Option.or_none]
  · -- the last line leads out of the block of the method
    have hlast : Braces.shift close.text u.stack.depth < script.depthAt (i + 1) := by
      have hu := Progress.depth_steps hsteps
      rw [hdepth, ← depthAt_eq_depthBehind hw.lt] at hu
      rw [hu, ← depthAt_add_one hclose, hw.back]
      exact hw.inside _ (Nat.lt_succ_self i) hw.lt
    unfold Progress.steps at hsteps ⊢
    rw [hbody, walk_append, hsteps, ok_bind, walk_singleton, hinside.step_last rfl hline hlast]

/-- A walk that fails in a window fails the script. -/
theorem verify_eq_error (hb : script.checkBalance = .ok ()) (ho : script.outline = .ok outline)
    (hij : i < j) {q : Progress}
    (hq : Progress.steps { state := outline } (script.lines.take (i + 1)) = .ok q) {failure : Failure}
    (h : q.steps (script.windowLines i j) = .error failure) : script.verify = .error failure := by
  have hlines := List.take_append_drop (j + 1) script.lines
  rw [← take_append_windowLines hij] at hlines
  unfold Progress.steps at hq h
  rw [verify, hb, ok_bind, ho, ok_bind, bodies, ← hlines, List.append_assoc, Progress.steps, walk_append,
    hq, ok_bind, walk_append, h]
  rfl

/-- A window whose lines are all in order fails exactly when it does not end in a return, with
the line that closes it. -/
theorem windowVerdict (hb : script.checkBalance = .ok ()) (ho : script.outline = .ok outline)
    (hw : script.IsWindow i j) {header close : Line} (hheader : script.lines[i]? = some header)
    (hclose : script.lines[j]? = some close) {q : Progress}
    (hq : Progress.steps { state := outline } (script.lines.take (i + 1)) = .ok q) {t : State}
    {kinds : List Kind} (hlines : q.state.bodyLines (script.windowLines i j) = .ok (t, kinds)) :
    ∃ m, Method.ofLine header.text = .ok m ∧ script.WindowVerdict i j m close q := by
  obtain ⟨w, kind, hm, hends, hrun⟩ := steps_windowLines ho hw hheader hclose hq hlines
  refine ⟨w.method, hm, ?_⟩
  by_cases hreturn : w.previous = some .returnStatement
  · have hok : q.steps (script.windowLines i j) =
        .ok { state := { t with stack := { t.stack with globals := w.globals } } } := by
      rw [hrun, Progress.close_eq_ok_iff.2 ⟨hreturn, rfl⟩]
      rfl
    exact
      { fails_iff := by simp [hok, hends.2 hreturn]
        failure := fun failure h => by rw [hok] at h; cases h
        closed := fun r h => by rw [hok] at h; cases h; rfl }
  · have hclosed : Progress.close t (w.push kind) = .error (.missingReturn w.method.name) := if_neg hreturn
    have herror : q.steps (script.windowLines i j) =
        .error ⟨.missingReturn w.method.name, close.number⟩ := by
      rw [hrun, hclosed]
      rfl
    exact
      { fails_iff := by simp [herror, mt hends.1 hreturn]
        failure := fun failure h => by
          refine ⟨?_, verify_eq_error hb ho hw.lt hq h⟩
          rw [herror] at h
          cases h
          rfl
        closed := fun r h => by rw [herror] at h; cases h }

/-! ## Accepted scripts -/

/-- A window from `i` on that ends with a return, at place `n`, and the end of its block behind
it. -/
structure ReturnsAt (script : Script) (outline : State) (i n : Nat) : Prop where
  behind : i < n
  line : ∃ l, script.lines[n]? = some l ∧ Kind.of l.text = .ok .returnStatement
  close : ∃ l, script.lines[n + 1]? = some l ∧ Text.trim l.text = ['}']
  /-- The return stands in the block of the method itself. -/
  inside : ∃ header m p, script.lines[i]? = some header ∧ Method.ofLine header.text = .ok m ∧
    Progress.steps { state := outline } (script.lines.take n) = .ok p ∧
      p.state.stack.active = some ⟨m, p.state.stack.depth⟩
  /-- The brace leads out of it. -/
  outside : ∃ p, Progress.steps { state := outline } (script.lines.take (n + 2)) = .ok p ∧
    p.state.stack.active = none

theorem IsWindow.depth_close (hw : script.IsWindow i j) :
    script.depthAt j = script.depthAt i + 1 := by
  obtain ⟨close, hclose, -⟩ := hw.close
  have hback := hw.back
  rw [depthAt_add_one hclose] at hback
  have hbounds := (Braces.shift_bounds close.text (script.depthAt j)).1
  have hinside := hw.inside j hw.lt (Nat.le_refl j)
  omega

namespace Accepted

variable {final : State} (h : script.Accepted outline final) (hw : script.IsWindow i j)
include h hw

/-- The last line of a window leads out of the block of its method, with a return remembered. -/
theorem exists_returned : ∃ p q w, Progress.steps { state := outline } (script.lines.take j) = .ok p ∧
    p.window = some w ∧ w.previous = some .returnStatement ∧
      Progress.steps { state := outline } (script.lines.take (j + 1)) = .ok q ∧
        q.state.stack.active = none := by
  obtain ⟨header, hheader, -⟩ := hw.header
  obtain ⟨close, hclose, -⟩ := hw.close
  obtain ⟨p, hp, -, -⟩ := h.exists_steps j
  obtain ⟨m, -, hblock⟩ := h.inBlock hw hw.lt (Nat.le_refl j) hheader hp
  obtain ⟨kind, q, -, hstep, hq⟩ := h.stepped hclose hp
  have hout : ¬script.depthAt (i + 1) ≤ q.state.stack.depth := by
    rw [depth_steps h.outline_eq hq, ← depthAt, hw.back]
    exact Nat.not_le.2 (hw.inside _ (Nat.lt_succ_self i) hw.lt)
  have hleft := hblock.step hstep
  rw [if_neg hout] at hleft
  obtain ⟨w, hwindow, -⟩ := hblock.window
  refine ⟨p, q, w, hp, hwindow, ?_, hq, hleft.2⟩
  cases hstep with
  | enter outside | skip outside =>
    rw [outside] at hwindow
    cases hwindow
  | stay => cases hleft.1
  | leave inside _ _ _ returned => exact Option.some.inj (inside.symm.trans hwindow) ▸ returned

/-- Behind a line of a window its kind is remembered. -/
theorem previous_eq {n : Nat} (hin : i < n) (hnj : n < j) {l : Line} (hl : script.lines[n]? = some l)
    {p : Progress} (hp : Progress.steps { state := outline } (script.lines.take (n + 1)) = .ok p)
    {w : Window} (hwindow : p.window = some w) :
    ∃ kind, Kind.of l.text = .ok kind ∧ w.previous = some kind := by
  obtain ⟨header, hheader, -⟩ := hw.header
  obtain ⟨r, hr, -, -⟩ := h.exists_steps n
  obtain ⟨m, -, hblock⟩ := h.inBlock hw hin hnj.le hheader hr
  obtain ⟨kind, p', hkind, hstep, hp'⟩ := h.stepped hl hr
  cases Except.ok.inj (hp'.symm.trans hp)
  obtain ⟨w', hwindow', -⟩ := hblock.window
  refine ⟨kind, hkind, ?_⟩
  cases hstep with
  | enter outside | skip outside =>
    rw [outside] at hwindow'
    cases hwindow'
  | leave => cases hwindow
  | stay =>
    cases hwindow
    rfl

/-- A window of an accepted script ends with a return in the block of its method. -/
theorem returnsAt : ∃ n, n + 1 = j ∧ script.ReturnsAt outline i n := by
  obtain ⟨n, rfl⟩ : ∃ n, j = n + 1 := ⟨j - 1, by have := hw.lt; omega⟩
  obtain ⟨header, hheader, hkind⟩ := hw.header
  obtain ⟨close, hclose, hcloses⟩ := hw.close
  obtain ⟨p, q, w, hp, hwindow, hreturned, hq, houtside⟩ := h.exists_returned hw
  have hin : i < n := by
    refine Nat.lt_of_le_of_ne (Nat.le_of_lt_succ hw.lt) ?_
    rintro rfl
    -- behind the header no line has been met
    obtain ⟨_, -, -, hfresh⟩ := entered h.outline_eq hheader hkind hp
    cases Option.some.inj (hwindow.symm.trans hfresh)
    cases hreturned
  have hlength : n + 1 < script.lines.length := (List.getElem?_eq_some_iff.1 hclose).1
  have hl : script.lines[n]? = some script.lines[n] := List.getElem?_eq_getElem (by omega)
  obtain ⟨_, hreturn, hprevious⟩ := h.previous_eq hw hin (Nat.lt_succ_self n) hl hp hwindow
  cases Option.some.inj (hreturned.symm.trans hprevious)
  obtain ⟨r, hr, -, -⟩ := h.exists_steps n
  obtain ⟨m, hm, hblock⟩ := h.inBlock hw hin (Nat.le_succ n) hheader hr
  have hdepth : r.state.stack.depth = script.depthAt (i + 1) := by
    have hsame : script.depthAt (n + 1) = script.depthAt n := by
      rw [depthAt_add_one hl]
      exact Braces.shift_of_semicolon hreturn (by decide) (Kind.getLast?_of_ending hreturn rfl) _
    rw [depth_steps h.outline_eq hr, ← depthAt, ← hsame, hw.depth_close, depthAt_add_one hheader,
      Braces.shift_of_ending hkind rfl]
  exact ⟨n, rfl,
    { behind := hin
      line := ⟨_, hl, hreturn⟩
      close := ⟨close, hclose, Braces.closes_iff.1 hcloses⟩
      inside := ⟨header, m, r, hheader, hm, hr, by rw [hblock.active, hdepth]⟩
      outside := ⟨q, hq, houtside⟩ }⟩

end Accepted

end Script

/-! ## Sources -/

namespace Content

/-- The verdicts on the windows of a source. -/
structure ReturnVerdicts (marker : Text) (c : Content) (script : Script) (outline : State) : Prop where
  /-- Every method has a window. -/
  window : ∀ (i : Nat) (l : Line), script.lines[i]? = some l → Kind.of l.text = .ok .methodHeader →
    ∃ j, script.IsWindow i j
  /-- A window whose header can be entered and whose lines are all in order. -/
  verdict : ∀ (i j : Nat) (header close : Line) (q : Progress) (t : State) (kinds : List Kind),
    script.IsWindow i j → script.lines[i]? = some header → script.lines[j]? = some close →
      Progress.steps { state := outline } (script.lines.take (i + 1)) = .ok q →
        q.state.bodyLines (script.windowLines i j) = .ok (t, kinds) →
          ∃ m, Method.ofLine header.text = .ok m ∧ script.WindowVerdict i j m close q
  /-- The numbers of lines are those of the physical lines of the source. -/
  numbered : ∀ l ∈ script.lines,
    ∃ n raw, l.number = n + 1 ∧ c.physical[n]? = some (some raw) ∧ l.text = Reading.lineText raw
  /-- In an accepted source every window ends with a return. -/
  accepted : ∀ final, c.verify marker = .ok final → ∀ i j, script.IsWindow i j →
    ∃ n, n + 1 = j ∧ script.ReturnsAt outline i n

/-- What the end of a method has to be, in every source whose braces balance and whose outline
is in order. -/
theorem returnVerdicts {marker : Text} {c : Content} {script : Script} {outline : State}
    (hc : c.script marker = .ok script) (hb : script.checkBalance = .ok ())
    (ho : script.outline = .ok outline) : c.ReturnVerdicts marker script outline where
  window _ _ := Script.exists_window ho
  verdict _ _ _ _ _ _ _ hw hheader hclose hq hlines :=
    Script.windowVerdict hb ho hw hheader hclose hq hlines
  numbered _ := exists_physical hc
  accepted final hfinal i j hw := by
    rw [Content.verify, hc] at hfinal
    obtain ⟨outline', hverify⟩ := Script.exists_accepted hfinal
    cases Except.ok.inj (hverify.outline_eq.symm.trans ho)
    exact hverify.returnsAt hw

/-- A method that returns in a block of its own only. -/
theorem returnVerdicts_nestedReturn :
    let c : Content :=
      .text "void f(boolean b) \x7b\n// not always\nif (b) \x7b\nreturn;\n\x7d\n\n\x7d\n".toList
    ∃ script outline, c.script "//".toList = .ok script ∧ script.checkBalance = .ok () ∧
      script.outline = .ok outline ∧ c.ReturnVerdicts "//".toList script outline ∧
        c.verify "//".toList = .error ⟨.missingReturn ['f'], 7⟩ := by
  intro c
  have hscript : (c.script "//".toList).toOption.isSome = true := by decide +kernel
  have hbalance : ((c.script "//".toList).toOption.bind fun script =>
      script.checkBalance.toOption).isSome = true := by decide +kernel
  have houtline : ((c.script "//".toList).toOption.bind fun script =>
      script.outline.toOption).isSome = true := by decide +kernel
  have hfailure : (c.verify "//".toList).map (fun _ => ()) = .error ⟨.missingReturn ['f'], 7⟩ := by
    decide +kernel
  obtain ⟨script, hc⟩ := exists_eq_ok_iff.2 hscript
  rw [hc] at hbalance houtline
  obtain ⟨_, hb⟩ := exists_eq_ok_iff.2 hbalance
  obtain ⟨outline, ho⟩ := exists_eq_ok_iff.2 houtline
  refine ⟨script, outline, hc, hb, ho, returnVerdicts hc hb ho, ?_⟩
  cases hverify : c.verify "//".toList with
  | ok final =>
    rw [hverify] at hfailure
    cases hfailure
  | error failure =>
    rw [hverify] at hfailure
    cases hfailure
    rfl

end Content

end SJava
