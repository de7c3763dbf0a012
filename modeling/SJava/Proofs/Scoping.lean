import SJava.Proofs.References
import SJava.Proofs.Sites

/-!
# Lexical scoping

Every variable that an accepted script refers to is declared where the reference
can see it, and has a value when it is read.

* `Script.Tracks`: the invariant of the second walk: outside of all windows the
  stack is that of the outline, and inside it holds the declarations in view;
* `Script.Accepted.tracks`: every run of the second walk keeps it;
* `Script.LexicallyScoped`, `Script.lexicallyScoped`: what it means for the
  references.
-/

namespace SJava

namespace Script

variable {script : Script} {outline final : State}

/-! ## Declarations in view in a window -/

/-- What comes into view and goes out of view with a line of a window. -/
theorem inView_add_one (h : script.Accepted outline final) {i j k m : Nat} {b : Binding}
    (hw : script.IsWindow i j) (hik : i < k) (hkj : k < j) :
    script.InView i (k + 1) m b ↔
      script.InView i k m b ∧ script.lineDepth m ≤ script.lineDepth k ∨ m = k ∧ script.Declares k b := by
  obtain ⟨l, hl, hkind⟩ := hw.header
  have hopen : script.lineDepth i = script.depthAt i + 1 := by
    rw [lineDepth, depthAt_add_one hl, Braces.shift_of_ending hkind rfl]
  have hinside := hw.inside (k + 1) (by omega) (by omega)
  have hpos := h.depthAt_pos (k + 1)
  constructor
  · intro hm
    cases hm with
    | parameter has =>
      refine .inl ⟨.parameter has, ?_⟩
      rw [hopen]
      exact hinside
    | enclosing behind before declares isOpen =>
      rcases Nat.lt_succ_iff_lt_or_eq.1 before with hlt | rfl
      · refine .inl ⟨.enclosing behind hlt declares fun n hmn hnk => isOpen n hmn (by omega), ?_⟩
        exact isOpen (k + 1) before (Nat.le_refl _)
      · exact .inr ⟨rfl, declares⟩
    | global declares atGlobal =>
      refine .inl ⟨.global declares atGlobal, ?_⟩
      rw [atGlobal]
      exact hpos
  · rintro (⟨hm, hd⟩ | ⟨rfl, declares⟩)
    · cases hm with
      | parameter has => exact .parameter has
      | enclosing behind before declares isOpen =>
        refine .enclosing behind (by omega) declares fun n hmn hnk => ?_
        rcases Nat.lt_or_ge n (k + 1) with hlt | hge
        · exact isOpen n hmn (by omega)
        · cases Nat.le_antisymm hnk hge
          exact hd
      | global declares atGlobal => exact .global declares atGlobal
    · refine .enclosing hik (by omega) declares fun n hmn hnk => ?_
      cases Nat.le_antisymm hnk hmn
      exact Nat.le_refl _

/-- A declaration in view at the end of a window, and in view behind it, is
global. -/
theorem lineDepth_of_inView {i j m : Nat} {b : Binding} (hw : script.IsWindow i j)
    (hm : script.InView i j m b) (hd : script.lineDepth m ≤ script.depthAt i) :
    script.lineDepth m = 1 := by
  cases hm with
  | parameter =>
    have := hw.inside (i + 1) (by omega) hw.lt
    rw [lineDepth] at hd
    omega
  | enclosing behind before =>
    have := hw.inside (m + 1) (by omega) before
    rw [lineDepth] at hd
    omega
  | global _ atGlobal => exact atGlobal

/-- Behind the braces of a line that closes no block, the same declarations are in
view. -/
theorem lineDepth_le_of_inView (h : script.Accepted outline final) {i j k m : Nat} {b : Binding}
    (hw : script.IsWindow i j) (hik : i < k) (hkj : k ≤ j) {l : Line}
    (hl : script.lines[k]? = some l) (hcloses : ¬Braces.closes l.text = true)
    (hm : script.InView i k m b) : script.lineDepth m ≤ script.lineDepth k := by
  have hup : script.depthAt k ≤ script.lineDepth k := by
    rw [lineDepth, depthAt_add_one hl, Braces.shift, if_neg hcloses]
    split <;> omega
  refine Nat.le_trans ?_ hup
  cases hm with
  | parameter =>
    obtain ⟨l, hl, hkind⟩ := hw.header
    rw [lineDepth, depthAt_add_one hl, Braces.shift_of_ending hkind rfl]
    exact hw.inside k hik hkj
  | enclosing _ before _ isOpen => exact isOpen k before (Nat.le_refl _)
  | global _ atGlobal =>
    rw [atGlobal]
    exact h.depthAt_pos k

theorem matches_clause {i k n : Nat} {l : Line} {u t : Stack} {as : List Assignment}
    (hu : u.Matches (script.InView i k) script.lineDepth (script.Initialized i k 0))
    (hik : i < k) (hl : script.lines[k]? = some l) (hkind : Kind.of l.text = .ok .assignment)
    (has : Assignment.allOfLine l.text = .ok as) (hn : n ≤ as.length)
    (hdone : (as.take n).foldlM Stack.assign u = .ok t) :
    t.Matches (script.InView i k) script.lineDepth (script.Initialized i k n) := by
  refine hu.assignAll (fun n m b hi => hi.mono (.inr ⟨rfl, Nat.le_succ n⟩)) ?_ hn hdone
  intro n a m b ha hinner hname
  exact .assigned hik (.inr ⟨rfl, Nat.lt_succ_self n⟩) ⟨l, as, a, hl, hkind, has, ha, hname.symm⟩ hinner

/-! ## The second walk -/

/-- What the stack of the second walk holds in front of line `n`. -/
structure Tracks (script : Script) (outline : State) (n : Nat) (p : Progress) : Prop where
  /-- Outside of all windows it is that of the outline. -/
  outside : p.window = none → ∀ d x, p.state.stack.entry d x = outline.stack.entry d x
  /-- An open window keeps the globals of the outline. -/
  globals : ∀ w, p.window = some w → ∀ x, w.globals[x]? = outline.stack.entry 1 x
  within : ∀ w, p.window = some w → ∃ i j, script.IsWindow i j ∧ i < n ∧ n ≤ j
  /-- In a window it holds the declarations in view. -/
  inside : ∀ i j, script.IsWindow i j → i < n → n ≤ j →
    p.state.stack.Matches (script.InView i n) script.lineDepth (script.Initialized i n 0)

namespace Accepted

variable (h : script.Accepted outline final)
include h

/-- The outline holds the global declarations. -/
theorem matches_outline (i k : Nat) :
    outline.stack.Matches (fun m b => script.Declares m b ∧ script.lineDepth m = 1) script.lineDepth
      (script.Initialized i k 0) := by
  have hlines := (outline_eq_ok_iff.1 h.outline_eq).1
  rw [← List.take_length (l := script.lines)] at hlines
  refine (h.matches_outlineLines (Nat.le_refl _) hlines).imp (fun m b => ?_) fun m b hm hi => ?_
  · exact ⟨And.right, fun hm => ⟨hm.1.lt_length, hm⟩⟩
  · cases hi with
    | declared hasValue => exact .declared hasValue
    | assigned later before atGlobal target => exact .global hm.2.2 later atGlobal target

/-- Outside of all windows nothing but the global table has entries. -/
theorem entry_outline {d : Nat} (hd : 1 < d) (x : Text) : outline.stack.entry d x = none := by
  apply Stack.entry_eq_none_of_lt
  rw [(outline_eq_ok_iff.1 h.outline_eq).2]
  exact hd

variable {k : Nat} {l : Line} (hl : script.lines[k]? = some l)
include hl

theorem depth_of_track {p : Progress} {u : Stack}
    (hp : Progress.steps { state := outline } (script.lines.take k) = .ok p)
    (tracked : p.state.stack.track l.text = .ok u) : u.depth = script.lineDepth k := by
  rw [(Stack.track_eq_ok tracked).1, depth_steps h.outline_eq hp, lineDepth, depthAt_add_one hl]
  rfl

omit hl in
/-- Braces outside of all windows leave the entries alone. -/
theorem entry_of_track {p : Progress} {u : Stack} {line : Text}
    (hout : ∀ d x, p.state.stack.entry d x = outline.stack.entry d x)
    (tracked : p.state.stack.track line = .ok u) (d : Nat) (x : Text) :
    u.entry d x = outline.stack.entry d x := by
  rw [(Stack.track_eq_ok tracked).2.2, hout]
  split
  · rfl
  · next hd =>
    have := u.depth_pos
    rw [h.entry_outline (by omega)]

omit hl in
/-- Where no window is open, none reaches. -/
theorem exists_window_of_isWindow {i j n : Nat} (hw : script.IsWindow i j) (hin : i < n)
    (hnj : n ≤ j) {p : Progress}
    (hp : Progress.steps { state := outline } (script.lines.take n) = .ok p) :
    ∃ w, p.window = some w := by
  obtain ⟨l, hl, -⟩ := hw.header
  obtain ⟨m, -, hblock⟩ := h.inBlock hw hin hnj hl hp
  obtain ⟨w, hpw, -⟩ := hblock.window
  exact ⟨w, hpw⟩

variable {p q : Progress} {kind : Kind} (ht : script.Tracks outline k p)
  (hp : Progress.steps { state := outline } (script.lines.take k) = .ok p)
  (hq : Progress.steps { state := outline } (script.lines.take (k + 1)) = .ok q)
  (hkind : Kind.of l.text = .ok kind)
include ht hp hq hkind

theorem tracks_enter {u t : Stack} {m : Method} (hheader : kind = .methodHeader)
    (outside : p.window = none) (tracked : p.state.stack.track l.text = .ok u)
    (parsed : Method.ofLine l.text = .ok m) (entered : u.enterMethod m = (t, none))
    (hqe : q = { state := { p.state with stack := t }
                 window := some { method := m, globals := t.globals } }) :
    script.Tracks outline (k + 1) q := by
  subst hheader hqe
  have hu := h.entry_of_track (ht.outside outside) tracked
  have hd := h.depth_of_track hl hp tracked
  obtain ⟨-, -, hentry⟩ := Stack.entry_declareAll entered
  refine ⟨nofun, fun w hw x => ?_, fun w _ => ?_, fun i j hw hik hkj => ?_⟩
  · cases hw
    have hone : (1 : Nat) ≠ u.depth := by
      have hpos := h.depthAt_pos k
      rw [hd, lineDepth, depthAt_add_one hl, Braces.shift_of_ending hkind rfl]
      omega
    rw [← Stack.entry_globals, ← hu]
    refine Option.ext fun v => ?_
    rw [hentry, or_iff_left]
    · rfl
    · exact fun hnew => hone hnew.1
  · obtain ⟨j, hw⟩ := h.exists_window hl hkind
    exact ⟨k, j, hw, Nat.lt_succ_self k, hw.lt⟩
  · rcases Nat.lt_succ_iff_lt_or_eq.1 hik with hlt | rfl
    · obtain ⟨w, hpw⟩ := h.exists_window_of_isWindow hw hlt (by omega) hp
      rw [outside] at hpw
      cases hpw
    · have hstart : ({ u with active := some ⟨m, u.depth⟩ } : Stack).Matches _ _ _ :=
        (h.matches_outline i (i + 1)).congr hu
      refine (hstart.declareAll m.introduces hd.symm (fun b _ hb => .declared hb) entered).imp
        (fun m' b => ?_) fun _ _ _ => id
      constructor
      · rintro (hm | ⟨rfl, hb⟩)
        · exact .global hm.1 hm.2
        · exact .parameter ⟨l, m, hl, hkind, parsed, hb⟩
      · intro hm
        cases hm with
        | parameter has =>
          obtain ⟨l', m', hl', -, hm', hb⟩ := has
          cases Option.some.inj (hl.symm.trans hl')
          cases Except.ok.inj (parsed.symm.trans hm')
          exact .inr ⟨rfl, hb⟩
        | enclosing behind before => omega
        | global declares atGlobal => exact .inl ⟨declares, atGlobal⟩

omit hq in
/-- A statement of a window brings its declarations into view. -/
theorem matches_checked {u t : Stack} (tracked : p.state.stack.track l.text = .ok u)
    (checked : u.Checked p.state.methods l.text kind t) {i j : Nat} (hw : script.IsWindow i j)
    (hik : i < k) (hkj : k < j) :
    t.Matches (script.InView i (k + 1)) script.lineDepth (script.Initialized i (k + 1) 0) := by
  have hd := h.depth_of_track hl hp tracked
  have hu := (ht.inside i j hw hik (Nat.le_of_lt hkj)).track tracked
  have hinit (n m : Nat) (b : Binding) (hi : script.Initialized i k n m b) :
      script.Initialized i (k + 1) 0 m b := hi.mono (.inl (Nat.lt_succ_self k))
  -- A line that declares nothing only takes out of view.
  have hnothing (hno : kind ≠ .declaration) :
      u.Matches (script.InView i (k + 1)) script.lineDepth (script.Initialized i (k + 1) 0) := by
    refine hu.imp (fun m b => ?_) fun m b _ => hinit 0 m b
    rw [inView_add_one h hw hik hkj, hd, or_iff_left]
    exact fun hm => hno (hm.2.kind_eq hl hkind)
  cases checked with
  | condition | call | returnStatement | scopeEnd => exact hnothing (by decide)
  | declaration done =>
    refine (hu.declareLine hl hkind done hd.symm fun b hb => .declared hb).imp (fun m b => ?_)
      fun m b _ => hinit 0 m b
    rw [inView_add_one h hw hik hkj, hd]
  | assignment done =>
    obtain ⟨as, has, hall⟩ := Stack.assignLine_eq_ok_iff.1 done
    have hcloses : ¬Braces.closes l.text = true := by
      rw [Braces.closes_iff_scopeEnd hkind]
      decide
    have hsame (m : Nat) (b : Binding) :
        (script.InView i k m b ∧ script.lineDepth m ≤ u.depth) ↔ script.InView i k m b := by
      rw [hd]
      exact and_iff_left_of_imp (lineDepth_le_of_inView h hw hik (Nat.le_of_lt hkj) hl hcloses)
    rw [← List.take_length (l := as)] at hall
    refine (matches_clause (hu.imp hsame fun _ _ _ => id) hik hl hkind has (Nat.le_refl _) hall).imp
      (fun m b => ?_) fun m b _ => hinit _ m b
    rw [inView_add_one h hw hik hkj, or_iff_left, ← hd, hsame]
    exact fun hm => absurd (hm.2.kind_eq hl hkind) (by decide)

theorem tracks_stay {w : Window} {u t : Stack} (inside : p.window = some w)
    (tracked : p.state.stack.track l.text = .ok u)
    (checked : u.Checked p.state.methods l.text kind t) (goesOn : t.isInsideMethod = true)
    (hqe : q = { state := { p.state with stack := t }, window := some (w.push kind) }) :
    script.Tracks outline (k + 1) q := by
  have hstep : p.Stepped l.text kind q := hqe ▸ .stay inside tracked checked goesOn
  refine ⟨fun hq' => ?_, fun w' hw' x => ?_, fun w' hw' => ?_, fun i j hw hik hkj => ?_⟩
  · rw [hqe] at hq'
    cases hq'
  · rw [hqe] at hw'
    cases hw'
    exact ht.globals w inside x
  · obtain ⟨i, j, hwin, hik, hkj⟩ := ht.within w inside
    refine ⟨i, j, hwin, by omega, ?_⟩
    rcases Nat.lt_or_ge k j with hlt | hge
    · exact hlt
    · cases Nat.le_antisymm hkj hge
      obtain ⟨li, hli, -⟩ := hwin.header
      obtain ⟨m, -, hblock⟩ := h.inBlock hwin hik hkj hli hp
      have hout := hblock.step hstep
      have hfirst := hwin.inside (i + 1) (by omega) (by omega)
      have hback := hwin.back
      rw [if_neg, hw'] at hout
      · cases hout.1
      · rw [depth_steps h.outline_eq hq]
        show ¬script.depthAt (i + 1) ≤ script.depthAt (k + 1)
        omega
  · rcases Nat.lt_succ_iff_lt_or_eq.1 hik with hlt | rfl
    · have := h.matches_checked hl ht hp hkind tracked checked hw hlt (by omega)
      rw [hqe]
      exact this
    · obtain ⟨li, hli, hheader⟩ := hw.header
      rw [h.window_eq_none hli hheader hp] at inside
      cases inside

theorem tracks_leave {w : Window} {u t : Stack} (inside : p.window = some w)
    (tracked : p.state.stack.track l.text = .ok u)
    (checked : u.Checked p.state.methods l.text kind t)
    (hqe : q = { state := { p.state with stack := { t with globals := w.globals } } }) :
    script.Tracks outline (k + 1) q := by
  have hnone : q.window = none := by rw [hqe]
  have hfar {i j : Nat} (hw : script.IsWindow i j) (hik : i < k + 1) (hkj : k + 1 ≤ j) : False := by
    obtain ⟨w, hqw⟩ := h.exists_window_of_isWindow hw hik hkj hq
    rw [hnone] at hqw
    cases hqw
  refine ⟨fun _ d x => ?_, fun w hw => ?_, fun w hw => ?_, fun i j hw hik hkj => (hfar hw hik hkj).elim⟩
  · obtain ⟨i, j, hw, hik, hkj⟩ := ht.within w inside
    obtain rfl : k = j := by
      by_contra hne
      exact hfar hw (by omega) (by omega)
    obtain ⟨l', hl', hcloses⟩ := hw.close
    cases Option.some.inj (hl.symm.trans hl')
    cases (Braces.closes_iff_scopeEnd hkind).1 hcloses
    cases checked
    have hd : u.depth = script.depthAt i := (h.depth_of_track hl hp tracked).trans hw.back
    rw [hqe]
    show Stack.entry { u with globals := w.globals } d x = _
    rw [Stack.entry_setGlobals]
    split
    · next hone => rw [hone, ht.globals w inside]
    · next hne =>
      -- No table but the global one is left with an entry.
      cases hv : u.entry d x with
      | none =>
        rcases Nat.eq_zero_or_pos d with rfl | hpos
        · exact (Scope.entry_zero _ _).symm
        · rw [h.entry_outline (by omega)]
      | some v =>
        obtain ⟨m, b, ⟨hm, hle⟩, hmd, -⟩ := ((ht.inside i k hw hik hkj).track tracked).sound d x v hv
        rw [hd] at hle
        exact absurd (hmd.symm.trans (lineDepth_of_inView hw hm hle)) hne
  · rw [hnone] at hw
    cases hw
  · rw [hnone] at hw
    cases hw

end Accepted

/-- Every run of the second walk keeps the invariant. -/
theorem Accepted.tracks (h : script.Accepted outline final) {k : Nat} (hk : k ≤ script.lines.length)
    {p : Progress} (hp : Progress.steps { state := outline } (script.lines.take k) = .ok p) :
    script.Tracks outline k p := by
  induction k generalizing p with
  | zero =>
    cases hp
    exact ⟨fun _ _ _ => rfl, nofun, nofun, fun i j _ hi => absurd hi (Nat.not_lt_zero i)⟩
  | succ k ih =>
    obtain ⟨l, hl⟩ : ∃ l, script.lines[k]? = some l := ⟨_, List.getElem?_eq_getElem hk⟩
    obtain ⟨r, hr, -⟩ := h.exists_steps k
    obtain ⟨kind, q, hkind, hstep, hq⟩ := h.stepped hl hr
    cases Except.ok.inj (hq.symm.trans hp)
    have ht := ih (Nat.le_of_succ_le hk) hr
    cases hstep with
    | enter outside tracked parsed entered =>
      exact h.tracks_enter hl ht hr hp hkind rfl outside tracked parsed entered rfl
    | skip outside tracked =>
      refine ⟨fun _ => h.entry_of_track (ht.outside outside) tracked, nofun, nofun, ?_⟩
      intro i j hw hik hkj
      obtain ⟨w, hqw⟩ := h.exists_window_of_isWindow hw hik hkj hp
      cases hqw
    | stay inside tracked checked goesOn =>
      exact h.tracks_stay hl ht hr hp hkind inside tracked checked goesOn rfl
    | leave inside tracked checked =>
      exact h.tracks_leave hl ht hr hp hkind inside tracked checked rfl

/-! ## References -/

/-- In the stack `t` the name stands for the innermost binding in view, which may
be referred to in that way. -/
def Resolves (script : Script) (sites init : Sites) (access : Access) (name : Text) (t : Stack) :
    Prop :=
  ∃ m b v, Innermost sites script.lineDepth m b ∧ b.name = name ∧ t.lookup name = some v ∧
    b.Describes v ∧ (access = .read → init m b) ∧ (access = .write → b.isFinal = false)

/-- Every reference in the script resolves to a declaration that it can see. -/
structure LexicallyScoped (script : Script) : Prop where
  /-- A reference in a method is checked by the second walk, and stands for a
  parameter, for a variable of a block that is open around it, or for a global one. -/
  inWindow : ∀ i j k l n access name, script.IsWindow i j → i < k → k < j →
    script.lines[k]? = some l → References l.text n access name →
      ∃ outline p u t, script.outline = .ok outline ∧
        Progress.steps { state := outline } (script.lines.take k) = .ok p ∧
          p.state.stack.track l.text = .ok u ∧ u.BehindClauses l.text n t ∧
            script.Resolves (script.InView i k) (script.Initialized i k n) access name t
  /-- A reference at depth 1 is checked by the first walk, and stands for a global
  variable that is declared before. -/
  atGlobal : ∀ k l n access name, script.lineDepth k = 1 → script.lines[k]? = some l →
    References l.text n access name →
      ∃ s u t, State.outlineLines {} (script.lines.take k) = .ok s ∧
        s.stack.track l.text = .ok u ∧ u.BehindClauses l.text n t ∧
          script.Resolves (script.GlobalBefore k) (script.InitializedGlobal k n) access name t

end Script

/-- A lookup that the check of a reference makes resolves it. -/
theorem Stack.Matches.resolves {script : Script} {t : Stack} {sites init : Sites}
    (h : t.Matches sites script.lineDepth init) {access : Access} {name : Text} {v : Variable}
    (hv : t.lookup name = some v) (hallows : access.Allows v) :
    script.Resolves sites init access name t := by
  obtain ⟨m, b, hinner, hname, hb, hi⟩ := h.lookup hv
  refine ⟨m, b, v, hinner, hname, hv, hb, ?_, ?_⟩
  · rintro rfl
    exact hi hallows
  · rintro rfl
    exact hb.isFinal_eq ▸ hallows

namespace Script

variable {script : Script} {outline final : State}

theorem Accepted.resolves_inWindow (h : script.Accepted outline final) {i j k n : Nat} {l : Line}
    {access : Access} {name : Text} (hw : script.IsWindow i j) (hik : i < k) (hkj : k < j)
    (hl : script.lines[k]? = some l) (href : References l.text n access name) :
    ∃ p u t, Progress.steps { state := outline } (script.lines.take k) = .ok p ∧
      p.state.stack.track l.text = .ok u ∧ u.BehindClauses l.text n t ∧
        script.Resolves (script.InView i k) (script.Initialized i k n) access name t := by
  obtain ⟨p, hp, -⟩ := h.exists_steps k
  have ht := h.tracks (Nat.le_of_lt (List.getElem?_eq_some_iff.1 hl).1) hp
  obtain ⟨w, hpw⟩ := h.exists_window_of_isWindow hw hik (Nat.le_of_lt hkj) hp
  obtain ⟨kind, q, hkind, hstep, -⟩ := h.stepped hl hp
  have hcloses : ¬Braces.closes l.text = true := by
    rw [Braces.closes_iff_scopeEnd hkind]
    exact (href.kind_ne hkind).2
  have done {u t : Stack} (tracked : p.state.stack.track l.text = .ok u)
      (checked : u.Checked p.state.methods l.text kind t) : ∃ p u t,
      Progress.steps { state := outline } (script.lines.take k) = .ok p ∧
        p.state.stack.track l.text = .ok u ∧ u.BehindClauses l.text n t ∧
          script.Resolves (script.InView i k) (script.Initialized i k n) access name t := by
    have hu : u.Matches (script.InView i k) script.lineDepth (script.Initialized i k 0) := by
      refine ((ht.inside i j hw hik (Nat.le_of_lt hkj)).track tracked).imp (fun m b => ?_)
        fun _ _ _ => id
      rw [h.depth_of_track hl hp tracked]
      exact and_iff_left_of_imp (lineDepth_le_of_inView h hw hik (Nat.le_of_lt hkj) hl hcloses)
    obtain ⟨t', hbehind, v, hv, hallows⟩ := checked.exists_lookup hkind href
    refine ⟨p, u, t', hp, tracked, hbehind, ?_⟩
    cases hbehind with
    | start => exact hu.resolves hv hallows
    | assigned hk parsed hle hdone =>
      exact (matches_clause hu hik hl hk parsed hle hdone).resolves hv hallows
  cases hstep with
  | enter outside | skip outside =>
    rw [hpw] at outside
    cases outside
  | stay _ tracked checked | leave _ tracked checked => exact done tracked checked

theorem Accepted.resolves_atGlobal (h : script.Accepted outline final) {k n : Nat} {l : Line}
    {access : Access} {name : Text} (hglobal : script.lineDepth k = 1)
    (hl : script.lines[k]? = some l) (href : References l.text n access name) :
    ∃ s u t, State.outlineLines {} (script.lines.take k) = .ok s ∧
      s.stack.track l.text = .ok u ∧ u.BehindClauses l.text n t ∧
        script.Resolves (script.GlobalBefore k) (script.InitializedGlobal k n) access name t := by
  obtain ⟨s, hs, -⟩ := h.exists_outlineLines k
  have hmatches := h.matches_outlineLines (Nat.le_of_lt (List.getElem?_eq_some_iff.1 hl).1) hs
  obtain ⟨kind, s', hkind, -, hout⟩ := h.outlined hl hs
  have done {u t : Stack} (tracked : s.stack.track l.text = .ok u)
      (checked : u.Checked s.methods l.text kind t) : ∃ s u t,
      State.outlineLines {} (script.lines.take k) = .ok s ∧ s.stack.track l.text = .ok u ∧
        u.BehindClauses l.text n t ∧
          script.Resolves (script.GlobalBefore k) (script.InitializedGlobal k n) access name t := by
    obtain ⟨-, hu⟩ := h.matches_tracked hl hs hmatches tracked
    obtain ⟨t', hbehind, v, hv, hallows⟩ := checked.exists_lookup hkind href
    refine ⟨s, u, t', hs, tracked, hbehind, ?_⟩
    cases hbehind with
    | start => exact hu.resolves hv hallows
    | assigned hk parsed hle hdone =>
      exact (matches_globalClause hu hl hk parsed hglobal hle hdone).resolves hv hallows
  cases hout with
  | header => exact absurd rfl (href.kind_ne hkind).1
  | declared tracked _ hdone => exact done tracked (.declaration hdone)
  | assigned tracked _ hdone => exact done tracked (.assignment hdone)
  | passed tracked _ inside =>
    have hdepth := (h.matches_tracked hl hs hmatches tracked).1
    by_cases hcond : kind = .condition
    · subst hcond
      have hpos := h.depthAt_pos k
      rw [lineDepth, depthAt_add_one hl, Braces.shift_of_ending hkind rfl] at hglobal
      omega
    · exact absurd (hdepth.trans hglobal) (inside hcond (href.kind_ne hkind).2)

/-- Accepted scripts are lexically scoped, and read no variable before it has a
value. -/
theorem lexicallyScoped (haccepted : script.verify = .ok final) : script.LexicallyScoped := by
  obtain ⟨outline, h⟩ := exists_accepted haccepted
  constructor
  · intro i j k l n access name hw hik hkj hl href
    obtain ⟨p, u, t, hresolves⟩ := h.resolves_inWindow hw hik hkj hl href
    exact ⟨outline, p, u, t, h.outline_eq, hresolves⟩
  · intro k l n access name hglobal hl href
    exact h.resolves_atGlobal hglobal hl href

/-- A script whose method reads a parameter, a variable of its own and a global
one that is assigned behind the method. -/
theorem lexicallyScoped_shadowing :
    let script : Script :=
      { lines := [⟨1, "int g;".toList⟩, ⟨2, "void f(int a) \x7b".toList⟩, ⟨3, "if (g) \x7b".toList⟩,
          ⟨4, "int g = a;".toList⟩, ⟨5, "a = g;".toList⟩, ⟨6, "\x7d".toList⟩,
          ⟨7, "return;".toList⟩, ⟨8, "\x7d".toList⟩, ⟨9, "g = 1;".toList⟩], length := 9 }
    (∃ final, script.verify = .ok final) ∧ script.LexicallyScoped := by
  intro script
  have hok : script.verify.toOption.isSome = true := by decide +kernel
  cases h : script.verify with
  | error failure =>
    rw [h] at hok
    cases hok
  | ok final => exact ⟨⟨final, rfl⟩, lexicallyScoped h⟩

end Script

end SJava
