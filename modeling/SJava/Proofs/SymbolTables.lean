import SJava.Proofs.Bindings
import SJava.Proofs.Legality
import SJava.Proofs.Values

/-!
# Symbol tables

What the tables hold at every moment of the two walks, on any script, and what a line can
do to the entries that stay.

* `Variable.Sound`, `Stack.Sound`: what a table may hold;
* `Variable.Becomes`, `Stack.Becomes`: what a line makes of the entries; the end of a
  window, `Stack.RestoresTo`, may take values of globals back as well;
* `State.Outlined.sound`, `State.Outlined.becomes`: one line of the first walk;
* `Progress.Sound`: the invariant of the second walk, with the globals that an open window
  goes back to; `Progress.Sound.step`: one line of it;
* `Script.SoundTables`, `Script.soundTables`: both walks over a script.
-/

namespace SJava

/-! ## Entries -/

namespace Variable

variable {u v w : Variable} {x : Text}

/-- What a table may hold under the name `x`: a variable of that name, with a literal of
its type or with none, and with one if it is final. -/
structure Sound (v : Variable) (x : Text) : Prop where
  name_eq : v.name = x
  name_ok : Name.checkVariable x = .ok ()
  valid : v.Valid
  final_init : v.isFinal = true → v.isInitialized = true

/-- The same declaration, with the same value if it is final. -/
structure Agrees (v w : Variable) : Prop where
  ty_eq : v.ty = w.ty
  isFinal_eq : v.isFinal = w.isFinal
  value_eq : v.isFinal = true → v.value = w.value

/-- What a variable may become: it is not declared anew, a final one keeps its value, and
one with a value has one. -/
structure Becomes (v w : Variable) : Prop extends v.Agrees w where
  initialized : v.isInitialized = true → w.isInitialized = true

theorem Agrees.refl (v : Variable) : v.Agrees v := ⟨rfl, rfl, fun _ => rfl⟩

theorem Agrees.symm (h : v.Agrees w) : w.Agrees v where
  ty_eq := h.ty_eq.symm
  isFinal_eq := h.isFinal_eq.symm
  value_eq hw := (h.value_eq (h.isFinal_eq.trans hw)).symm

theorem Agrees.trans (h : u.Agrees v) (h' : v.Agrees w) : u.Agrees w where
  ty_eq := h.ty_eq.trans h'.ty_eq
  isFinal_eq := h.isFinal_eq.trans h'.isFinal_eq
  value_eq hu := (h.value_eq hu).trans (h'.value_eq (h.isFinal_eq ▸ hu))

theorem Becomes.refl (v : Variable) : v.Becomes v := ⟨.refl v, id⟩

theorem Becomes.trans (h : u.Becomes v) (h' : v.Becomes w) : u.Becomes w :=
  ⟨h.toAgrees.trans h'.toAgrees, h'.initialized ∘ h.initialized⟩

/-- Giving a variable a literal of its type. -/
theorem Sound.withValue (h : v.Sound x) {value : Text} (hholds : v.ty.holds value = true) :
    Sound { v with value := some value } x where
  name_eq := h.name_eq
  name_ok := h.name_ok
  valid := by rintro _ ⟨⟩; exact hholds
  final_init _ := rfl

theorem becomes_withValue (hfinal : v.isFinal = false) (value : Text) :
    v.Becomes { v with value := some value } where
  ty_eq := rfl
  isFinal_eq := rfl
  value_eq h := by rw [hfinal] at h; cases h
  initialized _ := rfl

end Variable

/-- The parameters of a method can be declared as variables. -/
theorem Method.sound_parameter {line : Text} {m : Method} (h : ofLine line = .ok m) {v : Variable}
    (hv : v ∈ m.parameters.map Variable.setDefault) : v.Sound v.name := by
  obtain ⟨u, hu, rfl⟩ := List.mem_map.1 hv
  obtain ⟨header, -, h⟩ := bind_eq_ok_iff.1 h
  obtain ⟨parameters, hparameters, h⟩ := bind_eq_ok_iff.1 h
  obtain ⟨_, -, h⟩ := bind_eq_ok_iff.1 h
  cases h
  obtain ⟨p, -, hp⟩ := exists_of_forall₂ (mapM_eq_ok_iff.1 hparameters) hu
  obtain ⟨_, hname, hp⟩ := bind_eq_ok_iff.1 hp
  obtain ⟨ty, -, hp⟩ := bind_eq_ok_iff.1 hp
  cases hp
  exact
    { name_eq := rfl, name_ok := hname, final_init := fun _ => rfl
      valid := by rintro _ ⟨⟩; exact Ty.holds_defaultValue ty }

theorem Stack.Declares.sound {s : Stack} {ty : Ty} {isFinal : Bool} {c : Clause} {v : Variable}
    (h : s.Declares ty isFinal c v) : v.Sound v.name where
  name_eq := rfl
  name_ok := h.name_ok
  valid value hvalue := h.ty_eq ▸ h.holds value hvalue
  final_init hfinal := h.final_init (h.isFinal_eq ▸ hfinal)

/-! ## Tables -/

namespace Scope

/-- A table in which every variable is sound under the name it stands at. -/
def Sound (table : Scope) : Prop := ∀ (x : Text) (v : Variable), table[x]? = some v → v.Sound x

/-- Two tables of the same declarations, with the same values of those that are final. -/
def Agrees (a b : Scope) : Prop := ∀ x : Text, Option.Rel Variable.Agrees a[x]? b[x]?

variable {a b c : Scope}

theorem Agrees.refl (a : Scope) : a.Agrees a := fun x => option_rel_refl .refl a[x]?

theorem Agrees.trans (h : a.Agrees b) (h' : b.Agrees c) : a.Agrees c := fun x =>
  option_rel_trans (h x) (h' x) fun _ _ _ => Variable.Agrees.trans

end Scope

namespace Stack

/-- All that the tables hold is what they may hold. -/
def Sound (s : Stack) : Prop := ∀ d x v, s.entry d x = some v → v.Sound x

/-- What a line makes of the entries in those blocks of `s` that are still open in `t`. -/
def Becomes (s t : Stack) : Prop :=
  ∀ d x v, s.entry d x = some v → d ≤ t.depth → ∃ w, t.entry d x = some w ∧ v.Becomes w

/-- What the end of a window makes of the entries: none is declared anew, a final one
keeps its value, and one that is not global is as it was. -/
def RestoresTo (s t : Stack) : Prop :=
  ∀ d x v, s.entry d x = some v → d ≤ t.depth →
    ∃ w, t.entry d x = some w ∧ v.Agrees w ∧ (d ≠ 1 → w = v)

variable {s t u : Stack} {line : Text}

theorem Sound.globals (h : s.Sound) : s.globals.Sound := fun x v hv =>
  h 1 x v ((s.entry_globals x).trans hv)

theorem Sound.of_entry (h : s.Sound) (hsub : ∀ d x v, t.entry d x = some v → s.entry d x = some v) :
    t.Sound := fun d x v hv => h d x v (hsub d x v hv)

theorem sound_empty : Sound {} := fun d x v hv => by
  rw [entry, tables, List.nil_append, Scope.entry] at hv
  split at hv
  · rw [Std.ExtTreeMap.getElem?_empty] at hv
    cases hv
  · cases hv

theorem becomes_of_entry
    (hkeep : ∀ d x v, s.entry d x = some v → d ≤ t.depth → t.entry d x = some v) : s.Becomes t :=
  fun d x v hv hd => ⟨v, hkeep d x v hv hd, .refl v⟩

theorem Becomes.refl (s : Stack) : s.Becomes s := becomes_of_entry fun _ _ _ hv _ => hv

theorem Becomes.trans (h : s.Becomes t) (h' : t.Becomes u) (hd : u.depth = t.depth) : s.Becomes u := by
  intro d x v hv hdu
  obtain ⟨w, hw, hvw⟩ := h d x v hv (by omega)
  obtain ⟨w', hw', hww'⟩ := h' d x w hw hdu
  exact ⟨w', hw', hvw.trans hww'⟩

/-! ### Braces -/

theorem Sound.track (h : s.Sound) (ht : s.track line = .ok t) : t.Sound := by
  refine h.of_entry fun d x v hv => ?_
  rw [(track_eq_ok ht).2.2] at hv
  split at hv
  · exact hv
  · cases hv

theorem becomes_track (ht : s.track line = .ok t) : s.Becomes t := by
  refine becomes_of_entry fun d x v hv hd => ?_
  rw [(track_eq_ok ht).2.2, if_pos hd]
  exact hv

/-! ### Declarations -/

theorem Sound.declareAll {vs : List Variable} (h : s.Sound) (hvs : ∀ v ∈ vs, v.Sound v.name)
    (ht : s.declareAll vs = (t, none)) : t.Sound := by
  intro d x v hv
  rcases ((entry_declareAll ht).2.2 d x v).1 hv with hold | ⟨-, hmem, rfl⟩
  · exact h d x v hold
  · exact hvs v hmem

theorem becomes_declareAll {vs : List Variable} (ht : s.declareAll vs = (t, none)) : s.Becomes t :=
  becomes_of_entry fun d x v hv _ => ((entry_declareAll ht).2.2 d x v).2 (.inl hv)

theorem Sound.declareLine (h : s.Sound) (ht : s.declareLine line = .ok t) : t.Sound := by
  obtain ⟨_, _, vs, -, -, hvs, hall⟩ := declareLine_eq_ok ht
  refine h.declareAll (fun v hv => ?_) hall
  obtain ⟨_, -, hdeclares⟩ := exists_of_forall₂ hvs hv
  exact hdeclares.sound

theorem becomes_declareLine (ht : s.declareLine line = .ok t) : s.Becomes t := by
  obtain ⟨_, _, _, -, -, -, hall⟩ := declareLine_eq_ok ht
  exact becomes_declareAll hall

theorem Sound.enterMethod {m : Method} (h : s.Sound) (hm : Method.ofLine line = .ok m)
    (ht : s.enterMethod m = (t, none)) : t.Sound :=
  declareAll (s := { s with active := some ⟨m, s.depth⟩ }) h (fun _ => Method.sound_parameter hm) ht

theorem becomes_enterMethod {m : Method} (ht : s.enterMethod m = (t, none)) : s.Becomes t :=
  becomes_declareAll (s := { s with active := some ⟨m, s.depth⟩ }) ht

/-! ### Assignments -/

/-- What statements that declare no globals do to the tables. -/
structure Preserves (s t : Stack) : Prop where
  sound : s.Sound → t.Sound
  becomes : s.Becomes t
  globals : s.globals.Agrees t.globals

theorem Preserves.refl (s : Stack) : s.Preserves s := ⟨id, .refl s, .refl _⟩

theorem Preserves.trans (h : s.Preserves t) (h' : t.Preserves u) (hd : u.depth = t.depth) :
    s.Preserves u :=
  ⟨h'.sound ∘ h.sound, h.becomes.trans h'.becomes hd, h.globals.trans h'.globals⟩

theorem preserves_assign {a : Assignment} (ht : s.assign a = .ok t) : s.Preserves t := by
  obtain ⟨d, v, value, hv, -, hfinal, -, hholds, -, -, hentry⟩ := assign_eq_ok ht
  have hbecomes := Variable.becomes_withValue hfinal value
  refine ⟨fun h e x w hw => ?_, fun e x w hw _ => ?_, fun x => ?_⟩
  · rw [hentry] at hw
    split at hw
    · next htarget =>
      obtain ⟨rfl, rfl⟩ := htarget
      cases hw
      exact (h e _ v hv).withValue hholds
    · exact h e x w hw
  · rw [hentry]
    split
    · next htarget =>
      obtain ⟨rfl, rfl⟩ := htarget
      cases Option.some.inj (hw.symm.trans hv)
      exact ⟨_, rfl, hbecomes⟩
    · exact ⟨w, hw, .refl w⟩
  · rw [← entry_globals, ← entry_globals, hentry]
    split
    · next htarget =>
      obtain ⟨rfl, rfl⟩ := htarget
      rw [hv]
      exact .some hbecomes.toAgrees
    · rw [entry_globals]
      exact Scope.Agrees.refl s.globals x

theorem preserves_assignLine (ht : s.assignLine line = .ok t) : s.Preserves t := by
  obtain ⟨as, -, hall⟩ := assignLine_eq_ok_iff.1 ht
  clear ht
  induction as generalizing s with
  | nil =>
    cases hall
    exact .refl _
  | cons a as ih =>
    rw [List.foldlM_cons] at hall
    obtain ⟨u, hu, hall⟩ := bind_eq_ok_iff.1 hall
    exact (preserves_assign hu).trans (ih hall) (assignAll_keeps hall).1

/-- A statement inside a method. Its declarations are not global. -/
theorem Checked.preserves {methods : Registry} {kind : Kind} (h : u.Checked methods line kind t)
    (hd : kind = .declaration → u.depth ≠ 1) : u.Preserves t := by
  cases h with
  | condition | call | returnStatement | scopeEnd => exact .refl _
  | assignment done => exact preserves_assignLine done
  | declaration done =>
    refine ⟨fun h => h.declareLine done, becomes_declareLine done, ?_⟩
    obtain ⟨_, _, vs, -, -, -, hall⟩ := declareLine_eq_ok done
    have hglobals : t.globals = u.globals := by
      have hsame : (u.declareAll vs).1.globals = u.globals := declareAll_globals (hd rfl)
      rwa [hall] at hsame
    rw [hglobals]
    exact .refl _

end Stack

/-! ## The first walk -/

namespace State

variable {s t : State} {line : Text} {kind : Kind}

theorem Outlined.sound (h : s.Outlined line kind t) (hs : s.stack.Sound) : t.stack.Sound := by
  cases h with
  | header tracked | passed tracked => exact hs.track tracked
  | declared tracked _ done => exact (hs.track tracked).declareLine done
  | assigned tracked _ done => exact (Stack.preserves_assignLine done).sound (hs.track tracked)

theorem Outlined.becomes (h : s.Outlined line kind t) : s.stack.Becomes t.stack := by
  cases h with
  | header tracked | passed tracked => exact Stack.becomes_track tracked
  | declared tracked _ done =>
    exact (Stack.becomes_track tracked).trans (Stack.becomes_declareLine done)
      (Stack.declareLine_keeps done).1
  | assigned tracked _ done =>
    exact (Stack.becomes_track tracked).trans (Stack.preserves_assignLine done).becomes
      (Stack.assignLine_keeps done).1

/-- The tables are sound behind every line of the first walk. -/
theorem sound_outlineLines {ls : List Line} (h : s.outlineLines ls = .ok t) (hs : s.stack.Sound) :
    t.stack.Sound := by
  refine walk_keep (P := (·.stack.Sound)) (fun hs hline => ?_) h hs
  obtain ⟨_, -, hout⟩ := outlineLine_eq_ok hline
  exact hout.sound hs

end State

/-! ## The second walk -/

namespace Progress

variable {p q : Progress} {s t : State} {w : Window} {line : Text} {kind : Kind}

/-- The tables of the second walk are sound, and so is the one that an open window goes
back to, which holds the globals as they were declared. -/
structure Sound (p : Progress) : Prop where
  coherent : p.Coherent
  stack : p.state.stack.Sound
  window : ∀ w, p.window = some w → w.globals.Sound ∧ w.globals.Agrees p.state.stack.globals

/-- Behind a declaration inside a method a block is open. -/
theorem Coherent.depth_ne_one {u : Stack} (hp : p.Coherent) (hw : p.window = some w)
    (hkind : Kind.of line = .ok .declaration) (tracked : p.state.stack.track line = .ok u) :
    u.depth ≠ 1 := by
  obtain ⟨d, htwo, hblock⟩ := hp.inside w hw
  have hle := hblock.le_depth
  rw [(Stack.track_eq_ok tracked).1, Braces.shift, Braces.not_closes_of_ne hkind (by decide),
    if_neg Bool.false_ne_true]
  split <;> omega

/-- A line inside a method. -/
theorem Sound.bodyLine (hp : p.Sound) (hw : p.window = some w)
    (h : p.state.bodyLine line = .ok (t, kind)) :
    t.stack.Sound ∧ p.state.stack.Becomes t.stack ∧ w.globals.Agrees t.stack.globals := by
  obtain ⟨u, stack, hkind, tracked, checked, rfl⟩ := State.bodyLine_eq_ok h
  have hpreserves := checked.preserves fun hdecl =>
    hp.coherent.depth_ne_one hw (hdecl ▸ hkind) tracked
  have hglobals := (hp.window w hw).2
  rw [← Stack.track_globals tracked] at hglobals
  exact ⟨hpreserves.sound (hp.stack.track tracked),
    (Stack.becomes_track tracked).trans hpreserves.becomes checked.keeps.1,
    hglobals.trans hpreserves.globals⟩

/-- The end of a window. -/
theorem restoresTo_of_close (hglobals : w.globals.Agrees s.stack.globals) (h : close s w = .ok q) :
    s.stack.RestoresTo q.state.stack := by
  obtain ⟨-, rfl⟩ := close_eq_ok_iff.1 h
  intro d x v hv _
  show ∃ u, Stack.entry { s.stack with globals := w.globals } d x = some u ∧ _
  rw [Stack.entry_setGlobals]
  split
  · next hone =>
    subst hone
    rw [Stack.entry_globals] at hv
    rcases option_rel_iff.1 (hglobals x) with ⟨-, hnone⟩ | ⟨u, v', hu, hv', hagrees⟩
    · rw [hv] at hnone
      cases hnone
    · cases Option.some.inj (hv.symm.trans hv')
      exact ⟨u, hu, hagrees.symm, fun hne => absurd rfl hne⟩
  · exact ⟨v, hv, .refl v, fun _ => rfl⟩

theorem sound_close (hs : s.stack.Sound) (hw : w.globals.Sound) (h : close s w = .ok q) :
    q.state.stack.Sound := by
  obtain ⟨-, rfl⟩ := close_eq_ok_iff.1 h
  intro d x v hv
  replace hv : Stack.entry { s.stack with globals := w.globals } d x = some v := hv
  rw [Stack.entry_setGlobals] at hv
  split at hv
  · exact hw x v hv
  · exact hs d x v hv

theorem Sound.step (hp : p.Sound) (hkind : Kind.of line = .ok kind) (h : p.Stepped line kind q) :
    q.Sound := by
  have hstep := h.step_eq hkind
  refine ⟨hp.coherent.step hkind h, ?_, fun w hw => ?_⟩
  · cases h with
    | enter _ tracked parsed entered => exact (hp.stack.track tracked).enterMethod parsed entered
    | skip _ tracked => exact hp.stack.track tracked
    | stay inside tracked checked =>
      exact (hp.bodyLine inside (State.bodyLine_of_checked hkind tracked checked)).1
    | @leave w _ _ _ inside tracked checked ends returned =>
      have hs := (hp.bodyLine inside (State.bodyLine_of_checked hkind tracked checked)).1
      exact sound_close (w := w.push kind) hs (hp.window w inside).1
        (close_eq_ok_iff.2 ⟨returned, rfl⟩)
  · cases h with
    | enter _ tracked parsed entered =>
      cases hw
      exact ⟨((hp.stack.track tracked).enterMethod parsed entered).globals, .refl _⟩
    | skip | leave => cases hw
    | stay inside tracked checked =>
      cases hw
      exact ⟨(hp.window _ inside).1,
        (hp.bodyLine inside (State.bodyLine_of_checked hkind tracked checked)).2.2⟩

/-- The tables are sound behind every line of the second walk. -/
theorem Sound.steps {ls : List Line} (hp : p.Sound) (h : p.steps ls = .ok q) : q.Sound := by
  refine walk_keep (P := Sound) (fun hp hline => ?_) h hp
  obtain ⟨_, hkind, hstep⟩ := step_eq_ok hline
  exact hp.step hkind hstep

/-- A line outside of all methods. -/
theorem becomes_outerLine (h : outerLine s line = .ok q) : s.stack.Becomes q.state.stack := by
  have hstep : Progress.step { state := s } line = .ok q := h
  obtain ⟨kind, -, hstepped⟩ := step_eq_ok hstep
  cases hstepped with
  | enter _ tracked _ entered =>
    exact (Stack.becomes_track tracked).trans (Stack.becomes_enterMethod entered)
      (Stack.enterMethod_keeps entered).1
  | skip _ tracked => exact Stack.becomes_track tracked
  | stay inside | leave inside => cases inside

end Progress

/-! ## Whole walks -/

namespace Script

/-- The tables of both walks over the script, in front of its line `k`, and what that line
does to them. -/
structure SoundTables (script : Script) : Prop where
  /-- The first walk. -/
  outlined : ∀ k s, State.outlineLines {} (script.lines.take k) = .ok s →
    s.stack.Sound ∧
      ∀ l t, script.lines[k]? = some l → s.outlineLine l.text = .ok t → s.stack.Becomes t.stack
  /-- The second walk, outside of all methods. -/
  outside : ∀ outline k p, script.outline = .ok outline →
    Progress.steps { state := outline } (script.lines.take k) = .ok p → p.window = none →
      p.state.stack.Sound ∧
        ∀ l q, script.lines[k]? = some l → Progress.outerLine p.state l.text = .ok q →
          p.state.stack.Becomes q.state.stack
  /-- The second walk inside a method, with the globals to go back to, and the end of the
  window where it ends with the line. -/
  inside : ∀ outline k p w, script.outline = .ok outline →
    Progress.steps { state := outline } (script.lines.take k) = .ok p → p.window = some w →
      p.state.stack.Sound ∧ w.globals.Sound ∧
        ∀ l s kind, script.lines[k]? = some l → p.state.bodyLine l.text = .ok (s, kind) →
          p.state.stack.Becomes s.stack ∧ s.stack.Sound ∧
            ∀ q, Progress.close s (w.push kind) = .ok q →
              s.stack.RestoresTo q.state.stack ∧ q.state.stack.Sound

theorem sound_steps {script : Script} {outline : State} {k : Nat} {p : Progress}
    (houtline : script.outline = .ok outline)
    (hp : Progress.steps { state := outline } (script.lines.take k) = .ok p) : p.Sound := by
  have hlines := (outline_eq_ok_iff.1 houtline).1
  have hstart : Progress.Sound { state := outline } :=
    { coherent := coherent_steps houtline (show Progress.steps _ [] = .ok _ from rfl)
      stack := State.sound_outlineLines hlines Stack.sound_empty
      window := nofun }
  exact hstart.steps hp

/-- All tables are sound, and no line spoils an entry. -/
theorem soundTables (script : Script) : script.SoundTables where
  outlined k s hs := by
    refine ⟨State.sound_outlineLines hs Stack.sound_empty, fun l t _ ht => ?_⟩
    obtain ⟨_, -, hout⟩ := State.outlineLine_eq_ok ht
    exact hout.becomes
  outside outline k p houtline hp _ :=
    ⟨(sound_steps houtline hp).stack, fun _ _ _ hq => Progress.becomes_outerLine hq⟩
  inside outline k p w houtline hp hw := by
    have hsound := sound_steps houtline hp
    have hglobals := (hsound.window w hw).1
    refine ⟨hsound.stack, hglobals, fun l s kind _ hline => ?_⟩
    obtain ⟨hs, hbecomes, hagrees⟩ := hsound.bodyLine hw hline
    exact ⟨hbecomes, hs, fun q hq =>
      ⟨Progress.restoresTo_of_close (w := w.push kind) hagrees hq,
        Progress.sound_close (w := w.push kind) hs hglobals hq⟩⟩

/-- What a method does to a global is taken back, even that it has a value. -/
example :
    let script : Script :=
      { lines := [⟨1, "int g;".toList⟩, ⟨2, "void f() \x7b".toList⟩, ⟨3, "g = 1;".toList⟩,
          ⟨4, "return;".toList⟩, ⟨5, "\x7d".toList⟩], length := 5 }
    (script.verify.toOption.bind fun final => final.stack.globals[['g']]?) =
      some ⟨['g'], .int, false, none⟩ := by decide +kernel

end Script

end SJava
