import SJava.Proofs.Bindings
import SJava.Proofs.Windows

/-!
# Declarations of a script

Where the variables of a script are declared and assigned, told by the text alone,
and which declarations are in view on a line. The depth of a line is the one it is
checked at, behind its braces: `Script.lineDepth`.

* `Script.GlobalBefore`, `Script.InView`: the declarations in view on a line outside
  of methods, and on one of a window;
* `Script.InitializedGlobal`, `Script.Initialized`: those of them that have a value;
* `Script.Accepted.matches_outline`: the first walk keeps to the global ones;
* `Script.Accepted.tracks`: the second walk keeps to those in view.
-/

namespace SJava

/-- What a method says of its parameters, which have a value from the start. -/
def Method.bindings (m : Method) : List Binding :=
  m.parameters.map fun v => ⟨v.name, v.ty, v.isFinal, true⟩

/-- What a declaration of variables of type `ty` says of them. -/
def Declaration.bindings (d : Declaration) (ty : Ty) : List Binding :=
  d.clauses.map fun c => ⟨c.name, ty, d.isFinal, c.value.isSome⟩

namespace Script

/-- The depth at which a line is checked. -/
def lineDepth (script : Script) (m : Nat) : Nat := script.depthAt (m + 1)

/-- The header at place `i` has that parameter. -/
def HasParameter (script : Script) (i : Nat) (b : Binding) : Prop :=
  ∃ l method, script.lines[i]? = some l ∧ Kind.of l.text = .ok .methodHeader ∧
    Method.ofLine l.text = .ok method ∧ b ∈ method.bindings

/-- A clause on the line at place `m` makes that declaration. -/
def Declares (script : Script) (m : Nat) (b : Binding) : Prop :=
  ∃ l d ty, script.lines[m]? = some l ∧ Kind.of l.text = .ok .declaration ∧
    Declaration.ofLine l.text = .ok d ∧ Ty.ofKeyword d.typeToken = .ok ty ∧ b ∈ d.bindings ty

/-- The assignment at place `n` of the line at place `k` has that target. -/
def Assigns (script : Script) (k n : Nat) (target : Text) : Prop :=
  ∃ l as a, script.lines[k]? = some l ∧ Kind.of l.text = .ok .assignment ∧
    Assignment.allOfLine l.text = .ok as ∧ as[n]? = some a ∧ a.target = target

/-- The clause `n'` of line `k'` comes before the clause `n` of line `k`. -/
def ClauseBefore (k' n' k n : Nat) : Prop := k' < k ∨ k' = k ∧ n' < n

/-- The declarations at depth 1 in front of line `k`. -/
def GlobalBefore (script : Script) (k : Nat) : Sites := fun m b =>
  m < k ∧ script.Declares m b ∧ script.lineDepth m = 1

/-- The declarations in view on line `k` of a window whose header is at place
`i`. -/
inductive InView (script : Script) (i k : Nat) : Sites
  /-- A parameter of the method. -/
  | parameter {b : Binding} (has : script.HasParameter i b) : InView script i k i b
  /-- One on an earlier line of the window, whose block is still open. -/
  | enclosing {m : Nat} {b : Binding} (behind : i < m) (before : m < k)
      (declares : script.Declares m b)
      (isOpen : ∀ n, m < n → n ≤ k → script.lineDepth m ≤ script.depthAt n) : InView script i k m b
  /-- One at depth 1 anywhere in the script. -/
  | global {m : Nat} {b : Binding} (declares : script.Declares m b)
      (atGlobal : script.lineDepth m = 1) : InView script i k m b

/-- The global variable that is declared at place `m` has a value in front of the
clause `n` of the global line `k`. -/
inductive InitializedGlobal (script : Script) (k n : Nat) : Sites
  | declared {m : Nat} {b : Binding} (hasValue : b.hasValue = true) : InitializedGlobal script k n m b
  | assigned {m k' n' : Nat} {b : Binding} (later : m < k') (before : ClauseBefore k' n' k n)
      (atGlobal : script.lineDepth k' = 1) (target : script.Assigns k' n' b.name) :
      InitializedGlobal script k n m b

/-- The variable that is declared at place `m` has a value in front of the clause
`n` of the line `k`, in the window of the header at place `i`. -/
inductive Initialized (script : Script) (i k n : Nat) : Sites
  /-- It is given one where it is declared. -/
  | declared {m : Nat} {b : Binding} (hasValue : b.hasValue = true) : Initialized script i k n m b
  /-- It is assigned earlier in the window. -/
  | assigned {m k' n' : Nat} {b : Binding} (behind : i < k') (before : ClauseBefore k' n' k n)
      (target : script.Assigns k' n' b.name)
      (same : Innermost (script.InView i k') script.lineDepth m b) : Initialized script i k n m b
  /-- It is a global one, and assigned at depth 1 anywhere behind its declaration. -/
  | global {m k' n' : Nat} {b : Binding} (isGlobal : script.lineDepth m = 1) (later : m < k')
      (atGlobal : script.lineDepth k' = 1) (target : script.Assigns k' n' b.name) :
      Initialized script i k n m b

variable {script : Script} {i j k n m : Nat} {b : Binding}

theorem ClauseBefore.mono {k' n' : Nat} (h : ClauseBefore k' n' k n) {l o : Nat}
    (hle : k < l ∨ k = l ∧ n ≤ o) : ClauseBefore k' n' l o := by
  unfold ClauseBefore at h ⊢
  omega

theorem InitializedGlobal.mono (h : script.InitializedGlobal k n m b) {l o : Nat}
    (hle : k < l ∨ k = l ∧ n ≤ o) : script.InitializedGlobal l o m b := by
  cases h with
  | declared hasValue => exact .declared hasValue
  | assigned later before atGlobal target => exact .assigned later (before.mono hle) atGlobal target

theorem Initialized.mono (h : script.Initialized i k n m b) {l o : Nat}
    (hle : k < l ∨ k = l ∧ n ≤ o) : script.Initialized i l o m b := by
  cases h with
  | declared hasValue => exact .declared hasValue
  | assigned behind before target same => exact .assigned behind (before.mono hle) target same
  | global isGlobal later atGlobal target => exact .global isGlobal later atGlobal target

theorem Declares.lt_length (h : script.Declares m b) : m < script.lines.length := by
  obtain ⟨l, -, -, hl, -⟩ := h
  exact (List.getElem?_eq_some_iff.1 hl).1

/-- Only declarations declare. -/
theorem Declares.kind_eq (h : script.Declares m b) {l : Line} {kind : Kind}
    (hl : script.lines[m]? = some l) (hkind : Kind.of l.text = .ok kind) : kind = .declaration := by
  obtain ⟨l', -, -, hl', hkind', -⟩ := h
  cases Option.some.inj (hl.symm.trans hl')
  exact Except.ok.inj (hkind.symm.trans hkind')

theorem declares_iff {l : Line} {d : Declaration} {ty : Ty} (hl : script.lines[m]? = some l)
    (hkind : Kind.of l.text = .ok .declaration) (hd : Declaration.ofLine l.text = .ok d)
    (hty : Ty.ofKeyword d.typeToken = .ok ty) : script.Declares m b ↔ b ∈ d.bindings ty := by
  constructor
  · rintro ⟨l', d', ty', hl', -, hd', hty', hb⟩
    cases Option.some.inj (hl.symm.trans hl')
    cases Except.ok.inj (hd.symm.trans hd')
    cases Except.ok.inj (hty.symm.trans hty')
    exact hb
  · exact fun hb => ⟨l, d, ty, hl, hkind, hd, hty, hb⟩

theorem globalBefore_add_one : script.GlobalBefore (k + 1) m b ↔
    script.GlobalBefore k m b ∨ m = k ∧ script.Declares k b ∧ script.lineDepth k = 1 := by
  constructor
  · rintro ⟨hlt, hm⟩
    rcases Nat.lt_succ_iff_lt_or_eq.1 hlt with hlt | rfl
    · exact .inl ⟨hlt, hm⟩
    · exact .inr ⟨rfl, hm⟩
  · rintro (hm | ⟨rfl, hm⟩)
    · exact ⟨Nat.lt_succ_of_lt hm.1, hm.2⟩
    · exact ⟨Nat.lt_succ_self m, hm⟩

end Script

/-! ## Statements -/

/-- The variables of a declaration are the ones it says. -/
theorem Declaration.introduces {s : Stack} {d : Declaration} {ty : Ty} {vs : List Variable}
    (h : List.Forall₂ (s.Declares ty d.isFinal) d.clauses vs) :
    List.Forall₂ Binding.Introduces (d.bindings ty) vs := by
  rw [Declaration.bindings, List.forall₂_map_left_iff]
  exact h.imp fun c v hv =>
    { name_eq := hv.name_eq, ty_eq := hv.ty_eq, isFinal_eq := hv.isFinal_eq
      init := fun hi => hv.init ▸ hi }

theorem Method.introduces (m : Method) :
    List.Forall₂ Binding.Introduces m.bindings (m.parameters.map Variable.setDefault) := by
  rw [Method.bindings, List.forall₂_map_left_iff, List.forall₂_map_right_iff, List.forall₂_same]
  exact fun v _ => { name_eq := rfl, ty_eq := rfl, isFinal_eq := rfl, init := fun _ => rfl }

namespace Stack.Matches

variable {u t : Stack} {sites : Sites} {depth : Nat → Nat}

/-- A declaration line brings its declarations into view. -/
theorem declareLine {script : Script} {k : Nat} {l : Line} {init : Sites}
    (h : u.Matches sites depth init) (hl : script.lines[k]? = some l)
    (hkind : Kind.of l.text = .ok .declaration) (hdone : u.declareLine l.text = .ok t)
    (hdepth : depth k = u.depth) (hinit : ∀ b : Binding, b.hasValue = true → init k b) :
    t.Matches (fun m b => sites m b ∨ m = k ∧ script.Declares k b) depth init := by
  obtain ⟨d, ty, vs, hd, hty, hvs, hall⟩ := declareLine_eq_ok hdone
  have hdeclared := h.declareAll (Declaration.introduces hvs) hdepth (fun b _ => hinit b) hall
  refine hdeclared.imp ?_ fun _ _ _ => id
  intro m b
  rw [Script.declares_iff hl hkind hd hty]

/-- The assignments of a line give values to the innermost bindings of their
targets, one after the other. -/
theorem assignAll {init : Nat → Sites} {as : List Assignment} (h : u.Matches sites depth (init 0))
    (hmono : ∀ n m b, init n m b → init (n + 1) m b)
    (hassign : ∀ n a m b, as[n]? = some a → Innermost sites depth m b → b.name = a.target →
      init (n + 1) m b)
    {n : Nat} (hn : n ≤ as.length) (hdone : (as.take n).foldlM Stack.assign u = .ok t) :
    t.Matches sites depth (init n) := by
  induction n generalizing t with
  | zero =>
    cases hdone
    exact h
  | succ n ih =>
    have ha : as[n]? = some as[n] := List.getElem?_eq_getElem _
    obtain ⟨s, hs, hs'⟩ := (foldlM_take_add_one_eq_ok ha).1 hdone
    obtain ⟨m, b, hinner, hname, ht⟩ := (ih (Nat.le_of_succ_le hn) hs).assign hs'
    refine ht.imp (fun _ _ => Iff.rfl) fun m' b' _ hi => ?_
    rcases hi with hi | ⟨rfl, rfl⟩
    · exact hmono n m' b' hi
    · exact hassign n _ m' b' ha hinner hname

end Stack.Matches

/-! ## The first walk -/

namespace Script

theorem matches_globalClause {script : Script} {k n : Nat} {l : Line} {u t : Stack}
    {as : List Assignment}
    (hu : u.Matches (script.GlobalBefore k) script.lineDepth (script.InitializedGlobal k 0))
    (hl : script.lines[k]? = some l) (hkind : Kind.of l.text = .ok .assignment)
    (has : Assignment.allOfLine l.text = .ok as) (hglobal : script.lineDepth k = 1)
    (hn : n ≤ as.length) (hdone : (as.take n).foldlM Stack.assign u = .ok t) :
    t.Matches (script.GlobalBefore k) script.lineDepth (script.InitializedGlobal k n) := by
  refine hu.assignAll (fun n m b hi => hi.mono (.inr ⟨rfl, Nat.le_succ n⟩)) ?_ hn hdone
  intro n a m b ha hinner hname
  exact .assigned hinner.mem.1 (.inr ⟨rfl, Nat.lt_succ_self n⟩) hglobal
    ⟨l, as, a, hl, hkind, has, ha, hname.symm⟩

namespace Accepted

variable {script : Script} {outline final : State} (h : script.Accepted outline final)
include h

/-- Behind the braces of a line, the first walk still has the same declarations in
view. -/
theorem matches_tracked {k : Nat} {l : Line} (hl : script.lines[k]? = some l) {s : State}
    (hs : State.outlineLines {} (script.lines.take k) = .ok s)
    (hmatches : s.stack.Matches (script.GlobalBefore k) script.lineDepth
      (script.InitializedGlobal k 0)) {u : Stack} (tracked : s.stack.track l.text = .ok u) :
    u.depth = script.lineDepth k ∧
      u.Matches (script.GlobalBefore k) script.lineDepth (script.InitializedGlobal k 0) := by
  obtain ⟨s', hs', hd⟩ := h.exists_outlineLines k
  cases Except.ok.inj (hs.symm.trans hs')
  refine ⟨?_, (hmatches.track tracked).imp (fun m b => ⟨And.left, fun hm => ⟨hm, ?_⟩⟩) fun _ _ _ => id⟩
  · rw [(Stack.track_eq_ok tracked).1, hd, lineDepth, depthAt_add_one hl]
  · rw [hm.2.2]
    exact u.depth_pos

/-- In front of every line, the first walk has the global declarations before it in
view. -/
theorem matches_outlineLines {k : Nat} (hk : k ≤ script.lines.length) {s : State}
    (hs : State.outlineLines {} (script.lines.take k) = .ok s) :
    s.stack.Matches (script.GlobalBefore k) script.lineDepth (script.InitializedGlobal k 0) := by
  refine outlineLines_take_induction (P := fun k s => s.stack.Matches (script.GlobalBefore k)
    script.lineDepth (script.InitializedGlobal k 0)) ?_ ?_ hk hs
  · have hempty (d : Nat) (x : Text) : ({} : State).stack.entry d x = none := by
      simp [Stack.entry, Stack.tables, Scope.entry]
    exact
      { sound := fun d x v hv => by
          rw [hempty] at hv
          cases hv
        complete := fun m b hm => absurd hm.1 (Nat.not_lt_zero m)
        unique := fun m b _ _ hm => absurd hm.1 (Nat.not_lt_zero m) }
  · intro k l s t kind hl hs hkind hout ih
    have hbehind {u : Stack} (tracked : s.stack.track l.text = .ok u) :=
      h.matches_tracked hl hs ih tracked
    have hinit (n : Nat) (m : Nat) (b : Binding) (hi : script.InitializedGlobal k n m b) :
        script.InitializedGlobal (k + 1) 0 m b := hi.mono (.inl (Nat.lt_succ_self k))
    -- A line that declares nothing globally brings nothing into view.
    have hnothing {u : Stack} {n : Nat}
        (hu : u.Matches (script.GlobalBefore k) script.lineDepth (script.InitializedGlobal k n))
        (hno : kind = .declaration → script.lineDepth k ≠ 1) :
        u.Matches (script.GlobalBefore (k + 1)) script.lineDepth
          (script.InitializedGlobal (k + 1) 0) := by
      refine hu.imp (fun m b => ?_) fun m b _ => hinit n m b
      rw [globalBefore_add_one, or_iff_left]
      rintro ⟨-, hm, hd⟩
      exact hno (hm.kind_eq hl hkind) hd
    cases hout with
    | header tracked => exact hnothing (hbehind tracked).2 Kind.noConfusion
    | passed tracked notHeader inside =>
      obtain ⟨hdepth, hu⟩ := hbehind tracked
      refine hnothing hu ?_
      rintro rfl
      exact hdepth ▸ inside (by decide) (by decide)
    | declared tracked atGlobal done =>
      obtain ⟨hdepth, hu⟩ := hbehind tracked
      refine (hu.declareLine hl hkind done hdepth.symm fun b hb => .declared hb).imp (fun m b => ?_)
        fun m b _ => hinit 0 m b
      rw [globalBefore_add_one, ← hdepth, and_iff_left atGlobal]
    | assigned tracked atGlobal done =>
      obtain ⟨hdepth, hu⟩ := hbehind tracked
      obtain ⟨as, has, hall⟩ := Stack.assignLine_eq_ok_iff.1 done
      rw [← List.take_length (l := as)] at hall
      exact hnothing
        (matches_globalClause hu hl hkind has (hdepth ▸ atGlobal) (Nat.le_refl _) hall) Kind.noConfusion

end Accepted

end Script

end SJava
