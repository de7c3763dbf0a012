import Mathlib.Data.List.Nodup
import SJava.Proofs.Depth

/-!
# Declarations in view

A stack holds the variables of the declarations in view. Which ones these are is
said by a relation between places in a script and bindings, `Sites`; that the
entries of a stack are those of the sites, each in the block of its declaration, by
`Stack.Matches`.

* `Stack.Matches.lookup`: a name stands for the innermost site of that name;
* `Stack.Matches.track`, `Stack.Matches.declareAll`, `Stack.Matches.assign`: how
  the sites follow the stack.
-/

namespace SJava

/-- What a declaration says of a variable. -/
structure Binding where
  name : Text
  ty : Ty
  isFinal : Bool
  /-- Whether the variable is given a value where it is declared. -/
  hasValue : Bool
  deriving DecidableEq, Repr

/-- The variable is the one that is declared, whatever value it has by now. -/
structure Binding.Describes (b : Binding) (v : Variable) : Prop where
  name_eq : v.name = b.name
  ty_eq : v.ty = b.ty
  isFinal_eq : v.isFinal = b.isFinal

/-- The variable is the one that is declared, with a value only if it is given one
there. -/
structure Binding.Introduces (b : Binding) (v : Variable) : Prop extends b.Describes v where
  init : v.isInitialized = true → b.hasValue = true

/-- Which bindings are in view, by the place of their declaration. -/
abbrev Sites := Nat → Binding → Prop

/-- The binding at place `m` is in view, and all others of its name lie further
out. `depth` tells the depth of the block in which a place declares. -/
structure Innermost (sites : Sites) (depth : Nat → Nat) (m : Nat) (b : Binding) : Prop where
  mem : sites m b
  hides : ∀ m' b', sites m' b' → b'.name = b.name → m' ≠ m → depth m' < depth m

namespace Stack

/-- The entries of the stack are those of the bindings in view. One that has a
value satisfies `init`. -/
structure Matches (s : Stack) (sites : Sites) (depth : Nat → Nat) (init : Sites) : Prop where
  sound : ∀ d x v, s.entry d x = some v →
    ∃ m b, sites m b ∧ depth m = d ∧ b.name = x ∧ b.Describes v ∧ (v.isInitialized = true → init m b)
  complete : ∀ m b, sites m b → ∃ v, s.entry (depth m) b.name = some v
  unique : ∀ m b m' b', sites m b → sites m' b' → b.name = b'.name → depth m = depth m' →
    m = m' ∧ b = b'

namespace Matches

variable {s t : Stack} {sites init : Sites} {depth : Nat → Nat} (h : s.Matches sites depth init)
include h

theorem imp {sites' init' : Sites} (hsites : ∀ m b, sites m b ↔ sites' m b)
    (hinit : ∀ m b, sites m b → init m b → init' m b) : s.Matches sites' depth init' where
  sound d x v hv := by
    obtain ⟨m, b, hm, hd, hx, hb, hi⟩ := h.sound d x v hv
    exact ⟨m, b, (hsites m b).1 hm, hd, hx, hb, hinit m b hm ∘ hi⟩
  complete m b hm := h.complete m b ((hsites m b).2 hm)
  unique m b m' b' hm hm' := h.unique m b m' b' ((hsites m b).2 hm) ((hsites m' b').2 hm')

theorem congr (hentry : ∀ d x, t.entry d x = s.entry d x) : t.Matches sites depth init where
  sound d x v hv := h.sound d x v (hentry d x ▸ hv)
  complete m b hm := hentry (depth m) b.name ▸ h.complete m b hm
  unique := h.unique

/-- A name stands for the innermost binding of that name. -/
theorem lookup {x : Text} {v : Variable} (hx : s.lookup x = some v) :
    ∃ m b, Innermost sites depth m b ∧ b.name = x ∧ b.Describes v ∧
      (v.isInitialized = true → init m b) := by
  obtain ⟨d, hd, hin⟩ := lookup_eq_some_iff.1 hx
  obtain ⟨m, b, hm, hmd, hname, hb, hi⟩ := h.sound d x v hd
  refine ⟨m, b, ⟨hm, fun m' b' hm' hname' hne => ?_⟩, hname, hb, hi⟩
  obtain ⟨v', hv'⟩ := h.complete m' b' hm'
  rw [hname', hname] at hv'
  rcases Nat.lt_trichotomy (depth m') (depth m) with hlt | heq | hgt
  · exact hlt
  · exact absurd (h.unique m' b' m b hm' hm hname' heq).1 hne
  · rw [hin _ (hmd ▸ hgt)] at hv'
    cases hv'

/-- The braces of a line take the bindings of the blocks that they close out of
view. -/
theorem track {line : Text} (ht : s.track line = .ok t) :
    t.Matches (fun m b => sites m b ∧ depth m ≤ t.depth) depth init := by
  obtain ⟨-, -, hentry⟩ := track_eq_ok ht
  refine ⟨fun d x v hv => ?_, fun m b hm => ?_, fun m b m' b' hm hm' => h.unique m b m' b' hm.1 hm'.1⟩
  · have hd := le_depth_of_entry hv
    rw [hentry, if_pos hd] at hv
    obtain ⟨m, b, hm, hmd, hrest⟩ := h.sound d x v hv
    exact ⟨m, b, ⟨hm, hmd ▸ hd⟩, hmd, hrest⟩
  · rw [hentry, if_pos hm.2]
    exact h.complete m b hm.1

/-- Variables that are declared together come into view at their place. -/
theorem declareAll {vs : List Variable} {bs : List Binding} {n : Nat}
    (hvs : List.Forall₂ Binding.Introduces bs vs) (hn : depth n = s.depth)
    (hinit : ∀ b ∈ bs, b.hasValue = true → init n b) (hall : s.declareAll vs = (t, none)) :
    t.Matches (fun m b => sites m b ∨ m = n ∧ b ∈ bs) depth init := by
  obtain ⟨-, -, hentry⟩ := entry_declareAll hall
  obtain ⟨hnodup, hfresh⟩ := declareAll_fresh hall
  have hnames : bs.map (·.name) = vs.map (·.name) := by
    rw [← List.forall₂_eq_eq_eq, List.forall₂_map_left_iff, List.forall₂_map_right_iff]
    exact hvs.imp fun _ _ hb => hb.name_eq.symm
  have hmem (b : Binding) (hb : b ∈ bs) : ∃ v ∈ vs, v.name = b.name := by
    obtain ⟨v, hv, hbv⟩ := exists_of_forall₂ hvs.flip hb
    exact ⟨v, hv, hbv.name_eq⟩
  -- A binding in view has an entry, and what is declared has a free name.
  have hclash (m : Nat) (b b' : Binding) (hm : sites m b) (hb' : b' ∈ bs) (hname : b.name = b'.name)
      (hd : depth m = depth n) : False := by
    obtain ⟨v, hv, hvname⟩ := hmem b' hb'
    obtain ⟨w, hw⟩ := h.complete m b hm
    rw [hd, hn, hname, ← hvname, hfresh v hv] at hw
    cases hw
  refine ⟨fun d x v hv => ?_, fun m b hm => ?_, ?_⟩
  · rcases (hentry d x v).1 hv with hold | ⟨rfl, hnew, rfl⟩
    · obtain ⟨m, b, hm, hrest⟩ := h.sound d x v hold
      exact ⟨m, b, .inl hm, hrest⟩
    · obtain ⟨b, hb, hbv⟩ := exists_of_forall₂ hvs hnew
      exact ⟨n, b, .inr ⟨rfl, hb⟩, hn, hbv.name_eq.symm, hbv.toDescribes, hinit b hb ∘ hbv.init⟩
  · rcases hm with hm | ⟨rfl, hb⟩
    · obtain ⟨v, hv⟩ := h.complete m b hm
      exact ⟨v, (hentry _ _ v).2 (.inl hv)⟩
    · obtain ⟨v, hv, hvname⟩ := hmem b hb
      exact ⟨v, (hentry _ _ v).2 (.inr ⟨hn, hv, hvname⟩)⟩
  · rintro m b m' b' (hm | ⟨rfl, hb⟩) (hm' | ⟨rfl, hb'⟩) hname hd
    · exact h.unique m b m' b' hm hm' hname hd
    · exact (hclash m b b' hm hb' hname hd).elim
    · exact (hclash m' b' b hm' hb hname.symm hd.symm).elim
    · exact ⟨rfl, List.inj_on_of_nodup_map (hnames ▸ hnodup) hb hb' hname⟩

/-- An assignment gives a value to the innermost binding of its target. -/
theorem assign {a : Assignment} (ha : s.assign a = .ok t) :
    ∃ m b, Innermost sites depth m b ∧ b.name = a.target ∧
      t.Matches sites depth fun m' b' => init m' b' ∨ m' = m ∧ b' = b := by
  obtain ⟨d, v, value, hv, hin, -, -, -, -, -, hentry⟩ := assign_eq_ok ha
  obtain ⟨m, b, hinner, hname, hb, hi⟩ := h.lookup (lookup_eq_some_iff.2 ⟨d, hv, hin⟩)
  have hd : depth m = d := by
    obtain ⟨w, hw⟩ := h.complete m b hinner.mem
    obtain ⟨m', b', hm', hd', hname', -⟩ := h.sound d a.target v hv
    by_cases hmm : m' = m
    · exact hmm ▸ hd'
    · have hlt := hinner.hides m' b' hm' (hname'.trans hname.symm) hmm
      rw [hname, hin _ (hd' ▸ hlt)] at hw
      cases hw
  refine ⟨m, b, hinner, hname, fun e x w hw => ?_, fun m' b' hm' => ?_, h.unique⟩
  · rw [hentry] at hw
    split at hw
    · next heq =>
      obtain ⟨rfl, rfl⟩ := heq
      cases hw
      refine ⟨m, b, hinner.mem, hd, hname, ?_, fun _ => .inr ⟨rfl, rfl⟩⟩
      exact ⟨hb.name_eq, hb.ty_eq, hb.isFinal_eq⟩
    · obtain ⟨m', b', hm', hd', hx, hb', hi'⟩ := h.sound e x w hw
      exact ⟨m', b', hm', hd', hx, hb', .inl ∘ hi'⟩
  · rw [hentry]
    split
    · exact ⟨_, rfl⟩
    · exact h.complete m' b' hm'

end Matches

end Stack

end SJava
