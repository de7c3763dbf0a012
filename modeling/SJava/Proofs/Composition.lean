import SJava.Proofs.Readings
import SJava.Proofs.Weakening

/-!
# Sources put together

Two legal sources that share no name of a global variable and no name of a method make a
legal source when they are put one behind the other. The first walk declares the globals
of the second behind those of the first, and the bodies of both are checked with more
globals and methods than before, which does them no harm.

* `Legal.append`: the lines of two legal sources;
* `Content.verify_concat`: the sources themselves.
-/

namespace SJava

open SJava.Tree Reading

/-- The globals of a legal source have names of variables. -/
theorem Legal.isNameLike {lines : List Text} {known : Scope × Registry} (h : Legal lines known) :
    ∀ x ∈ known.1, Name.isNameLike x = true := by
  have hfold {lines : List Text} {globals globals' : Scope}
      (h : lines.foldlM applyLine globals = some globals')
      (hnames : ∀ x ∈ globals, Name.isNameLike x = true) : ∀ x ∈ globals', Name.isNameLike x = true := by
    induction lines generalizing globals with
    | nil =>
      cases h
      exact hnames
    | cons line lines ih =>
      obtain ⟨g, hg, h⟩ := Option.bind_eq_some_iff.1 h
      exact ih h fun x hx => ((applyLine_mem hg).2 x hx).elim (hnames x) id
  exact hfold h.globals fun x hx => absurd hx Std.ExtTreeMap.not_mem_empty

/-- The bodies of a legal source are in order with more globals and methods. -/
theorem Legal.stepped_extend {lines : List Text} {known : Scope × Registry} (h : Legal lines known)
    {extra : Scope} (others : Registry) (hextra : ∀ x ∈ extra, Name.isNameLike x = true) :
    walked Progress.step ⟨outside (extra ∪ known.1, others ∪ known.2), none⟩ lines =
      some ⟨outside (extra ∪ known.1, others ∪ known.2), none⟩ := by
  have hsteps := stepped_eq_some_iff.1 h.bodies
  exact stepped_eq_some_iff.2
    (Progress.steps_extend hextra (Progress.restores_outside known).coherent hsteps)

/-- Legal lines behind legal lines, with other names for their globals and methods. -/
theorem Legal.append {xs ys : List Text} {known known' : Scope × Registry} (hx : Legal xs known)
    (hy : Legal ys known') (hglobals : ∀ x ∈ known.1, x ∉ known'.1)
    (hmethods : ∀ x ∈ known.2, x ∉ known'.2) :
    Legal (xs ++ ys) (known.1 ∪ known'.1, known.2 ∪ known'.2) where
  balanced := by rw [balanceBehind_append, hx.balanced, hy.balanced]
  placed := PlacedAll_append.2 ⟨hx.placed, by rw [hx.closed]; exact hy.placed⟩
  closed := by rw [depthAfter_append, hx.closed, hy.closed]
  globals := by
    have hrest : (globalLines 1 ys).foldlM applyLine (known.1 ∪ ∅) = some (known.1 ∪ known'.1) :=
      (foldlM_extend (f := applyLine) (fun _ _ _ h => (applyLine_mem h).1)
        (fun _ _ _ => applyLine_extend hx.isNameLike) hy.globals fun x hx' hx => hglobals x hx hx').1
    rw [union_empty] at hrest
    rw [globalLines_append, hx.closed, List.foldlM_append, hx.globals]
    exact hrest
  methods := by
    have hrest : ys.foldlM registerLine (known.2 ∪ ∅) = some (known.2 ∪ known'.2) :=
      (foldlM_extend (f := registerLine) (fun _ _ _ => registerLine_mono)
        (fun _ _ _ => registerLine_extend) hy.methods fun x hx' hx => hmethods x hx hx').1
    rw [union_empty] at hrest
    rw [List.foldlM_append, hx.methods]
    exact hrest
  bodies := by
    rw [stepped_outside_append hx.closed]
    refine ⟨?_, hy.stepped_extend known.2 hx.isNameLike⟩
    rw [union_comm_of_disjoint hglobals, union_comm_of_disjoint hmethods]
    exact hx.stepped_extend known'.2 hy.isNameLike

namespace Content

/-- A source that ends in a line feed, with another behind it. -/
inductive IsConcat : Content → Content → Content → Prop
  | text (a b : Text) : IsConcat (.text (a ++ ['\n'])) (.text b) (.text (a ++ '\n' :: b))
  | bytes (a b : List UInt8) : IsConcat (.bytes (a ++ [10])) (.bytes b) (.bytes (a ++ 10 :: b))

variable {marker : Text} {a b c : Content}

theorem IsConcat.physical_eq (h : IsConcat a b c) : c.physical = a.physical ++ b.physical := by
  cases h with
  | text a b =>
    simp only [physical, physicalLines_append_cons, physicalLines_nil, List.append_nil, List.map_append]
  | bytes a b =>
    simp only [physical, physicalLines_append_cons, physicalLines_nil, List.append_nil, List.map_append]

theorem IsConcat.kept_eq (h : IsConcat a b c) : c.kept marker = a.kept marker ++ b.kept marker := by
  rw [kept, h.physical_eq, List.filter_append]
  rfl

/-- Two legal sources, one behind the other, are legal if they share no name of a global
variable and no name of a method. -/
theorem verify_concat {s t : State} (hconcat : IsConcat a b c) (ha : a.verify marker = .ok s)
    (hb : b.verify marker = .ok t) (hglobals : ∀ x ∈ s.stack.globals, x ∉ t.stack.globals)
    (hmethods : ∀ x ∈ s.methods, x ∉ t.methods) :
    ∃ u, c.verify marker = .ok u ∧ u.methods = s.methods ∪ t.methods ∧
      u.stack.globals = s.stack.globals ∪ t.stack.globals := by
  obtain ⟨xs, known, hxs, hx, rfl⟩ := verify_eq_ok_iff_legal.1 ha
  obtain ⟨ys, known', hys, hy, rfl⟩ := verify_eq_ok_iff_legal.1 hb
  have hkept : c.kept marker = (xs ++ ys).map some := by rw [hconcat.kept_eq, hxs, hys, List.map_append]
  have hlegal : Legal ((xs ++ ys).map lineText) (known.1 ∪ known'.1, known.2 ∪ known'.2) := by
    rw [List.map_append]
    exact hx.append hy hglobals hmethods
  exact ⟨_, verify_eq_ok_iff_legal.2 ⟨xs ++ ys, _, hkept, hlegal, rfl⟩, rfl, rfl⟩

/-- The names of the globals of either source may be those of parameters and local
variables of the other. -/
theorem verify_concat_shadowing :
    let x : Text := "int a = 1;\nvoid f(int b) \x7b\nint c = a;\nreturn;\n\x7d".toList
    let y : Text := "double b = 2;\nchar c;\nvoid g(boolean a) \x7b\na = b;\nreturn;\n\x7d\n".toList
    ∃ s t u, (text (x ++ ['\n'])).verify "//".toList = .ok s ∧ (text y).verify "//".toList = .ok t ∧
      (∀ x ∈ s.stack.globals, x ∉ t.stack.globals) ∧ (∀ x ∈ s.methods, x ∉ t.methods) ∧
      (text (x ++ '\n' :: y)).verify "//".toList = .ok u ∧ u.methods = s.methods ∪ t.methods ∧
      u.stack.globals = s.stack.globals ∪ t.stack.globals := by
  intro x y
  let names (s : State) := (s.stack.globals.keys, s.methods.keys)
  have hx : ((text (x ++ ['\n'])).verify "//".toList).toOption.map names = some ([['a']], [['f']]) := by
    decide +kernel
  have hy : ((text y).verify "//".toList).toOption.map names = some ([['b'], ['c']], [['g']]) := by
    decide +kernel
  obtain ⟨s, hs, hnames⟩ := toOption_map_eq_some_iff.1 hx
  obtain ⟨t, ht, hnames'⟩ := toOption_map_eq_some_iff.1 hy
  obtain ⟨hsg, hsm⟩ := Prod.mk.inj hnames
  obtain ⟨htg, htm⟩ := Prod.mk.inj hnames'
  have hglobals : ∀ x ∈ s.stack.globals, x ∉ t.stack.globals := by
    simp only [← Std.ExtTreeMap.mem_keys, hsg, htg]
    decide
  have hmethods : ∀ x ∈ s.methods, x ∉ t.methods := by
    simp only [← Std.ExtTreeMap.mem_keys, hsm, htm]
    decide
  obtain ⟨u, hu, hum, hug⟩ := verify_concat (.text x y) hs ht hglobals hmethods
  exact ⟨s, t, u, hs, ht, hglobals, hmethods, hu, hum, hug⟩

end Content

end SJava
