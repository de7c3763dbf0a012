import SJava.Proofs.Readings

/-!
# Methods may stand in any order

The lines of a source that are not skipped are taken as a sequence of segments: lines
that open and close nothing, and methods from their header to the line that closes
their block. A rearrangement keeps the single lines in their order and puts the methods
anywhere. It changes nothing: whether every line is placed, and whether every body is
in order, is a matter of each segment alone; the globals depend on the single lines
only, and methods can be registered in any order.

* `Segment.placedAll_iff`, `Segment.foldlM_applyLine`, `Segment.stepped_iff`: the
  parts of a legal source, segment by segment;
* `foldlM_registerLine_perm`: registering is commutative;
* `Content.verify_rearranged`: a source and its rearrangement are both legal, with the
  same globals and methods, or both not.
-/

namespace SJava

open SJava.Tree Reading

/-! ## Segments -/

/-- The physical lines of a method: its header, and the lines up to the first one
behind which the depth is 1 again. -/
structure MethodChunk where
  header : Text
  rest : List Text
  isHeader : Kind.of (lineText header) = .ok .methodHeader
  inside : ∀ n < rest.length, depthAfter 1 ((header :: rest.take n).map lineText) ≠ 1
  closed : depthAfter 1 ((header :: rest).map lineText) = 1

/-- A piece of a source, by its physical lines. -/
inductive Segment where
  | single (raw : Text) (opensNot : Braces.opens (lineText raw) = false)
      (closesNot : Braces.closes (lineText raw) = false)
  | method (chunk : MethodChunk)

namespace Segment

/-- Whether the segment is a line outside of methods. -/
def isSingle : Segment → Bool
  | single .. => true
  | method _ => false

/-- The physical lines of a segment. -/
def raws : Segment → List Text
  | single raw .. => [raw]
  | method chunk => chunk.header :: chunk.rest

/-- What the lines of a segment hold to be checked. -/
def texts (x : Segment) : List Text := x.raws.map lineText

theorem depthAfter_texts (x : Segment) : depthAfter 1 x.texts = 1 := by
  cases x with
  | single raw opensNot closesNot =>
    show Braces.shift (lineText raw) 1 = 1
    simp [Braces.shift, opensNot, closesNot]
  | method chunk => exact chunk.closed

theorem depthAfter_flatMap (xs : List Segment) : depthAfter 1 (xs.flatMap texts) = 1 := by
  induction xs with
  | nil => rfl
  | cons x xs ih => rw [List.flatMap_cons, depthAfter_append, x.depthAfter_texts, ih]

/-! ## Part by part -/

theorem placedAll_iff (xs : List Segment) :
    PlacedAll 1 (xs.flatMap texts) ↔ ∀ x ∈ xs, PlacedAll 1 x.texts := by
  induction xs with
  | nil => simp [PlacedAll]
  | cons x xs ih =>
    rw [List.flatMap_cons, PlacedAll_append, x.depthAfter_texts, ih, List.forall_mem_cons]

theorem stepped_iff (known : Scope × Registry) (xs : List Segment) :
    walked Progress.step ⟨outside known, none⟩ (xs.flatMap texts) = some ⟨outside known, none⟩ ↔
      ∀ x ∈ xs, walked Progress.step ⟨outside known, none⟩ x.texts = some ⟨outside known, none⟩ := by
  induction xs with
  | nil => simp [walked]
  | cons x xs ih =>
    rw [List.flatMap_cons, stepped_outside_append x.depthAfter_texts, ih, List.forall_mem_cons]

end Segment

/-! ### Globals -/

/-- A line that closes a block does nothing to the globals. -/
theorem applyLine_of_closes {globals : Scope} {line : Text} (h : Braces.closes line = true) :
    applyLine globals line = some globals := by
  rw [applyLine]
  split
  · next kind hkind =>
    obtain rfl := (Braces.closes_iff_scopeEnd hkind).1 h
    rfl
  · rfl

/-- Only the last line of a block leads out of it. -/
theorem globalLines_of_inside {d : Nat} {lines : List Text} (hd : 1 < d)
    (hinside : ∀ n < lines.length, depthAfter d (lines.take n) ≠ 1) (hclosed : depthAfter d lines = 1) :
    ∃ last, globalLines d lines = [last] ∧ Braces.closes last = true := by
  induction lines generalizing d with
  | nil => exact absurd hclosed (by rw [depthAfter_nil]; omega)
  | cons line rest ih =>
    have hbounds := Braces.shift_bounds line d
    by_cases hshift : Braces.shift line d = 1
    · cases rest with
      | nil =>
        refine ⟨line, by simp [globalLines, hshift], ?_⟩
        by_contra hcloses
        rw [Braces.shift, if_neg hcloses] at hshift
        split at hshift <;> omega
      | cons _ _ => exact absurd hshift (hinside 1 (by simp))
    · have hrest (n : Nat) (hn : n < rest.length) :
          depthAfter (Braces.shift line d) (rest.take n) ≠ 1 := hinside (n + 1) (by simpa using hn)
      obtain ⟨last, hlast, hcloses⟩ := ih (by omega) hrest hclosed
      exact ⟨last, by simp [globalLines, hshift, hlast], hcloses⟩

theorem MethodChunk.globalLines_texts (chunk : MethodChunk) :
    ∃ last, globalLines 1 (Segment.method chunk).texts = [last] ∧ Braces.closes last = true := by
  have hshift : Braces.shift (lineText chunk.header) 1 = 2 := Braces.shift_of_ending chunk.isHeader rfl 1
  obtain ⟨last, hlast, hcloses⟩ : ∃ last, globalLines 2 (chunk.rest.map lineText) = [last] ∧
      Braces.closes last = true := by
    refine globalLines_of_inside (by decide) (fun n hn => ?_) ?_
    · rw [← List.map_take, ← hshift]
      exact chunk.inside n (by simpa using hn)
    · rw [← hshift]
      exact chunk.closed
  refine ⟨last, ?_, hcloses⟩
  rw [Segment.texts, Segment.raws, List.map_cons, globalLines, hshift, hlast]
  rfl

/-- The globals are the work of the single lines. -/
theorem Segment.foldlM_applyLine (globals : Scope) (xs : List Segment) :
    (globalLines 1 (xs.flatMap texts)).foldlM applyLine globals =
      ((xs.filter isSingle).flatMap texts).foldlM applyLine globals := by
  induction xs generalizing globals with
  | nil => rfl
  | cons x xs ih =>
    rw [List.flatMap_cons, globalLines_append, x.depthAfter_texts, List.foldlM_append, funext ih]
    cases x with
    | single raw opensNot closesNot =>
      have hglobal : globalLines 1 (single raw opensNot closesNot).texts = [lineText raw] := by
        simp [texts, raws, globalLines, Braces.shift, opensNot, closesNot]
      rw [hglobal, List.filter_cons_of_pos rfl, List.flatMap_cons, List.foldlM_append]
      rfl
    | method chunk =>
      obtain ⟨last, hlast, hcloses⟩ := chunk.globalLines_texts
      rw [hlast, List.foldlM_cons, applyLine_of_closes hcloses, List.filter_cons_of_neg Bool.false_ne_true]
      rfl

/-! ### Methods -/

theorem register?_comm (methods : Registry) (m n : Method) :
    (register? methods m).bind (register? · n) = (register? methods n).bind (register? · m) := by
  simp only [register?]
  by_cases hname : m.name = n.name
  · by_cases hm : n.name ∈ methods <;> simp [hname, hm]
  · have hswap : (methods.insert m.name m).insert n.name n = (methods.insert n.name n).insert m.name m := by
      refine Std.ExtTreeMap.ext_getElem? fun x => ?_
      grind
    by_cases hm : m.name ∈ methods <;> by_cases hn : n.name ∈ methods <;>
      simp [hm, hn, hname, Ne.symm hname, hswap]

theorem registerLine_comm (methods : Registry) (x y : Text) :
    (registerLine methods x).bind (registerLine · y) = (registerLine methods y).bind (registerLine · x) := by
  rcases registerLine_cases x with hx | hx | ⟨m, hx⟩ <;>
    rcases registerLine_cases y with hy | hy | ⟨n, hy⟩ <;>
      simp only [hx, hy, Option.bind_some, Option.bind_none, Option.bind_fun_none, Option.bind_fun_some]
  exact register?_comm methods m n

/-- Lines register the same methods in any order. -/
theorem foldlM_registerLine_perm {xs ys : List Text} (h : xs.Perm ys) (methods : Registry) :
    xs.foldlM registerLine methods = ys.foldlM registerLine methods := by
  induction h generalizing methods with
  | nil => rfl
  | cons x _ ih => rw [List.foldlM_cons, List.foldlM_cons, funext ih]
  | swap x y l =>
    have hcomm := registerLine_comm methods y x
    simp only [List.foldlM_cons, Option.bind_eq_bind, ← Option.bind_assoc, hcomm]
  | trans _ _ ih ih' => exact (ih methods).trans (ih' methods)

/-! ## Rearranging -/

/-- Rearranged lines are legal when the lines are. -/
theorem Legal.rearrange {xs ys : List Segment} {known : Scope × Registry}
    (h : Legal (xs.flatMap Segment.texts) known) (hperm : xs.Perm ys)
    (hsingles : xs.filter Segment.isSingle = ys.filter Segment.isSingle) :
    Legal (ys.flatMap Segment.texts) known := by
  have htexts := hperm.flatMap_right Segment.texts
  exact
    { balanced := by
        rw [balanceBehind, ← htexts.foldl_eq' fun _ _ _ _ _ => by omega]
        exact h.balanced
      placed := (Segment.placedAll_iff ys).2 fun y hy =>
        (Segment.placedAll_iff xs).1 h.placed y (hperm.mem_iff.2 hy)
      closed := Segment.depthAfter_flatMap ys
      globals := by
        rw [Segment.foldlM_applyLine, ← hsingles, ← Segment.foldlM_applyLine]
        exact h.globals
      methods := by
        rw [← foldlM_registerLine_perm htexts]
        exact h.methods
      bodies := (Segment.stepped_iff known ys).2 fun y hy =>
        (Segment.stepped_iff known xs).1 h.bodies y (hperm.mem_iff.2 hy) }

namespace Content

variable {marker : Text} {c c' : Content} {xs ys : List Segment}

theorem verify_of_rearranged {s : State} (hc : c.kept marker = (xs.flatMap Segment.raws).map some)
    (hc' : c'.kept marker = (ys.flatMap Segment.raws).map some) (hperm : xs.Perm ys)
    (hsingles : xs.filter Segment.isSingle = ys.filter Segment.isSingle)
    (h : c.verify marker = .ok s) : c'.verify marker = .ok s := by
  have htexts (zs : List Segment) : (zs.flatMap Segment.raws).map lineText = zs.flatMap Segment.texts :=
    List.map_flatMap
  obtain ⟨raws, known, hraws, hlegal, rfl⟩ := verify_eq_ok_iff_legal.1 h
  obtain rfl : xs.flatMap Segment.raws = raws :=
    (List.map_inj_right fun _ _ => Option.some.inj).1 (hc.symm.trans hraws)
  rw [htexts] at hlegal
  exact verify_eq_ok_iff_legal.2
    ⟨_, known, hc', (htexts ys).symm ▸ hlegal.rearrange hperm hsingles, rfl⟩

/-- A source and its rearrangement are both legal, with the same globals and methods, or
both not. -/
theorem verify_rearranged (hc : c.kept marker = (xs.flatMap Segment.raws).map some)
    (hc' : c'.kept marker = (ys.flatMap Segment.raws).map some) (hperm : xs.Perm ys)
    (hsingles : xs.filter Segment.isSingle = ys.filter Segment.isSingle) :
    ((∃ s, c.verify marker = .ok s) ↔ ∃ s, c'.verify marker = .ok s) ∧
      ∀ s s', c.verify marker = .ok s → c'.verify marker = .ok s' →
        s.methods = s'.methods ∧ s.stack.globals = s'.stack.globals := by
  have hto {s : State} := verify_of_rearranged (s := s) hc hc' hperm hsingles
  have hfrom {s : State} := verify_of_rearranged (s := s) hc' hc hperm.symm hsingles.symm
  refine ⟨exists_congr fun s => ⟨hto, hfrom⟩, fun s s' hs hs' => ?_⟩
  obtain rfl : s = s' := Except.ok.inj ((hto hs).symm.trans hs')
  exact ⟨rfl, rfl⟩

/-- A method that calls another, and the other, with a global variable between
them. -/
theorem verify_rearranged_forwardCall :
    let f : MethodChunk :=
      { header := "void f() \x7b".toList
        rest := ["g(a);".toList, "return;".toList, "\x7d".toList]
        isHeader := by decide +kernel
        inside := by decide +kernel
        closed := by decide +kernel }
    let g : MethodChunk :=
      { header := "void g(int n) \x7b".toList
        rest := ["if (n) \x7b".toList, "n = 2;".toList, "\x7d".toList, "return;".toList, "\x7d".toList]
        isHeader := by decide +kernel
        inside := by decide +kernel
        closed := by decide +kernel }
    let a : Segment := .single "final int a = 1;".toList (by decide +kernel) (by decide +kernel)
    let source (xs : List Segment) : Content := .text ((xs.flatMap Segment.raws).flatMap (· ++ ['\n']))
    let xs : List Segment := [.method f, a, .method g]
    let ys : List Segment := [.method g, .method f, a]
    ((source xs).kept "//".toList = (xs.flatMap Segment.raws).map some ∧
      (source ys).kept "//".toList = (ys.flatMap Segment.raws).map some ∧
      xs.Perm ys ∧ xs.filter Segment.isSingle = ys.filter Segment.isSingle) ∧
    (∃ s, (source xs).verify "//".toList = .ok s) ∧ ∃ s, (source ys).verify "//".toList = .ok s := by
  intro f g a source xs ys
  have hxs : (source xs).kept "//".toList = (xs.flatMap Segment.raws).map some := by decide +kernel
  have hys : (source ys).kept "//".toList = (ys.flatMap Segment.raws).map some := by decide +kernel
  have hperm : xs.Perm ys := by
    exact ((List.Perm.swap (.method g) a []).cons (.method f)).trans (.swap (.method g) (.method f) [a])
  have hsingles : xs.filter Segment.isSingle = ys.filter Segment.isSingle := rfl
  have hlegal : ((source xs).verify "//".toList).toOption.map (fun _ => ()) = some () := by decide +kernel
  obtain ⟨s, hs, -⟩ := toOption_map_eq_some_iff.1 hlegal
  have hok : ∃ s, (source xs).verify "//".toList = .ok s := ⟨s, hs⟩
  exact ⟨⟨hxs, hys, hperm, hsingles⟩, hok, (verify_rearranged hxs hys hperm hsingles).1.1 hok⟩

end Content

end SJava
