import SJava.Proofs.Legality

/-!
# Balance and depth

Braces are counted twice: the balance of a line counts all that stand outside of double
quotes, the depth follows the one that ends a line and the one that stands alone. What
the two differ by is the surplus of a line, of the other braces outside of quotes.

* `Braces.balance_eq_change_add_surplus`: the balance of a line;
* `State.balanceBehind_of_trackLines`: that of lines whose braces can be followed;
* `Script.balanced_iff_closed`: when the balance is that of the depth, line by line and
  over a whole script.
-/

namespace SJava

open SJava.Tree

/-! ## One line -/

namespace Braces

/-- What the braces of a line ask of the depth. -/
def change (line : Text) : Int := if opens line then 1 else if closes line then -1 else 0

/-- What stands outside of quotes, but for the brace that opens or closes a block. -/
def loose (line : Text) : Text :=
  if opens line then (Text.trimEnd (Text.unquoted line)).dropLast
  else if closes line then []
  else Text.unquoted line

/-- The number of loose opening braces minus that of closing ones. -/
def surplus (line : Text) : Int := (loose line).count '{' - (loose line).count '}'

/-- The surplus of all lines together. -/
def totalSurplus : List Text → Int
  | [] => 0
  | line :: rest => surplus line + totalSurplus rest

theorem foldl_weight (n : Int) (s : Text) :
    s.foldl (fun n c => n + weight c) n = n + (s.count '{' - s.count '}') := by
  induction s generalizing n with
  | nil => simp
  | cons c s ih =>
    rw [List.foldl_cons, ih, List.count_cons, List.count_cons, weight]
    by_cases hopen : c = '{'
    · subst hopen
      simp only [if_true, beq_self_eq_true, show ('{' == '}') = false from rfl, Bool.false_eq_true,
        if_false]
      omega
    · by_cases hclose : c = '}'
      · subst hclose
        simp only [if_true, if_neg hopen, beq_self_eq_true, show ('}' == '{') = false from rfl,
          Bool.false_eq_true, if_false]
        omega
      · simp [hopen, hclose]

theorem balance_eq_count (line : Text) :
    balance line = (Text.unquoted line).count '{' - (Text.unquoted line).count '}' := by
  rw [balance, foldl_weight, Int.zero_add]

variable {line : Text} {kind : Kind}

/-- The end of a block has one brace. -/
theorem balance_of_scopeEnd (h : Kind.of line = .ok .scopeEnd) : balance line = -1 := by
  obtain ⟨_, v, rfl, ⟨u, _, rfl, hu, hc⟩, hv⟩ :=
    (Kind.fits_iff_matches (by decide)).1 (Kind.fits_of_eq_ok h)
  rw [Pattern.matches_char] at hc
  subst hc
  have absent {w : Text} (hw : ∀ c ∈ w, Text.isBlank c = true) {c : Char}
      (hc : Text.isBlank c = false) : c ∉ w := fun hm => by simp [hw c hm] at hc
  have hquote : '"' ∉ u ++ ['}'] ++ v := by
    simp [absent hu (c := '"') (by decide), absent hv (c := '"') (by decide)]
  rw [balance_eq_count, Text.unquoted_of_not_mem hquote]
  simp [List.count_append, List.count_eq_zero_of_not_mem, absent hu (c := '{') (by decide),
    absent hu (c := '}') (by decide), absent hv (c := '{') (by decide),
    absent hv (c := '}') (by decide)]

/-- The balance of a line is what it asks of the depth, but for its loose braces. -/
theorem balance_eq_change_add_surplus (h : Kind.of line = .ok kind) :
    balance line = change line + surplus line := by
  rw [change, surplus, loose]
  by_cases hopens : opens line = true
  · have hterm := Kind.isTerminated_of_eq_ok h
    have hlast := Text.getLast?_unquoted ((opens_iff_getLast? hterm).1 hopens) (by decide)
    obtain ⟨u, hu⟩ := List.getLast?_eq_some_iff.1 hlast
    simp only [if_pos hopens]
    rw [Text.trimEnd_eq_self hlast (by decide), balance_eq_count, hu, List.dropLast_concat,
      List.count_append, List.count_append]
    simp
    omega
  · simp only [if_neg hopens]
    by_cases hcloses : closes line = true
    · simp only [if_pos hcloses]
      obtain rfl := (closes_iff_scopeEnd h).1 hcloses
      rw [balance_of_scopeEnd h]
      rfl
    · simp only [if_neg hcloses]
      rw [balance_eq_count, Int.zero_add]

/-- The change is what the braces of a line do to the depth. -/
theorem shift_eq_change (h : Kind.of line = .ok kind) {d : Nat} (hd : 0 < d) :
    (shift line d : Int) = d + change line := by
  by_cases hcloses : closes line = true
  · obtain rfl := (closes_iff_scopeEnd h).1 hcloses
    have hopens := not_opens_of_ending h rfl (by decide)
    simp only [shift, change, hopens, hcloses, if_true, Bool.false_eq_true, if_false]
    omega
  · rw [shift, change]
    simp only [if_neg hcloses]
    split <;> simp

end Braces

/-! ## Many lines -/

namespace State

/-- Some lines, as far as their forms and their braces go, which both walks follow
alike. -/
def trackLines (s : State) (ls : List Line) : Except Failure State :=
  walk (fun s line => (s.track line).map Prod.fst) s ls

theorem trackLines_cons {s t : State} {l : Line} {ls : List Line} :
    s.trackLines (l :: ls) = .ok t ↔
      ∃ u kind, s.track l.text = .ok (u, kind) ∧ u.trackLines ls = .ok t := by
  rw [trackLines, walk_cons_eq_ok]
  simp only [map_eq_ok_iff, Prod.exists]
  constructor
  · rintro ⟨_, ⟨u, kind, htrack, rfl⟩, h⟩
    exact ⟨u, kind, htrack, h⟩
  · rintro ⟨u, kind, htrack, h⟩
    exact ⟨u, ⟨u, kind, htrack, rfl⟩, h⟩

/-- The braces of a line that can be followed change the depth by what they ask. -/
theorem depth_of_track {s t : State} {line : Text} {kind : Kind} (h : s.track line = .ok (t, kind)) :
    Kind.of line = .ok kind ∧ (t.stack.depth : Int) = s.stack.depth + Braces.change line := by
  obtain ⟨u, hu, hkind, rfl⟩ := track_eq_ok_iff.1 h
  refine ⟨hkind, ?_⟩
  show (u.depth : Int) = _
  rw [(Stack.track_eq_ok hu).1]
  exact Braces.shift_eq_change hkind s.stack.depth_pos

/-- The balance of lines is the depth that they gain, and their surplus. -/
theorem balanceBehind_of_trackLines {s t : State} {ls : List Line} (h : s.trackLines ls = .ok t)
    (n : Int) :
    balanceBehind n (ls.map (·.text)) =
      n + (t.stack.depth - s.stack.depth) + Braces.totalSurplus (ls.map (·.text)) := by
  induction ls generalizing s n with
  | nil =>
    cases h
    simp [Braces.totalSurplus]
  | cons l ls ih =>
    obtain ⟨u, kind, htrack, h⟩ := trackLines_cons.1 h
    obtain ⟨hkind, hdepth⟩ := depth_of_track htrack
    rw [List.map_cons, balanceBehind_cons, ih h, Braces.balance_eq_change_add_surplus hkind,
      Braces.totalSurplus]
    omega

/-- The first walk follows forms and braces. -/
theorem exists_trackLines {s s' t : State} {ls : List Line} (h : s.outlineLines ls = .ok t)
    (hdepth : s'.stack.depth = s.stack.depth) :
    ∃ u, s'.trackLines ls = .ok u ∧ u.stack.depth = t.stack.depth := by
  refine walk_follows (R := fun s s' : State => s'.stack.depth = s.stack.depth)
    (fun hsame hline => ?_) h hdepth
  obtain ⟨kind, hkind, hout⟩ := outlineLine_eq_ok hline
  obtain ⟨w, hw⟩ := (Stack.exists_track_congr hsame).2 hout.tracked
  refine ⟨_, map_eq_ok_iff.2 ⟨_, track_eq_ok_iff.2 ⟨w, hw, hkind, rfl⟩, rfl⟩, ?_⟩
  show w.depth = _
  rw [(Stack.track_eq_ok hw).1, hout.depth, hsame]

end State

namespace Script

/-- The loose braces of all lines together. -/
def surplus (script : Script) : Int := Braces.totalSurplus (script.lines.map (·.text))

theorem checkBalance_iff_surplus {script : Script} {s : State}
    (h : State.trackLines {} script.lines = .ok s) :
    script.checkBalance = .ok () ↔ (s.stack.depth : Int) + script.surplus = 1 := by
  rw [checkBalance_eq_ok_iff, State.balanceBehind_of_trackLines h, surplus]
  show 0 + ((s.stack.depth : Int) - 1) + _ = 0 ↔ _
  omega

/-- The two accounts of braces agree on a line of a kind exactly when it has no surplus.
So do they on the lines of a script whose braces can be followed, if together these have
none: they balance exactly when every block is closed. A script that closes every block
is balanced exactly when it has no surplus. -/
theorem balanced_iff_closed (line : Text) (script : Script) :
    (∀ kind, Kind.of line = .ok kind →
        (Braces.balance line = Braces.change line ↔ Braces.surplus line = 0)) ∧
      (∀ (s t : State) kind, s.track line = .ok (t, kind) →
        (t.stack.depth : Int) = s.stack.depth + Braces.change line) ∧
      (∀ s, State.trackLines {} script.lines = .ok s →
        (script.checkBalance = .ok () ↔ (s.stack.depth : Int) + script.surplus = 1) ∧
          (script.surplus = 0 → (script.checkBalance = .ok () ↔ s.stack.depth = 1))) ∧
      ∀ outline, script.outline = .ok outline →
        (script.checkBalance = .ok () ↔ script.surplus = 0) := by
  refine ⟨fun kind h => ?_, fun s t kind h => (State.depth_of_track h).2, fun s h => ?_,
    fun outline h => ?_⟩
  · rw [Braces.balance_eq_change_add_surplus h]
    omega
  · have hbalance := checkBalance_iff_surplus h
    refine ⟨hbalance, fun hzero => ?_⟩
    rw [hbalance, hzero]
    omega
  · obtain ⟨hlines, hdepth⟩ := outline_eq_ok_iff.1 h
    obtain ⟨s, hs, hsame⟩ := State.exists_trackLines hlines rfl
    rw [checkBalance_iff_surplus hs, hsame, hdepth]
    omega

/-- A string hides a brace, so a method that declares one is balanced. -/
theorem balanced_iff_closed_string :
    let line : Text := "String s = \"\x7b\";".toList
    let script : Script :=
      { lines := [⟨1, "void f() \x7b".toList⟩, ⟨2, line⟩, ⟨3, "return;".toList⟩, ⟨4, "\x7d".toList⟩]
        length := 4 }
    (Kind.of line = .ok .declaration ∧ Braces.balance line = Braces.change line) ∧
      (∃ s, State.trackLines {} script.lines = .ok s ∧ s.stack.depth = 1) ∧
        script.surplus = 0 ∧ script.checkBalance = .ok () := by
  intro line script
  have hkind : Kind.of line = .ok .declaration := by decide +kernel
  have hzero : script.surplus = 0 := by decide +kernel
  have hclosed : (State.trackLines {} script.lines).toOption.map (·.stack.depth) = some 1 := by
    decide +kernel
  obtain ⟨s, hs, hdepth⟩ := toOption_map_eq_some_iff.1 hclosed
  obtain ⟨hagree, -, hbalance, -⟩ := balanced_iff_closed line script
  have hline := (hagree .declaration hkind).2 (by decide +kernel)
  have hbalanced := ((hbalance s hs).2 hzero).2 hdepth
  exact ⟨⟨hkind, hline⟩, ⟨s, hs, hdepth⟩, hzero, hbalanced⟩

/-- A method that declares the character `\x7b` closes every block, but is not balanced. -/
theorem not_balanced_char :
    let line : Text := "char x = '\x7b';".toList
    let script : Script :=
      { lines := [⟨1, "void f() \x7b".toList⟩, ⟨2, line⟩, ⟨3, "return;".toList⟩, ⟨4, "\x7d".toList⟩]
        length := 4 }
    ((Content.text "void f() \x7b\nchar x = '\x7b';\nreturn;\n\x7d\n".toList).script "//".toList =
        .ok script ∧ Ty.char.holds "'\x7b'".toList = true) ∧
      (Kind.of line = .ok .declaration ∧ Braces.change line = 0 ∧ Braces.balance line = 1) ∧
        (∃ outline, script.outline = .ok outline) ∧ script.checkBalance ≠ .ok () := by
  intro line script
  refine ⟨⟨by decide +kernel, by decide +kernel⟩, ⟨by decide +kernel, by decide, by decide⟩, ?_,
    by decide +kernel⟩
  rw [exists_eq_ok_iff]
  decide +kernel

end Script

end SJava
