import SJava.File
import SJava.Proofs.LineFaults
import SJava.Proofs.Readings

/-!
# Lines that are skipped

Lines that are skipped, and carriage returns in front of the ends of lines, can be added
to a source anywhere. Its answer stays what it is, but for the numbers of lines, which
move with the lines.

* `Script.verify_moves`: lines decide by their texts, and their numbers are only reported;
* `Text.utf8EncodeChar_of_mem`, `Text.decode?_concat`: a byte below 128 is a character of its own;
* `Edit.forall₂_lines`: the lines that are read of an edited source;
* `verify_respaced`: the answers to a source and to the edited one.
-/

namespace SJava

/-! ## Scripts with other numbers -/

/-- The same line with another number. -/
structure Line.Moves (number : Nat → Nat → Prop) (l l' : Line) : Prop where
  text : l'.text = l.text
  number : number l.number l'.number

/-- The same failure, moved with its line or with the end of the script. -/
inductive Failure.Moves (number : Nat → Nat → Prop) (length length' : Nat) : Failure → Failure → Prop
  | line {fault : Fault} {n n' : Nat} (inLine : fault ≠ .unclosedScope) (moved : number n n') :
      Moves number length length' ⟨fault, n⟩ ⟨fault, n'⟩
  | unclosed : Moves number length length' ⟨.unclosedScope, length⟩ ⟨.unclosedScope, length'⟩

/-- Two runs succeed alike, or fail in ways that are related. -/
inductive EndAlike {α : Type} (R : Failure → Failure → Prop) : Except Failure α → Except Failure α → Prop
  | ok (a : α) : EndAlike R (.ok a) (.ok a)
  | error {f f' : Failure} (related : R f f') : EndAlike R (.error f) (.error f')

namespace EndAlike

variable {α β : Type} {R : Failure → Failure → Prop} {x y : Except Failure α}

theorem bind {f g : α → Except Failure β} (h : EndAlike R x y)
    (hfg : ∀ a, x = .ok a → y = .ok a → EndAlike R (f a) (g a)) : EndAlike R (x >>= f) (y >>= g) := by
  cases h with
  | ok a => exact hfg a rfl rfl
  | error related => exact .error related

theorem map {f : α → β} (h : EndAlike R x y) : EndAlike R (x.map f) (y.map f) := by
  cases h with
  | ok a => exact .ok (f a)
  | error related => exact .error related

end EndAlike

section

variable {number : Nat → Nat → Prop} {ls ls' : List Line}

/-- A walk over lines that have other numbers. -/
theorem walk_moves {σ : Type} {step : σ → Text → Except Fault σ}
    (hstep : ∀ s line fault, step s line = .error fault → fault ≠ .unclosedScope)
    (h : List.Forall₂ (Line.Moves number) ls ls') (length length' : Nat) (s : σ) :
    EndAlike (Failure.Moves number length length') (walk step s ls) (walk step s ls') := by
  induction h generalizing s with
  | nil => exact .ok s
  | @cons l l' ls ls' hl _ ih =>
    rw [walk_cons, walk_cons, hl.text]
    cases hline : step s l.text with
    | ok t => exact ih t
    | error fault => exact .error (.line (hstep s l.text fault hline) hl.number)

theorem State.outlineLines_moves (h : List.Forall₂ (Line.Moves number) ls ls') (length length' : Nat)
    (s : State) :
    EndAlike (Failure.Moves number length length') (s.outlineLines ls) (s.outlineLines ls') :=
  walk_moves (fun s line fault hline => (s.raises_outlineLine line fault hline).ne_unclosedScope) h _ _ s

theorem Progress.steps_moves (h : List.Forall₂ (Line.Moves number) ls ls') (length length' : Nat)
    (p : Progress) :
    EndAlike (Failure.Moves number length length') (p.steps ls) (p.steps ls') :=
  walk_moves (fun p line fault hline => (p.raises_step line fault hline).ne_unclosedScope) h _ _ p

theorem foldl_balance_of_moves (h : List.Forall₂ (Line.Moves number) ls ls') (n : Int) :
    ls'.foldl (fun n l => n + Braces.balance l.text) n =
      ls.foldl (fun n l => n + Braces.balance l.text) n := by
  induction h generalizing n with
  | nil => rfl
  | cons hl _ ih => rw [List.foldl_cons, List.foldl_cons, hl.text, ih]

/-- A script whose lines have other numbers. -/
theorem Script.verify_moves (script script' : Script)
    (h : List.Forall₂ (Line.Moves number) script.lines script'.lines) :
    EndAlike (Failure.Moves number script.length script'.length) script.verify script'.verify := by
  refine .bind ?_ fun _ _ _ => .bind (.bind (State.outlineLines_moves h _ _ {}) fun s _ _ => ?_)
    fun outline houtline houtline' => ?_
  · rw [checkBalance, checkBalance, foldl_balance_of_moves h]
    split
    · exact .ok ()
    · exact .error .unclosed
  · split
    · exact .ok s
    · exact .error .unclosed
  · rw [bodies_eq_map houtline, bodies_eq_map houtline']
    exact (Progress.steps_moves h _ _ _).map

end

/-! ## Characters of one byte -/

namespace Text

/-- The bytes of a text are those of its characters. -/
theorem decode?_eq_some_iff_flatMap {bytes : List UInt8} {s : Text} :
    decode? bytes = some s ↔ bytes = s.flatMap String.utf8EncodeChar := by
  rw [decode?_eq_some_iff, List.utf8Encode]
  exact List.toByteArray_inj

/-- A character below 128 is one byte. -/
theorem utf8EncodeChar_of_lt {c : Char} (hc : c.toNat < 128) :
    String.utf8EncodeChar c = [UInt8.ofNat c.toNat] := by
  have hval : c.val.toNat ≤ 0x7f := Nat.le_of_lt_succ hc
  unfold String.utf8EncodeChar
  exact if_pos hval

/-- A byte below 128 is a character of its own. -/
theorem utf8EncodeChar_of_mem {b : UInt8} {c : Char} (h : b ∈ String.utf8EncodeChar c)
    (hb : b.toNat < 128) : c.toNat = b.toNat := by
  rcases Nat.lt_or_ge c.toNat 128 with hc | hc
  · rw [utf8EncodeChar_of_lt hc, List.mem_singleton] at h
    rw [h, UInt8.toNat_ofNat_of_lt' (show _ < 256 by omega)]
  · have hhigh (n : Nat) (hn : 128 ≤ n) (hn' : n < 256) : b ≠ UInt8.ofNat n := by
      rintro rfl
      rw [UInt8.toNat_ofNat_of_lt' (show n < 256 from hn')] at hb
      omega
    -- all bytes of a longer character are 128 or more
    unfold String.utf8EncodeChar at h
    dsimp only at h
    rw [if_neg (show ¬ c.val.toNat ≤ 0x7f from Nat.not_le.2 hc)] at h
    split_ifs at h <;> simp only [List.mem_cons, List.not_mem_nil, or_false] at h
    · rcases h with h | h <;> exact absurd h (hhigh _ (by omega) (by omega))
    · rcases h with h | h | h <;> exact absurd h (hhigh _ (by omega) (by omega))
    · rcases h with h | h | h | h <;> exact absurd h (hhigh _ (by omega) (by omega))

/-- A byte below 128 at the end is decoded by itself. -/
theorem decode?_concat (bytes : List UInt8) {c : Char} (hc : c.toNat < 128) :
    decode? (bytes ++ [UInt8.ofNat c.toNat]) = (decode? bytes).map (· ++ [c]) := by
  have hbyte : (UInt8.ofNat c.toNat).toNat = c.toNat :=
    UInt8.toNat_ofNat_of_lt' (show _ < 256 by omega)
  ext s
  rw [Option.map_eq_some_iff, decode?_eq_some_iff_flatMap]
  constructor
  · intro h
    rcases List.eq_nil_or_concat' s with rfl | ⟨s, d, rfl⟩
    · simp at h
    rw [List.flatMap_append, List.flatMap_singleton] at h
    have hd : d = c := by
      have hlast := congrArg List.getLast? h
      rw [List.getLast?_concat, List.getLast?_append_of_ne_nil _ String.utf8EncodeChar_ne_nil] at hlast
      have hmem := utf8EncodeChar_of_mem (List.mem_of_getLast? hlast.symm) (by rwa [hbyte])
      exact Char.toNat_inj.1 (hmem.trans hbyte)
    rw [hd, utf8EncodeChar_of_lt hc, List.append_left_inj] at h
    exact ⟨s, decode?_eq_some_iff_flatMap.2 h, by rw [hd]⟩
  · rintro ⟨s, hs, rfl⟩
    rw [decode?_eq_some_iff_flatMap.1 hs, List.flatMap_append, List.flatMap_singleton,
      utf8EncodeChar_of_lt hc]

theorem decode?_return (bytes : List UInt8) :
    decode? (bytes ++ [13]) = (decode? bytes).map (· ++ ['\r']) :=
  decode?_concat bytes (c := '\r') (by decide)

end Text

/-! ## Edits -/

/-- A line of an edited source. -/
structure Edit (α : Type) where
  raw : List α
  /-- Whether the line is new. -/
  isNew : Bool
  /-- Whether a carriage return is put in front of the end of the line. -/
  returns : Bool

namespace Edit

variable {α : Type}

/-- The line as it stands in the edited source. -/
def written (ret : α) (e : Edit α) : List α := if e.returns then e.raw ++ [ret] else e.raw

/-- The lines of the source. -/
def before (edits : List (Edit α)) : List (List α) := (edits.filter (!·.isNew)).map (·.raw)

/-- The lines of the edited source. -/
def after (ret : α) (edits : List (Edit α)) : List (List α) := edits.map (written ret)

/-- The number of lines that are new. -/
def inserted (edits : List (Edit α)) : Nat := edits.countP (·.isNew)

theorem length_before (edits : List (Edit α)) :
    (before edits).length + inserted edits = edits.length := by
  induction edits with
  | nil => rfl
  | cons e edits ih => cases he : e.isNew <;> simp [before, inserted, he] at ih ⊢ <;> omega

/-- What is written line by line. -/
def source (newline : α) (lines : List (List α)) : List α := lines.flatMap (· ++ [newline])

/-- The line is blank or a comment, and holds no carriage return. -/
def IsSkipped (marker : Text) (read : List α → Option Text) (e : Edit α) : Prop :=
  ∃ t, read e.raw = some t ∧ '\r' ∉ t ∧ ((∀ c ∈ t, Text.isBlank c = true) ∨ marker <+: t)

/-- The edits add nothing but lines that are skipped. -/
structure IsRespacing (marker : Text) (read : List α → Option Text) (newline : α) (edits : List (Edit α)) :
    Prop where
  oneLine : ∀ e ∈ edits, newline ∉ e.raw
  skipped : ∀ e ∈ edits, e.isNew = true → e.IsSkipped marker read
  short : edits.length < UInt32.size

/-- The line `n` of the source is line `n'` of the edited one. -/
def Numbers (edits : List (Edit α)) (n n' : Nat) : Prop :=
  ∃ above e below, edits = above ++ e :: below ∧ e.isNew = false ∧
    n = (before above).length + 1 ∧ n' = above.length + 1

end Edit

/-! ## What is read of an edited source -/

namespace Reading

theorem withoutEnding_return (raw : Text) : withoutEnding (raw ++ ['\r']) = withoutEnding raw := by
  simp [withoutEnding, Text.dropEndWhile]

theorem withoutEnding_of_not_mem {raw : Text} (h : '\r' ∉ raw) : withoutEnding raw = raw := by
  rcases List.eq_nil_or_concat' raw with rfl | ⟨s, c, rfl⟩
  · rfl
  · have hc : (c == '\r') = false := by
      rw [beq_eq_false_iff_ne]
      rintro rfl
      simp at h
    simp [withoutEnding, Text.dropEndWhile, hc]

theorem isIgnored_iff {marker raw : Text} :
    isIgnored marker raw = true ↔ (∀ c ∈ raw, Text.isBlank c = true) ∨ marker <+: raw := by
  simp [isIgnored]

/-- Reading on to the first line that is not UTF-8. -/
theorem findSome?_unreadable?_append (marker : Text) (before : Nat) {physical : List (Option Text)}
    (h : none ∉ physical) (rest : List (Option Text)) :
    (all marker before (physical ++ none :: rest)).findSome? unreadable? =
      some (before + physical.length) := by
  induction physical generalizing before with
  | nil => rfl
  | cons p physical ih =>
    rw [List.mem_cons, not_or] at h
    obtain ⟨raw, rfl⟩ := Option.ne_none_iff_exists'.1 (Ne.symm h.1)
    have hrest := ih (before + 1) h.2
    rw [Nat.add_right_comm, Nat.add_assoc, ← List.length_cons] at hrest
    simp only [List.cons_append, all]
    split
    · exact hrest
    · exact hrest

end Reading

namespace Content

variable {c : Content}

theorem script_of_readable (marker : Text) (h : none ∉ c.physical) :
    c.script marker =
      .ok
        { lines := (Reading.all marker 0 c.physical).filterMap Reading.line?
          length := c.physical.length } := by
  have hreadable := (Reading.findSome?_unreadable?_all marker 0 c.physical).2 h
  have hread : c.linesRead = c.physical.length :=
    List.countP_eq_length.2 fun p hp => by
      obtain ⟨raw, rfl⟩ := Option.ne_none_iff_exists'.1 (ne_of_mem_of_not_mem hp h)
      rfl
  rw [script, readings, hreadable, hread]

/-- The first line that is not UTF-8 decides. -/
theorem script_of_unreadable (marker : Text) {physical rest : List (Option Text)}
    (hc : c.physical = physical ++ none :: rest) (h : none ∉ physical) :
    c.script marker = .error physical.length := by
  rw [script, readings, hc, Reading.findSome?_unreadable?_append marker 0 h, Nat.zero_add]

end Content

namespace Edit

variable {α : Type} {marker : Text} {read : List α → Option Text} {newline ret : α}

section

variable (hret : ∀ raw, read (raw ++ [ret]) = (read raw).map (· ++ ['\r']))
include hret

theorem read_written {e : Edit α} {t : Text} (h : read e.raw = some t) :
    ∃ t', read (e.written ret) = some t' ∧ Reading.withoutEnding t' = Reading.withoutEnding t := by
  unfold written
  split
  · exact ⟨t ++ ['\r'], by rw [hret, h]; rfl, Reading.withoutEnding_return t⟩
  · exact ⟨t, h, rfl⟩

theorem read_written_eq_none_iff {e : Edit α} : read (e.written ret) = none ↔ read e.raw = none := by
  unfold written
  split
  · rw [hret, Option.map_eq_none_iff]
  · rfl

omit hret in
theorem none_not_mem_before {edits : List (Edit α)} (hread : ∀ e ∈ edits, read e.raw ≠ none) :
    none ∉ (before edits).map read := by
  rw [before, List.map_map]
  intro h
  obtain ⟨e, he, hnone⟩ := List.mem_map.1 h
  exact hread e (List.mem_of_mem_filter he) hnone

theorem none_not_mem_after {edits : List (Edit α)} (hread : ∀ e ∈ edits, read e.raw ≠ none) :
    none ∉ (after ret edits).map read := by
  rw [after, List.map_map]
  intro h
  obtain ⟨e, he, hnone⟩ := List.mem_map.1 h
  exact hread e he ((read_written_eq_none_iff hret).1 hnone)

/-- The same lines are read from both sources. -/
theorem forall₂_lines (above : List (Edit α)) {rest : List (Edit α)} (hread : ∀ e ∈ rest, read e.raw ≠ none)
    (hskipped : ∀ e ∈ rest, e.isNew = true → e.IsSkipped marker read) :
    List.Forall₂ (Line.Moves (Numbers (above ++ rest)))
      ((Reading.all marker (before above).length ((before rest).map read)).filterMap Reading.line?)
      ((Reading.all marker above.length ((after ret rest).map read)).filterMap Reading.line?) := by
  induction rest generalizing above with
  | nil => exact .nil
  | cons e rest ih =>
    obtain ⟨he, hread⟩ := List.forall_mem_cons.1 hread
    obtain ⟨hnew, hskipped⟩ := List.forall_mem_cons.1 hskipped
    obtain ⟨t, ht⟩ := Option.ne_none_iff_exists'.1 he
    obtain ⟨t', ht', hending⟩ := read_written hret ht
    have hrest := ih (above ++ [e]) hread hskipped
    have hafter : (after ret (e :: rest)).map read = some t' :: (after ret rest).map read := by
      rw [after, List.map_cons, List.map_cons, ht', after]
    rw [List.append_assoc, List.singleton_append] at hrest
    rw [hafter]
    cases hisNew : e.isNew with
    | true =>
      obtain ⟨_, hs, hno, hignored⟩ := hnew hisNew
      cases ht.symm.trans hs
      have hbefore : (before (e :: rest)).map read = (before rest).map read ∧
          before (above ++ [e]) = before above := by simp [before, hisNew]
      rw [hbefore.1, Reading.all, hending, Reading.withoutEnding_of_not_mem hno,
        if_pos (Reading.isIgnored_iff.2 hignored)]
      rw [hbefore.2, List.length_append] at hrest
      exact hrest
    | false =>
      have hbefore : (before (e :: rest)).map read = some t :: (before rest).map read ∧
          before (above ++ [e]) = before above ++ [e.raw] := by simp [before, hisNew, ht]
      rw [hbefore.2, List.length_append, List.length_append] at hrest
      simp only [hbefore.1, Reading.all, hending]
      split
      · exact hrest
      · exact .cons ⟨rfl, above, e, rest, rfl, hisNew, rfl, rfl⟩ hrest

variable {edits : List (Edit α)} {c c' : Content}

/-- An edited source that can be read. -/
theorem verify_moves (hskipped : ∀ e ∈ edits, e.isNew = true → e.IsSkipped marker read)
    (hread : ∀ e ∈ edits, read e.raw ≠ none) (hc : c.physical = (before edits).map read)
    (hc' : c'.physical = (after ret edits).map read) :
    EndAlike (Failure.Moves (Numbers edits) (before edits).length edits.length) (c.verify marker)
      (c'.verify marker) := by
  have hbefore : none ∉ c.physical := hc ▸ none_not_mem_before hread
  have hafter : none ∉ c'.physical := hc' ▸ none_not_mem_after hret hread
  have hlines := forall₂_lines hret [] hread hskipped
  have hmoves := Script.verify_moves ⟨_, c.physical.length⟩ ⟨_, c'.physical.length⟩ hlines
  rw [Content.verify, Content.verify, Content.script_of_readable marker hbefore,
    Content.script_of_readable marker hafter]
  simp only [hc, hc', List.length_map, after] at hmoves ⊢
  exact hmoves

end

/-- A diagnostic of the edited source, and the line it has moved to. -/
structure Moved (read : List α → Option Text) (edits : List (Edit α)) (d d' : Diagnostic) : Prop where
  fault : d'.fault = d.fault
  source : d'.position.source = d.position.source
  /-- A block that is not closed is reported at the end of the source. -/
  unclosed : d.fault = .unclosedScope →
    d.position.line.toNat = (before edits).length ∧ d'.position.line.toNat = edits.length
  /-- All else is reported at a line of the source, and one that is not UTF-8 at the line in front
  of it. -/
  line : d.fault ≠ .unclosedScope → ∃ above e below, edits = above ++ e :: below ∧ e.isNew = false ∧
    (read e.raw ≠ none ∧ d.position.line.toNat = (before above).length + 1 ∨
      read e.raw = none ∧ d.fault = invalidUtf8 ∧ d.position.line.toNat = (before above).length) ∧
    d'.position.line.toNat = d.position.line.toNat + inserted above

/-- The answers to a source and to the edited one. -/
def SameAnswer (read : List α → Option Text) (edits : List (Edit α)) :
    Except Diagnostic State → Except Diagnostic State → Prop
  | .ok s, .ok t => t = s
  | .error d, .error d' => Moved read edits d d'
  | _, _ => False

theorem toNat_line {n : Nat} (h : n < UInt32.size) (fault : Fault) (name : Text) :
    (Failure.inSource ⟨fault, n⟩ name).position.line.toNat = n :=
  UInt32.toNat_ofNat_of_lt' h

theorem sameAnswer_of_readable {edits : List (Edit α)} {x y : Except Failure State}
    (hshort : edits.length < UInt32.size) (hread : ∀ e ∈ edits, read e.raw ≠ none)
    (h : EndAlike (Failure.Moves (Numbers edits) (before edits).length edits.length) x y) (name : Text) :
    SameAnswer read edits (x.mapError (·.inSource name)) (y.mapError (·.inSource name)) := by
  have hlength := length_before edits
  cases h with
  | ok s => rfl
  | error related =>
    cases related with
    | @line fault n n' inLine moved =>
      obtain ⟨above, e, below, rfl, hnew, rfl, rfl⟩ := moved
      have habove := length_before above
      rw [List.length_append, List.length_cons] at hshort
      have hn := toNat_line (n := (before above).length + 1) (by omega) fault name
      have hn' := toNat_line (n := above.length + 1) (by omega) fault name
      have hmoved : (Failure.inSource ⟨fault, above.length + 1⟩ name).position.line.toNat =
          (Failure.inSource ⟨fault, (before above).length + 1⟩ name).position.line.toNat + inserted above := by
        omega
      exact
        { fault := rfl
          source := rfl
          unclosed := fun h => absurd h inLine
          line := fun _ => ⟨above, e, below, rfl, hnew, .inl ⟨hread e (by simp), hn⟩, hmoved⟩ }
    | unclosed =>
      exact
        { fault := rfl
          source := rfl
          unclosed := fun _ => ⟨toNat_line (by omega) _ name, toNat_line hshort _ name⟩
          line := fun h => absurd rfl h }

/-- The answer to an edited source, all of which can be read or not. -/
theorem sameAnswer (hret : ∀ raw, read (raw ++ [ret]) = (read raw).map (· ++ ['\r']))
    {edits : List (Edit α)} {c c' : Content} (h : IsRespacing marker read newline edits)
    (hc : c.physical = (before edits).map read) (hc' : c'.physical = (after ret edits).map read)
    (name : Text) :
    SameAnswer read edits ((c.verify marker).mapError (·.inSource name))
      ((c'.verify marker).mapError (·.inSource name)) := by
  have hshort := h.short
  cases hfind : edits.find? (read ·.raw = none) with
  | none =>
    have hread : ∀ e ∈ edits, read e.raw ≠ none := fun e he => by
      simpa using List.find?_eq_none.1 hfind e he
    exact sameAnswer_of_readable hshort hread (verify_moves hret h.skipped hread hc hc') name
  | some e =>
    obtain ⟨hnone, above, below, rfl, habove⟩ := List.find?_eq_some_iff_append.1 hfind
    replace hnone : read e.raw = none := by simpa using hnone
    have hread : ∀ x ∈ above, read x.raw ≠ none := fun x hx => by simpa using habove x hx
    have hold : e.isNew = false := by
      rw [Bool.eq_false_iff]
      intro hnew
      obtain ⟨t, ht, -⟩ := h.skipped e (by simp) hnew
      rw [hnone] at ht
      cases ht
    have hbefore : c.physical = (before above).map read ++ none :: (before below).map read := by
      simp [hc, before, hold, hnone]
    have hafter : c'.physical = (after ret above).map read ++ none :: (after ret below).map read := by
      simp [hc', after, (read_written_eq_none_iff hret).2 hnone]
    rw [Content.verify, Content.verify,
      Content.script_of_unreadable marker hbefore (none_not_mem_before hread),
      Content.script_of_unreadable marker hafter (none_not_mem_after hret hread)]
    simp only [List.length_map, after]
    have hlength := length_before above
    rw [List.length_append, List.length_cons] at hshort
    have hn := toNat_line (n := (before above).length) (by omega) invalidUtf8 name
    have hn' := toNat_line (n := above.length) (by omega) invalidUtf8 name
    have hmoved : (Failure.inSource ⟨invalidUtf8, above.length⟩ name).position.line.toNat =
        (Failure.inSource ⟨invalidUtf8, (before above).length⟩ name).position.line.toNat + inserted above := by
      omega
    exact
      { fault := rfl
        source := rfl
        unclosed := fun h => by cases h
        line := fun _ => ⟨above, e, below, rfl, hold, .inr ⟨hnone, rfl, hn⟩, hmoved⟩ }

/-- The lines of an edited source, written out. -/
theorem newline_not_mem {edits : List (Edit α)} (ret : α) (h : ∀ e ∈ edits, newline ∉ e.raw)
    (hne : newline ≠ ret) :
    (∀ line ∈ before edits, newline ∉ line) ∧ ∀ line ∈ after ret edits, newline ∉ line := by
  constructor
  · intro line hline
    obtain ⟨e, he, rfl⟩ := List.mem_map.1 hline
    exact h e (List.mem_of_mem_filter he)
  · intro line hline
    obtain ⟨e, he, rfl⟩ := List.mem_map.1 hline
    have := h e he
    unfold written
    split
    · simp [this, hne]
    · exact this

end Edit

open Edit

/-- Adding lines that are skipped, and carriage returns in front of the ends of lines, to a text or
to a file keeps its answer. -/
theorem verify_respaced (config : Config) :
    (∀ edits : List (Edit Char), IsRespacing config.marker some '\n' edits →
      SameAnswer some edits (verifyText config (source '\n' (before edits)))
        (verifyText config (source '\n' (after '\r' edits)))) ∧
    ∀ (path : Text) (edits : List (Edit UInt8)), IsRespacing config.marker Text.decode? 10 edits →
      SameAnswer Text.decode? edits
        (Opened.verify config.marker path (.ok (.file (source 10 (before edits)))))
        (Opened.verify config.marker path (.ok (.file (source 10 (after 13 edits))))) := by
  refine ⟨fun edits h => ?_, fun path edits h => ?_⟩
  · obtain ⟨hbefore, hafter⟩ := newline_not_mem '\r' h.oneLine (by decide)
    have hret (raw : Text) : some (raw ++ ['\r']) = (some raw).map (· ++ ['\r']) := rfl
    refine sameAnswer hret h ?_ ?_ sourceName
    · rw [Content.physical, source, Tree.physicalLines_render hbefore]
    · rw [Content.physical, source, Tree.physicalLines_render hafter]
  · obtain ⟨hbefore, hafter⟩ := newline_not_mem 13 h.oneLine (by decide)
    refine sameAnswer Text.decode?_return h ?_ ?_ path
    · rw [Content.physical, source, Tree.physicalLines_render hbefore]
    · rw [Content.physical, source, Tree.physicalLines_render hafter]

/-- A comment and a blank line move an assignment to no variable from line 2 to line 4. -/
theorem verify_respaced_comment :
    let edits : List (Edit Char) :=
      [⟨"// note".toList, true, true⟩, ⟨"int a;".toList, false, true⟩, ⟨" ".toList, true, false⟩,
        ⟨"b = 2;".toList, false, false⟩]
    IsRespacing ({} : Config).marker some '\n' edits ∧
      SameAnswer some edits (verifyText {} "int a;\nb = 2;\n".toList)
        (verifyText {} "// note\r\nint a;\r\n \nb = 2;\n".toList) ∧
      (∃ d, verifyText {} "int a;\nb = 2;\n".toList = .error d ∧ d.position.line = 2) ∧
      ∃ d, verifyText {} "// note\r\nint a;\r\n \nb = 2;\n".toList = .error d ∧ d.position.line = 4 := by
  intro edits
  have herror {x : Except Diagnostic State} {n : UInt32} (hn : n ≠ 0)
      (h : (match x with | .ok _ => 0 | .error d => d.position.line) = n) :
      ∃ d, x = .error d ∧ d.position.line = n := by
    cases x with
    | ok s => exact absurd h.symm hn
    | error d => exact ⟨d, rfl, h⟩
  have hedits : IsRespacing ({} : Config).marker some '\n' edits :=
    { oneLine := by decide
      skipped := by
        have hnote : (⟨"// note".toList, true, true⟩ : Edit Char).IsSkipped ({} : Config).marker some :=
          ⟨_, rfl, by decide, .inr (by decide)⟩
        have hblank : (⟨" ".toList, true, false⟩ : Edit Char).IsSkipped ({} : Config).marker some :=
          ⟨_, rfl, by decide, .inl (Text.forall_of_all (by decide))⟩
        intro e he hnew
        simp only [edits, List.mem_cons, List.not_mem_nil, or_false] at he
        rcases he with rfl | rfl | rfl | rfl
        · exact hnote
        · cases hnew
        · exact hblank
        · cases hnew
      short := by decide }
  exact ⟨hedits, (verify_respaced {}).1 edits hedits, herror (by decide) (by decide +kernel),
    herror (by decide) (by decide +kernel)⟩

end SJava
