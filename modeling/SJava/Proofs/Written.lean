import SJava.Proofs.Clauses

/-!
# Clauses as they are written

A line of clauses can be written with any blanks around its texts. It is read back as
what was written, and what is read off a line can be written and read again.

* `Clause.ofText_eq_ok_iff`: a clause is read off what it can be written as, and off
  nothing else;
* `Declaration.ofLine_of_written`, `Declaration.written_of_ofLine`: declaration lines;
* `Assignment.allOfLine_of_written`, `Assignment.plain_of_allOfLine`: assignment lines;
* `Text.readBack`: all of it.
-/

namespace SJava

open SJava.Tree

/-! ## Blanks around a text -/

namespace Text

/-- The text stands there with blanks around it, or without. -/
def Padded (s piece : Text) : Prop :=
  ∃ u v, (∀ c ∈ u, isBlank c = true) ∧ (∀ c ∈ v, isBlank c = true) ∧ piece = u ++ s ++ v

variable {s piece : Text}

theorem Padded.of_blanks {u v : Text} (hu : ∀ c ∈ u, isBlank c = true) (hv : ∀ c ∈ v, isBlank c = true)
    (s : Text) : Padded s (u ++ s ++ v) :=
  ⟨u, v, hu, hv, rfl⟩

theorem Padded.refl (s : Text) : Padded s s := ⟨[], [], by simp, by simp, by simp⟩

theorem Padded.cons {c : Char} (hc : isBlank c = true) (h : Padded s piece) : Padded s (c :: piece) := by
  obtain ⟨u, v, hu, hv, rfl⟩ := h
  exact ⟨c :: u, v, List.forall_mem_cons.2 ⟨hc, hu⟩, hv, rfl⟩

theorem Padded.trim_eq (h : Padded s piece) : trim piece = trim s := by
  obtain ⟨u, v, hu, hv, rfl⟩ := h
  exact trim_of_blanks_around hu hv s

theorem Padded.not_mem (h : Padded s piece) {c : Char} (hc : isBlank c = false) (hs : c ∉ s) :
    c ∉ piece := by
  obtain ⟨u, v, hu, hv, rfl⟩ := h
  simp [not_mem_of_blanks hu hc, not_mem_of_blanks hv hc, hs]

theorem padded_trim (s : Text) : Padded (trim s) s := by
  obtain ⟨u, v, hs, hu, hv⟩ := exists_trim s
  exact ⟨u, v, hu, hv, hs⟩

/-- The texts with a blank in front of each but the first. -/
def spaced : List Text → List Text
  | [] => []
  | s :: ss => s :: ss.map (' ' :: ·)

/-- What blanks in front of a text do not harm stands for it among texts so spaced. -/
theorem forall₂_spaced {α : Type} {R : α → Text → Prop} {f : α → Text}
    (hR : ∀ u, (∀ c ∈ u, isBlank c = true) → ∀ a, R a (u ++ f a)) (as : List α) :
    List.Forall₂ R as (spaced (as.map f)) := by
  cases as with
  | nil => exact .nil
  | cons a as =>
    refine .cons (hR [] (by simp) a) ?_
    rw [List.map_map, List.forall₂_map_right_iff, List.forall₂_same]
    exact fun a _ => hR [' '] (forall_of_all (by decide)) a

/-- A text that trimming takes nothing from, and that cutting at none of these marks divides. -/
structure IsWhole (marks : List Char) (s : Text) : Prop where
  trimmed : trim s = s
  uncut : ∀ c ∈ marks, c ∉ s

variable {marks : List Char}

theorem isWhole_iff : IsWhole marks s ↔ trim s = s ∧ (marks.all fun c => !s.contains c) = true :=
  ⟨fun ⟨htrim, hcut⟩ => ⟨htrim, by simpa using hcut⟩, fun ⟨htrim, hcut⟩ => ⟨htrim, by simpa using hcut⟩⟩

instance : DecidablePred (IsWhole marks) := fun _ => decidable_of_iff _ isWhole_iff.symm

theorem isWhole_trim (h : ∀ c ∈ marks, c ∉ s) : IsWhole marks (trim s) where
  trimmed := trim_trim s
  uncut c hc hmem := h c hc (mem_of_mem_trim hmem)

end Text

/-! ## Clauses -/

namespace Clause

open Text (Padded IsWhole)

/-- A clause whose texts stay whole on a line. -/
structure Plain (c : Clause) : Prop where
  name : IsWhole [',', '='] c.name
  value : ∀ v, c.value = some v → IsWhole [',', '='] v

instance : DecidablePred Plain := fun c =>
  decidable_of_iff (IsWhole [',', '='] c.name ∧ ∀ v ∈ c.value, IsWhole [',', '='] v)
    ⟨fun ⟨hname, hvalue⟩ => ⟨hname, hvalue⟩, fun ⟨hname, hvalue⟩ => ⟨hname, hvalue⟩⟩

/-- What can stand for a clause between two commas. -/
inductive Written : Clause → Text → Prop
  | bare {x p : Text} : Padded x p → Written ⟨x, none⟩ p
  | valued {x v p q : Text} : Padded x p → Padded v q → Written ⟨x, some v⟩ (p ++ '=' :: q)

variable {c : Clause} {piece : Text}

theorem Written.comma_not_mem (h : c.Written piece) (hc : c.Plain) : ',' ∉ piece := by
  cases h with
  | bare hp => exact hp.not_mem (by decide) (hc.name.uncut ',' (by simp))
  | valued hp hq =>
    have hname := hp.not_mem (by decide) (hc.name.uncut ',' (by simp))
    have hvalue := hq.not_mem (by decide) ((hc.value _ rfl).uncut ',' (by simp))
    simp [hname, hvalue]

/-- A clause is read off what is written for it. -/
theorem ofText_of_written (hc : c.Plain) (h : c.Written piece) : ofText piece = .ok c := by
  cases h with
  | @bare x _ hp =>
    have hpiece : '=' ∉ piece := hp.not_mem (by decide) (hc.name.uncut '=' (by simp))
    have hname : Text.trim piece = x := hp.trim_eq.trans hc.name.trimmed
    simp only [ofText, List.splitOn_eq_singleton hpiece, hname]
  | @valued x v p q hp hq =>
    have hp' : '=' ∉ p := hp.not_mem (by decide) (hc.name.uncut '=' (by simp))
    have hq' : '=' ∉ q := hq.not_mem (by decide) ((hc.value _ rfl).uncut '=' (by simp))
    have hsplit : (p ++ '=' :: q).splitOn '=' = [p, q] := by
      rw [List.splitOn_append_cons_self, List.splitOn_eq_singleton hp', List.splitOn_eq_singleton hq',
        List.singleton_append]
    have hname : Text.trim p = x := hp.trim_eq.trans hc.name.trimmed
    have hvalue : Text.trim q = v := hq.trim_eq.trans (hc.value _ rfl).trimmed
    simp only [ofText, hsplit, hname, hvalue]

/-- What a clause is read off is one of its written forms. -/
theorem written_of_ofText (hcomma : ',' ∉ piece) (h : ofText piece = .ok c) :
    c.Plain ∧ c.Written piece := by
  have hjoin : ['='].intercalate (piece.splitOn '=') = piece := List.intercalate_splitOn '='
  have hwhole {s : Text} (hs : ',' ∉ s) (hmem : s ∈ piece.splitOn '=') :
      IsWhole [',', '='] (Text.trim s) := by
    have hequals := Text.not_mem_of_mem_splitOn hmem
    exact Text.isWhole_trim (by simp [hs, hequals])
  unfold ofText at h
  split at h
  · next name hsplit =>
    cases h
    rw [hsplit] at hwhole hjoin
    obtain rfl : name = piece := by simpa using hjoin
    exact ⟨⟨hwhole hcomma (by simp), nofun⟩, .bare (Text.padded_trim name)⟩
  · next name value hsplit =>
    cases h
    rw [hsplit] at hwhole hjoin
    obtain rfl : name ++ '=' :: value = piece := by simpa [List.intercalate_cons_cons] using hjoin
    rw [List.mem_append, List.mem_cons, not_or, not_or] at hcomma
    refine ⟨⟨hwhole hcomma.1 (by simp), ?_⟩, .valued (Text.padded_trim name) (Text.padded_trim value)⟩
    rintro _ ⟨⟩
    exact hwhole hcomma.2.2 (by simp)
  · cases h

theorem ofText_eq_ok_iff (hcomma : ',' ∉ piece) : ofText piece = .ok c ↔ c.Plain ∧ c.Written piece :=
  ⟨written_of_ofText hcomma, fun ⟨hc, h⟩ => ofText_of_written hc h⟩

/-- Clauses are read off what is written for them, one by one. -/
theorem mapM_ofText_eq_ok_iff {ps : List Text} {cs : List Clause} (hcomma : ∀ p ∈ ps, ',' ∉ p) :
    ps.mapM ofText = .ok cs ↔ (∀ c ∈ cs, c.Plain) ∧ List.Forall₂ Written cs ps := by
  rw [mapM_eq_ok_iff]
  induction ps generalizing cs with
  | nil => cases cs <;> simp
  | cons p ps ih =>
    obtain ⟨hp, hps⟩ := List.forall_mem_cons.1 hcomma
    cases cs with
    | nil => simp
    | cons c cs =>
      rw [List.forall₂_cons, List.forall₂_cons, List.forall_mem_cons, ih hps, ofText_eq_ok_iff hp]
      exact and_and_and_comm

theorem comma_not_mem_of_written {ps : List Text} {cs : List Clause} (hcs : ∀ c ∈ cs, c.Plain)
    (h : List.Forall₂ Written cs ps) : ∀ p ∈ ps, ',' ∉ p := by
  intro p hp
  obtain ⟨c, hc, hwritten⟩ := exists_of_forall₂ h hp
  exact hwritten.comma_not_mem (hcs c hc)

/-! ### One way to write them -/

/-- The name, and the value behind an equals sign with a blank on each side. -/
def render (c : Clause) : Text :=
  match c.value with
  | none => c.name
  | some v => c.name ++ [' ', '=', ' '] ++ v

theorem written_render (u : Text) (hu : ∀ c ∈ u, Text.isBlank c = true) (c : Clause) :
    c.Written (u ++ c.render) := by
  obtain ⟨x, value⟩ := c
  have hspace : ∀ c ∈ [' '], Text.isBlank c = true := Text.forall_of_all (by decide)
  cases value with
  | none =>
    have hname : Padded x (u ++ x) := ⟨u, [], hu, by simp, by simp⟩
    exact .bare hname
  | some v =>
    have hname : Padded x (u ++ x ++ [' ']) := .of_blanks hu hspace x
    have hvalue : Padded v (' ' :: v) := ⟨[' '], [], hspace, by simp, by simp⟩
    simpa [render] using Written.valued hname hvalue

end Clause

/-! ## Declarations -/

namespace Declaration

/-- A declaration of a type of the language, with clauses that stay whole on a line. -/
structure Plain (d : Declaration) : Prop where
  typed : ∃ ty : Ty, d.typeToken = ty.keyword
  ne_nil : d.clauses ≠ []
  clauses : ∀ c ∈ d.clauses, c.Plain

/-- The lines that can be written for a declaration: `final` and a blank if it is final, the
type and a blank, the clauses with commas between them and a semicolon. There can be more
blanks around each of these. -/
inductive Written (d : Declaration) : Text → Prop
  | line {front v : Text} {ps : List Text} : IsTyped d.isFinal d.typeToken front →
      List.Forall₂ Clause.Written d.clauses ps → (∀ c ∈ v, Text.isBlank c = true) →
        Written d (line front ps ++ v)

variable {d : Declaration} {line : Text}

theorem ofLine_append_blanks {v : Text} (hv : ∀ c ∈ v, Text.isBlank c = true) (line : Text) :
    ofLine (line ++ v) = ofLine line := by
  have htrim := Text.trim_of_blanks_around (u := []) (by simp) hv line
  rw [List.nil_append] at htrim
  rw [ofLine, ofLine, htrim]

/-- A declaration is read off every line that can be written for it. -/
theorem ofLine_of_written (hd : d.Plain) (h : d.Written line) : ofLine line = .ok d := by
  obtain ⟨htyped, hps, hv⟩ := h
  obtain ⟨isFinal, token, cs⟩ := d
  obtain ⟨⟨ty, rfl⟩, hne, hcs⟩ := hd
  have hcomma := Clause.comma_not_mem_of_written hcs hps
  rw [ofLine_append_blanks hv, ofLine_line htyped (ne_nil_of_forall₂ hps hne) hcomma,
    (Clause.mapM_ofText_eq_ok_iff hcomma).2 ⟨hcs, hps⟩]
  rfl

/-- And a declaration line can be written for what is read off it. -/
theorem written_of_ofLine (h : Kind.of line = .ok .declaration) (hok : ofLine line = .ok d) :
    d.Plain ∧ d.Written line := by
  obtain ⟨front, ps, hps, rfl⟩ := exists_pieces h
  obtain ⟨isFinal, ty, htyped⟩ := exists_isTyped hps.begins
  rw [ofLine_line htyped hps.ne_nil hps.comma] at hok
  obtain ⟨cs, hcs, rfl⟩ := map_eq_ok_iff.1 hok
  obtain ⟨hplain, hwritten⟩ := (Clause.mapM_ofText_eq_ok_iff hps.comma).1 hcs
  refine ⟨⟨⟨ty, rfl⟩, ne_nil_of_forall₂ hwritten.flip hps.ne_nil, hplain⟩, ?_⟩
  simpa using Written.line (v := []) htyped hwritten (by simp)

/-- `final type name = value, name;` -/
def render (d : Declaration) : Text :=
  Declaration.line ((if d.isFinal then Keyword.finalWord ++ [' '] else []) ++ d.typeToken ++ [' '])
    (Text.spaced (d.clauses.map (·.render)))

theorem written_render (d : Declaration) : d.Written d.render := by
  have htyped : IsTyped d.isFinal d.typeToken
      ((if d.isFinal then Keyword.finalWord ++ [' '] else []) ++ d.typeToken ++ [' ']) := by
    cases d.isFinal with
    | false => exact .plain (u := []) (by simp) Pattern.matches_space
    | true => exact .final (u := []) (by simp) Pattern.matches_space Pattern.matches_space
  have hclauses := Text.forall₂_spaced Clause.written_render d.clauses
  simpa [render] using Written.line (v := []) htyped hclauses (by simp)

end Declaration

/-! ## Assignments -/

namespace Assignment

/-- An assignment is written as the clause of a declaration with a value is. -/
def clause (a : Assignment) : Clause := ⟨a.target, some a.value⟩

/-- The lines that can be written for assignments, with commas between them and a semicolon
behind, and any blanks around each text. -/
inductive Written (as : List Assignment) : Text → Prop
  | line {ps : List Text} {v : Text} : List.Forall₂ Clause.Written (as.map clause) ps →
      (∀ c ∈ v, Text.isBlank c = true) → Written as (commas ps ++ ';' :: v)

variable {as : List Assignment} {line : Text}

theorem ofText_eq_ok_iff {piece : Text} {a : Assignment} :
    ofText piece = .ok a ↔ Clause.ofText piece = .ok a.clause := by
  obtain ⟨target, value⟩ := a
  unfold ofText Clause.ofText
  split <;> split <;> simp_all [clause]

theorem mapM_ofText_eq_ok_iff {ps : List Text} :
    ps.mapM ofText = .ok as ↔ ps.mapM Clause.ofText = .ok (as.map clause) := by
  rw [mapM_eq_ok_iff, mapM_eq_ok_iff, List.forall₂_map_right_iff]
  simp only [ofText_eq_ok_iff]

/-- The assignments of a line are read off it piece by piece. -/
theorem allOfLine_commas {ps : List Text} {v : Text} (hne : ps ≠ []) (hcomma : ∀ p ∈ ps, ',' ∉ p)
    (hv : ∀ c ∈ v, Text.isBlank c = true) :
    allOfLine (commas ps ++ ';' :: v) = .ok as ↔ ps.mapM Clause.ofText = .ok (as.map clause) := by
  have htrim : Text.trim (commas ps ++ ';' :: v) = Text.trim (commas ps ++ [';']) := by
    have := Text.trim_of_blanks_around (u := []) (by simp) hv (commas ps ++ [';'])
    simpa using this
  have hbody : Text.statementBody (commas ps ++ ';' :: v) = Text.trim (commas ps) := by
    have := Text.statementBody_append (u := []) (by simp) (commas ps)
    rw [List.nil_append] at this
    rw [← this, Text.statementBody, htrim, Text.statementBody]
  rw [allOfLine, hbody, mapM_ofText_eq_ok_iff, Clause.mapM_ofText_trim hne hcomma]

/-- Assignments are read off every line that can be written for them. -/
theorem allOfLine_of_written (hne : as ≠ []) (hplain : ∀ a ∈ as, a.clause.Plain)
    (h : Written as line) : allOfLine line = .ok as := by
  obtain ⟨hps, hv⟩ := h
  have hplain : ∀ c ∈ as.map clause, c.Plain := List.forall_mem_map.2 hplain
  have hcomma := Clause.comma_not_mem_of_written hplain hps
  have hne := ne_nil_of_forall₂ hps (by simpa using hne)
  exact (allOfLine_commas hne hcomma hv).2 ((Clause.mapM_ofText_eq_ok_iff hcomma).2 ⟨hplain, hps⟩)

/-- What is read off a line can be written and read again. -/
theorem plain_of_allOfLine (h : allOfLine line = .ok as) : as ≠ [] ∧ ∀ a ∈ as, a.clause.Plain := by
  have hcomma : ∀ p ∈ (Text.statementBody line).splitOn ',', ',' ∉ p :=
    fun p hp => Text.not_mem_of_mem_splitOn hp
  obtain ⟨hplain, hwritten⟩ := (Clause.mapM_ofText_eq_ok_iff hcomma).1 (mapM_ofText_eq_ok_iff.1 h)
  have hne := ne_nil_of_forall₂ hwritten.flip (List.splitOn_ne_nil _ _)
  exact ⟨by simpa using hne, List.forall_mem_map.1 hplain⟩

/-- `target = value, target = value;` -/
def render (as : List Assignment) : Text := commas (Text.spaced ((as.map clause).map (·.render))) ++ [';']

theorem written_render (as : List Assignment) : Written as (render as) :=
  .line (Text.forall₂_spaced Clause.written_render _) (by simp)

end Assignment

/-! ## Reading back -/

/-- Reading a line of clauses undoes writing it. -/
structure Text.ReadBack (line : Text) : Prop where
  declaration : ∀ d : Declaration, d.Plain → d.Written line → Declaration.ofLine line = .ok d
  assignments : ∀ as : List Assignment, as ≠ [] → (∀ a ∈ as, a.clause.Plain) →
    Assignment.Written as line → Assignment.allOfLine line = .ok as
  /-- What was read off a declaration line is read again off each line written for it, and
  the line is one of those. -/
  declaration_again : Kind.of line = .ok .declaration → ∀ d, Declaration.ofLine line = .ok d →
    d.Plain ∧ d.Written line ∧ (∀ line', d.Written line' → Declaration.ofLine line' = .ok d) ∧
      Declaration.ofLine d.render = .ok d
  assignments_again : ∀ as, Assignment.allOfLine line = .ok as →
    (as ≠ [] ∧ ∀ a ∈ as, a.clause.Plain) ∧
      (∀ line', Assignment.Written as line' → Assignment.allOfLine line' = .ok as) ∧
        Assignment.allOfLine (Assignment.render as) = .ok as

theorem Text.readBack (line : Text) : ReadBack line where
  declaration _ := Declaration.ofLine_of_written
  assignments _ := Assignment.allOfLine_of_written
  declaration_again h d hd := by
    obtain ⟨hplain, hwritten⟩ := Declaration.written_of_ofLine h hd
    exact ⟨hplain, hwritten, fun _ => Declaration.ofLine_of_written hplain,
      Declaration.ofLine_of_written hplain d.written_render⟩
  assignments_again as has := by
    obtain ⟨hne, hplain⟩ := Assignment.plain_of_allOfLine has
    exact ⟨⟨hne, hplain⟩, fun _ => Assignment.allOfLine_of_written hne hplain,
      Assignment.allOfLine_of_written hne hplain (Assignment.written_render as)⟩

/-- Blanks and semicolons within clauses, values that are empty, and one that is missing. -/
theorem Text.readBack_semicolons :
    let d : Declaration := ⟨true, Keyword.intWord,
      [⟨['a'], some ['5']⟩, ⟨['b'], some [';']⟩, ⟨['c'], some []⟩, ⟨['d'], none⟩]⟩
    let line : Text := "final\tint a =5 ,b= ;,c= , d; ".toList
    let as : List Assignment := [⟨['x'], ['\x7b', ';']⟩, ⟨['y'], []⟩]
    let line' : Text := " x =\x7b; , y=;".toList
    (d.Plain ∧ d.Written line) ∧ Declaration.ofLine line = .ok d ∧
      (as ≠ [] ∧ (∀ a ∈ as, a.clause.Plain) ∧ Assignment.Written as line') ∧
        Assignment.allOfLine line' = .ok as := by
  intro d line as line'
  have hd : d.Plain := ⟨⟨.int, rfl⟩, List.cons_ne_nil _ _, by decide⟩
  have hspace : (Pattern.oneOrMore .blank).Matches ['\t'] :=
    Pattern.matches_oneOrMore.2 ⟨by simp, Text.forall_of_all (by decide)⟩
  have hpad (u s v : Text) (hu : u.all isBlank = true) (hv : v.all isBlank = true) :
      Padded s (u ++ s ++ v) := .of_blanks (List.all_eq_true.1 hu) (List.all_eq_true.1 hv) s
  have hline : d.Written line := by
    show d.Written (Declaration.line "final\tint ".toList
      ["a =5 ".toList, "b= ;".toList, "c= ".toList, " d".toList] ++ [' '])
    exact .line (.final (u := []) (by simp) hspace Pattern.matches_space)
      (.cons (.valued (hpad [] ['a'] [' '] rfl rfl) (hpad [] ['5'] [' '] rfl rfl))
        (.cons (.valued (hpad [] ['b'] [] rfl rfl) (hpad [' '] [';'] [] rfl rfl))
          (.cons (.valued (hpad [] ['c'] [] rfl rfl) (hpad [' '] [] [] rfl rfl))
            (.cons (.bare (hpad [' '] ['d'] [] rfl rfl)) .nil))))
      (Text.forall_of_all (by decide))
  have has : ∀ a ∈ as, a.clause.Plain := by decide
  have hline' : Assignment.Written as line' := by
    show Assignment.Written as (commas [" x =\x7b; ".toList, " y=".toList] ++ ';' :: [])
    have hx := Clause.Written.valued (hpad [' '] ['x'] [' '] rfl rfl) (hpad [] ['\x7b', ';'] [' '] rfl rfl)
    have hy := Clause.Written.valued (hpad [' '] ['y'] [] rfl rfl) (hpad [] [] [] rfl rfl)
    exact .line (.cons hx (.cons hy .nil)) (by simp)
  exact ⟨⟨hd, hline⟩, (readBack line).declaration d hd hline, ⟨List.cons_ne_nil _ _, has, hline'⟩,
    (readBack line').assignments as (List.cons_ne_nil _ _) has hline'⟩

end SJava
