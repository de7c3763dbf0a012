import SJava.Proofs.Assigning
import SJava.Proofs.Structured.Simulation
import SJava.Proofs.Written

/-!
# Lines that fit two kinds

The kinds are tried one after the other, but the order matters for few lines: those in
which a parenthesis or an equals sign stands right behind a type, none of which is accepted
anywhere, and those that start with `void`, for which the first kind is asked in advance.

* `Text.StartsTyped`: a type with that character behind it;
* `Kind.clash_of_fits`: the kinds that a line can fit at once;
* `Kind.ofTable_eq_of_iff`: when the kinds can be tried in another order;
* `Kind.ToldApart`, `Kind.toldApart`: behind the header of a method, what order the kinds are
  tried in does not matter.
-/

namespace SJava

open SJava.Tree

/-! ## Lists -/

/-- Where one element at most is looked for, the order does not matter. -/
theorem find?_eq_of_perm {α : Type} {p : α → Bool} {xs ys : List α} (h : xs.Perm ys)
    (hone : ∀ x ∈ xs, ∀ y ∈ xs, p x = true → p y = true → x = y) : xs.find? p = ys.find? p := by
  cases hx : xs.find? p with
  | none =>
    rw [List.find?_eq_none] at hx
    exact (List.find?_eq_none.2 fun y hy => hx y (h.mem_iff.2 hy)).symm
  | some x =>
    have hmem := List.mem_of_find?_eq_some hx
    have hpx := List.find?_some hx
    obtain ⟨y, hy⟩ := Option.isSome_iff_exists.1 (List.find?_isSome.2 ⟨x, h.mem_iff.1 hmem, hpx⟩)
    have hpy := List.find?_some hy
    rw [hy, hone x hmem y (h.mem_iff.2 (List.mem_of_find?_eq_some hy)) hpx hpy]

/-- A list with commas starts with its first piece. -/
theorem Tree.exists_commas_cons (p : Text) (ps : List Text) : ∃ rest, commas (p :: ps) = p ++ rest := by
  cases ps with
  | nil => exact ⟨[], by simp [commas]⟩
  | cons q ps => exact ⟨_, by rw [commas, List.intercalate_cons_cons, List.append_assoc]⟩

/-! ## What kinds of lines start with -/

namespace Text

/-- Behind blanks in front of a name stands a character of the name. -/
theorem exists_head?_of_name {u w : Text} (hu : ∀ c ∈ u, isBlank c = true) (hne : w ≠ [])
    (hw : ∀ c ∈ w, isNamePart c = true) (rest : Text) :
    ∃ c, (trimStart (u ++ (w ++ rest))).head? = some c ∧ isNamePart c = true := by
  obtain ⟨c, w, rfl, hc⟩ := exists_cons_of_name hne hw
  rw [trimStart_append hu, List.cons_append, trimStart_eq_self rfl (CharSet.isBlank_of_namePart hc)]
  exact ⟨c, rfl, hc⟩

/-- The line starts, behind any blanks, with a type and with the character as the next one
behind blanks. -/
def StartsTyped (c : Char) (line : Text) : Prop :=
  ∃ u, ∃ ty : Ty, ∃ b rest, (∀ x ∈ u, isBlank x = true) ∧ (Pattern.oneOrMore .blank).Matches b ∧
    line = u ++ ty.keyword ++ b ++ c :: rest

variable {line : Text}

theorem startsTyped_iff {c : Char} (hc : isBlank c = false) : StartsTyped c line ↔
    (∃ ty : Ty, leadWord line = ty.keyword) ∧ BlankBehindLead line ∧ nextToLead line = some c := by
  constructor
  · rintro ⟨u, ty, b, rest, hu, hb, rfl⟩
    have htyped : Declaration.IsTyped false ty.keyword (u ++ (ty.keyword ++ b)) := .plain hu hb
    obtain ⟨hlead, hbehind, hnext⟩ := htyped.lead (c :: rest)
    rw [trimStart_eq_self rfl hc] at hnext
    rw [List.append_assoc u]
    exact ⟨⟨ty, hlead⟩, hbehind, hnext⟩
  · rintro ⟨⟨ty, hlead⟩, ⟨x, rest, hrest, hx⟩, hnext⟩
    obtain ⟨back, hback⟩ := List.head?_eq_some_iff.1 hnext
    refine ⟨line.takeWhile isBlank, ty, (behindLead line).takeWhile isBlank, back,
      fun _ hc => List.mem_takeWhile_imp hc,
      Pattern.matches_oneOrMore.2 ⟨by simp [hrest, hx], fun _ hc => List.mem_takeWhile_imp hc⟩, ?_⟩
    calc line
      _ = line.takeWhile isBlank ++ trimStart line := List.takeWhile_append_dropWhile.symm
      _ = line.takeWhile isBlank ++ (leadWord line ++ behindLead line) := by
        rw [leadWord, behindLead, List.takeWhile_append_dropWhile]
      _ = line.takeWhile isBlank ++ (leadWord line ++
            ((behindLead line).takeWhile isBlank ++ trimStart (behindLead line))) := by
        rw [trimStart, List.takeWhile_append_dropWhile]
      _ = _ := by rw [hlead, hback]; simp

end Text

namespace Kind

open Pattern

variable {line : Text}

/-- A header has a name behind its `void`. -/
theorem next_of_header (h : methodHeader.form.Matches line) :
    ∃ c, Text.nextToLead line = some c ∧ Text.isNamePart c = true := by
  simp only [form, matches_assoc] at h
  obtain ⟨u, _, rfl, hu, w, _, rfl, hw, b, _, rfl, hb, name, rest, rfl, hname, -⟩ := h
  rw [matches_word] at hw
  subst hw
  rw [nextToLead_of_word_blank hu (by decide) (Text.forall_of_all (by decide)) hb]
  obtain ⟨hne, hpart⟩ := isNamePart_of_name hname fun _ => isNamePart_of_letter
  exact Text.exists_head?_of_name (u := []) (by simp) hne hpart rest

/-- The end of a block starts with no word. -/
theorem lead_of_scopeEnd (h : scopeEnd.form.Matches line) :
    Text.leadWord line = [] ∧ Text.nextToLead line = some '}' := by
  simp only [form, matches_assoc] at h
  obtain ⟨u, _, rfl, hu, _, v, rfl, hbrace, hv⟩ := h
  rw [matches_char] at hbrace
  subst hbrace
  have hstart : Text.trimStart (u ++ (['}'] ++ v)) = '}' :: v := by
    rw [Text.trimStart_append hu]
    exact Text.trimStart_eq_self rfl (by decide)
  have hbehind : Text.behindLead (u ++ (['}'] ++ v)) = '}' :: v := by
    rw [Text.behindLead, hstart]
    exact List.dropWhile_cons_of_neg (by decide)
  rw [Text.leadWord, Text.nextToLead, hbehind, hstart, Text.trimStart_eq_self rfl (by decide)]
  exact ⟨List.takeWhile_cons_of_neg (by decide), rfl⟩

/-- An assignment line starts with a name and an equals sign. -/
theorem next_of_assignment (h : assignment.fits line = true) : Text.nextToLead line = some '=' := by
  obtain ⟨p, ps, hsplit⟩ := List.exists_cons_of_ne_nil (List.splitOn_ne_nil ',' line)
  obtain ⟨rest, hrest⟩ := exists_commas_cons p ps
  have hline : line = p ++ rest := by
    rw [← hrest, ← hsplit, commas, List.intercalate_splitOn]
  have hp : assignment.form.Matches p := accepts_iff.1 (List.all_eq_true.1 h p (by simp [hsplit]))
  simp only [form, matches_assoc] at hp
  obtain ⟨u, _, rfl, hu, name, _, rfl, hname, b, _, rfl, hb, _, back, rfl, hequals, -⟩ := hp
  rw [matches_char] at hequals
  subst hequals
  obtain ⟨hne, hpart⟩ := isNamePart_of_name hname fun _ => isNamePart_of_first
  have hnext : Text.nextToLead (u ++ (name ++ (b ++ '=' :: (back ++ rest)))) = some '=' :=
    (lead_of_word_char hu hne hpart hb (by decide) (by decide)).2
  rw [hline]
  simpa using hnext

/-! ## The kinds that a line can fit -/

/-- The character that can stand next to the word a line of the kind starts with. No
declaration is told by it. -/
def isNext : Kind → Char → Bool
  | methodHeader, c => Text.isNamePart c
  | condition, c | call, c => c == '('
  | returnStatement, c => c == ';'
  | assignment, c => c == '='
  | scopeEnd, c => c == '}'
  | declaration, _ => false

variable {kind k₁ k₂ : Kind}

theorem next_of_fits (h : kind.fits line = true) (hne : kind ≠ declaration) :
    ∃ c, Text.nextToLead line = some c ∧ kind.isNext c = true := by
  have hm (hne : kind ≠ assignment) : kind.form.Matches line := (fits_iff_matches hne).1 h
  cases kind with
  | methodHeader => exact next_of_header (hm (by decide))
  | condition => exact ⟨'(', (lead_of_condition (hm (by decide))).2, rfl⟩
  | returnStatement => exact ⟨';', (lead_of_return (hm (by decide))).2, rfl⟩
  | call => exact ⟨'(', lead_of_call (hm (by decide)), rfl⟩
  | declaration => exact absurd rfl hne
  | assignment => exact ⟨'=', next_of_assignment h, rfl⟩
  | scopeEnd => exact ⟨'}', (lead_of_scopeEnd (hm (by decide))).2, rfl⟩

/-- That character is shared by conditions and calls alone. -/
theorem eq_of_isNext {c : Char} (h₁ : k₁.isNext c = true) (h₂ : k₂.isNext c = true) :
    k₁ = k₂ ∨ [k₁, k₂].Perm [condition, call] := by
  have hname : Text.isNamePart '(' = false ∧ Text.isNamePart ';' = false ∧
      Text.isNamePart '=' = false ∧ Text.isNamePart '\x7d' = false := by decide
  cases k₁ <;> cases k₂ <;> first
    | exact .inl rfl
    | exact .inr (by decide)
    | simp_all [isNext]

/-- What a line ends in tells these two apart. -/
theorem getLast?_trimEnd_of_ending {c : Char} (hk : kind.ending? = some c) (h : kind.form.Matches line) :
    (Text.trimEnd line).getLast? = some c := by
  obtain ⟨u, v, rfl, hv⟩ := exists_ending hk h
  have hc : Text.isBlank c = false := by
    cases kind <;> cases hk <;> decide
  have hline : u ++ c :: v = (u ++ [c]) ++ v := by simp
  rw [hline, Text.trimEnd_append hv, Text.trimEnd_eq_self List.getLast?_concat hc, List.getLast?_concat]

theorem not_condition_of_call (h : call.form.Matches line) : ¬condition.form.Matches line := by
  intro hcondition
  have hlast := getLast?_trimEnd_of_ending rfl h
  rw [getLast?_trimEnd_of_ending rfl hcondition] at hlast
  exact absurd hlast (by decide)

/-- The word a declaration starts with starts no line of most other kinds. -/
theorem leadWord_not_mem (h : declaration.form.Matches line) :
    Text.leadWord line ∉
      [Keyword.voidWord, Keyword.ifWord, Keyword.whileWord, Keyword.returnWord, []] := by
  rcases Declaration.lead_of_form h with ⟨hfinal, -⟩ | ⟨ty, hty, -⟩
  · rw [hfinal]
    decide
  · rw [hty]
    cases ty <;> decide

/-- What else a declaration can be is told by what stands behind its type. -/
theorem startsTyped_of_declaration {c : Char} (h : declaration.form.Matches line)
    (hnext : Text.nextToLead line = some c) (hc : Text.isNamePart c = false)
    (hblank : Text.isBlank c = false) : Text.StartsTyped c line := by
  rcases Declaration.lead_of_form h with ⟨-, d, hd, hname⟩ | ⟨ty, hty, hbehind⟩
  · rw [hnext, Option.some.injEq] at hd
    rw [← hd, hc] at hname
    cases hname
  · exact (Text.startsTyped_iff hblank).2 ⟨⟨ty, hty⟩, hbehind, hnext⟩

theorem clash_of_declaration (h : declaration.fits line = true) (hk : kind.fits line = true)
    (hne : kind ≠ declaration) :
    kind = call ∧ Text.StartsTyped '(' line ∨ kind = assignment ∧ Text.StartsTyped '=' line := by
  have hform := (fits_iff_matches (by decide)).1 h
  have hword := leadWord_not_mem hform
  have hm (hne : kind ≠ assignment) : kind.form.Matches line := (fits_iff_matches hne).1 hk
  cases kind with
  | methodHeader =>
    rw [(lead_of_header (hm (by decide))).1] at hword
    exact absurd (by decide) hword
  | condition =>
    rcases (lead_of_condition (hm (by decide))).1 with hlead | hlead <;>
    · rw [hlead] at hword
      exact absurd (by decide) hword
  | returnStatement =>
    rw [(lead_of_return (hm (by decide))).1] at hword
    exact absurd (by decide) hword
  | call =>
    have hnext := lead_of_call (hm (by decide))
    exact .inl ⟨rfl, startsTyped_of_declaration hform hnext (by decide) (by decide)⟩
  | declaration => exact absurd rfl hne
  | assignment =>
    exact .inr ⟨rfl, startsTyped_of_declaration hform (next_of_assignment hk) (by decide) (by decide)⟩
  | scopeEnd =>
    rw [(lead_of_scopeEnd (hm (by decide))).1] at hword
    exact absurd (by decide) hword

theorem fits_of_perm {kinds : List Kind} (h₁ : k₁.fits line = true) (h₂ : k₂.fits line = true)
    (h : [k₁, k₂].Perm kinds) : ∀ k ∈ kinds, k.fits line = true := by
  intro k hk
  rcases List.mem_pair.1 (h.mem_iff.2 hk) with rfl | rfl
  exacts [h₁, h₂]

/-- A line fits two kinds only with a parenthesis or an equals sign behind a type. -/
theorem clash_of_fits (h₁ : k₁.fits line = true) (h₂ : k₂.fits line = true) (hne : k₁ ≠ k₂) :
    [k₁, k₂].Perm [call, declaration] ∧ Text.StartsTyped '(' line ∨
      [k₁, k₂].Perm [declaration, assignment] ∧ Text.StartsTyped '=' line := by
  by_cases hd₁ : k₁ = declaration
  · subst hd₁
    rcases clash_of_declaration h₁ h₂ hne.symm with ⟨rfl, htyped⟩ | ⟨rfl, htyped⟩
    · exact .inl ⟨by decide, htyped⟩
    · exact .inr ⟨by decide, htyped⟩
  by_cases hd₂ : k₂ = declaration
  · subst hd₂
    rcases clash_of_declaration h₂ h₁ hne with ⟨rfl, htyped⟩ | ⟨rfl, htyped⟩
    · exact .inl ⟨by decide, htyped⟩
    · exact .inr ⟨by decide, htyped⟩
  -- of other kinds, the character next to the first word leaves one
  obtain ⟨c, hnext, hc₁⟩ := next_of_fits h₁ hd₁
  obtain ⟨d, hd, hc₂⟩ := next_of_fits h₂ hd₂
  obtain rfl : c = d := by rwa [hnext, Option.some.injEq] at hd
  rcases eq_of_isNext hc₁ hc₂ with heq | hperm
  · exact absurd heq hne
  · have hboth := fits_of_perm h₁ h₂ hperm
    have hcall := (fits_iff_matches (by decide)).1 (hboth call (by decide))
    have hcondition := (fits_iff_matches (by decide)).1 (hboth condition (by decide))
    exact absurd hcondition (not_condition_of_call hcall)

/-! ## Trying the kinds in another order -/

/-- A line that starts with `void` does not start with a type. -/
theorem not_startsTyped_of_startsVoid {c : Char} (hc : Text.isBlank c = false)
    (h : startsVoid line = true) : ¬Text.StartsTyped c line := by
  intro htyped
  obtain ⟨⟨ty, hlead⟩, -⟩ := (Text.startsTyped_iff hc).1 htyped
  rw [(lead_of_startsVoid h).1] at hlead
  revert hlead
  cases ty <;> decide

theorem ofTable_of_fits {first : Kind} (ht : isTerminated line = true) (h : first.fits line = true)
    (rest : List Kind) : ofTable first rest line = .ok first := by
  have hfind : (first :: rest).find? (·.fits line) = some first := List.find?_cons_of_pos h
  rw [ofTable, hfind, ht, h, Bool.not_true, Bool.and_false]
  rfl

theorem ofTable_of_startsVoid {first : Kind} (ht : isTerminated line = true)
    (hvoid : startsVoid line = true) (h : first.fits line = false) (rest : List Kind) :
    ofTable first rest line = .error .invalidMethodDeclaration := by
  rw [ofTable, ht, hvoid, h]
  rfl

section

variable {first : Kind} {rest : List Kind} (htable : (first :: rest).Perm all)
  (hopen : ¬Text.StartsTyped '(' line) (hequals : ¬Text.StartsTyped '=' line)
include htable hopen hequals

theorem find?_fits_eq :
    (first :: rest).find? (·.fits line) = (methodHeader :: others).find? (·.fits line) := by
  refine find?_eq_of_perm htable fun k₁ _ k₂ _ h₁ h₂ => ?_
  by_contra hne
  rcases clash_of_fits h₁ h₂ hne with ⟨-, htyped⟩ | ⟨-, htyped⟩
  exacts [hopen htyped, hequals htyped]

/-- What the table starts with is seen only on lines that start with `void`, and only where
it and the header of a method do not both fit. -/
theorem ofTable_eq_of_iff : ofTable first rest line = of line ↔
    (isTerminated line = true → startsVoid line = true →
      first.fits line = methodHeader.fits line) := by
  constructor
  · intro h ht hvoid
    cases hfirst : first.fits line with
    | true =>
      rw [ofTable_of_fits ht hfirst] at h
      exact ((of_eq_ok_iff.1 h.symm).2.1 hvoid).symm
    | false =>
      rw [ofTable_of_startsVoid ht hvoid hfirst] at h
      cases hheader : methodHeader.fits line with
      | true =>
        rw [of_eq_header ht hheader] at h
        cases h
      | false => rfl
  · intro h
    rw [of, ofTable, ofTable, find?_fits_eq htable hopen hequals]
    cases ht : isTerminated line with
    | false => rfl
    | true =>
      cases hvoid : startsVoid line with
      | false => rfl
      | true => rw [h ht hvoid]

end

/-! ## Lines that fit two kinds -/

theorem of_eq_call_of_declaration (hcall : call.fits line = true) (h : declaration.fits line = true) :
    of line = .ok call := by
  have hform := (fits_iff_matches (by decide)).1 h
  refine of_eq_call (Declaration.getLast?_of_form hform) hcall fun hvoid => leadWord_not_mem hform ?_
  rw [hvoid.1]
  decide

theorem of_eq_declaration_of_assignment (h : declaration.fits line = true)
    (hassign : assignment.fits line = true) : of line = .ok declaration := by
  have hform := (fits_iff_matches (by decide)).1 h
  have hnext := next_of_assignment hassign
  refine of_eq_declaration (Declaration.getLast?_of_form hform) h (fun hvoid => leadWord_not_mem hform ?_)
    (by rw [hnext]; decide) (by rw [hnext]; decide)
  rw [hvoid]
  decide

end Kind

/-! ## What is done with them -/

/-- A call is of the word that its line starts with. -/
theorem Call.name_of_ofLine {line : Text} {c : Call} (h : Kind.of line = .ok .call)
    (hok : Call.ofLine line = .ok c) : c.name = Text.leadWord line := by
  have hm := (Kind.fits_iff_matches (by decide)).1 (Kind.fits_of_eq_ok h)
  obtain ⟨u, name, b, rest, rfl, hu, hname, hb, hrest⟩ := Kind.exists_front hm
  obtain ⟨hne, hpart⟩ := Kind.isNamePart_of_name hname fun _ => Kind.isNamePart_of_letter
  have hfront : '(' ∉ u ++ name ++ b := Text.not_mem_around hu hpart hb (by decide) (by decide)
  obtain ⟨inside, hinside⟩ := Text.exists_parenthesized hfront hrest
  have hlead : Text.leadWord (u ++ (name ++ (b ++ '(' :: rest))) = name :=
    (Kind.lead_of_word_char hu hne hpart hb (by decide) (by decide)).1
  rw [Call.ofLine, hinside] at hok
  cases hok
  rw [Text.trim_around hu (.of_name hne hpart) hb, List.append_assoc, List.append_assoc, hlead]

/-- The registries that come of registering the methods of header lines. -/
inductive Registry.Built : Registry → Prop
  | empty : Built ∅
  | register {s t : State} {line : Text} : Built s.methods → s.register line = .ok t → Built t.methods

/-- No method in them has a reserved name. -/
theorem Registry.Built.not_reserved {methods : Registry} (h : Built methods) {name : Text}
    (hname : name ∈ methods) : name ∉ Keyword.reserved := by
  induction h with
  | empty => exact absurd hname Std.ExtTreeMap.not_mem_empty
  | @register s t line _ hregister ih =>
    obtain ⟨m, hm, hregister⟩ := bind_eq_ok_iff.1 hregister
    dsimp only at hregister
    split at hregister
    · exact absurd hregister throw_ne_ok
    · cases hregister
      obtain ⟨header, -, hm⟩ := bind_eq_ok_iff.1 hm
      obtain ⟨parameters, -, hm⟩ := bind_eq_ok_iff.1 hm
      obtain ⟨_, hcheck, hm⟩ := bind_eq_ok_iff.1 hm
      cases hm
      rcases Std.ExtTreeMap.mem_insert.1 hname with heq | hmem
      · rw [← Std.LawfulEqCmp.eq_of_compare heq]
        exact (Name.check_eq_ok_iff.1 hcheck).1
      · exact ih hmem

/-- Nothing can be called by the name of a type. -/
theorem Stack.not_checkCall {methods : Registry} {line : Text} (hmethods : methods.Built)
    (h : Kind.of line = .ok .call) (hlead : Text.leadWord line ∈ Keyword.reserved) (s : Stack) :
    s.checkCall methods line ≠ .ok () := by
  intro hs
  obtain ⟨c, hc, hs⟩ := bind_eq_ok_iff.1 hs
  split at hs
  · next m hm =>
    have hname := hmethods.not_reserved (Std.ExtTreeMap.mem_iff_isSome_getElem?.2 (by rw [hm]; rfl))
    rw [Call.name_of_ofLine h hc] at hname
    exact hname hlead
  · exact absurd hs throw_ne_ok

/-- A clause starts with its name. -/
theorem Clause.Written.exists_front {c : Clause} {piece : Text} (h : c.Written piece) :
    ∃ u rest, (∀ x ∈ u, Text.isBlank x = true) ∧ piece = u ++ (c.name ++ rest) := by
  cases h with
  | bare hp =>
    obtain ⟨u, v, hu, -, rfl⟩ := hp
    exact ⟨u, v, hu, by simp⟩
  | @valued x _ _ q hp _ =>
    obtain ⟨u, v, hu, -, rfl⟩ := hp
    exact ⟨u, v ++ '=' :: q, hu, by simp⟩

/-- A name stands behind the type of what can be declared. -/
theorem Stack.next_of_declareLine {s t : Stack} {line : Text} (h : Kind.of line = .ok .declaration)
    (hs : s.declareLine line = .ok t) :
    ∃ c, Text.nextToLead line = some c ∧ Text.isNamePart c = true := by
  obtain ⟨d, hd, hs⟩ := bind_eq_ok_iff.1 hs
  obtain ⟨hplain, hwritten⟩ := Declaration.written_of_ofLine h hd
  obtain ⟨_, vs, -, hvs, -⟩ := declareClauses_eq_ok_iff.1 hs
  obtain @⟨front, v, ps, htyped, hps, hv⟩ := hwritten
  obtain ⟨isFinal, token, cs⟩ := d
  obtain ⟨⟨ty, rfl⟩, hne, -⟩ := hplain
  have hline : Declaration.line front ps ++ v = front ++ (commas ps ++ ([';'] ++ v)) := by
    simp [Declaration.line]
  obtain ⟨-, -, hnext⟩ := htyped.lead (commas ps ++ ([';'] ++ v))
  rw [hline, hnext]
  cases isFinal with
  | true =>
    obtain ⟨c, w, hw, hc⟩ := exists_cons_of_name (keyword_ne_nil ty) (isNamePart_keyword ty)
    exact ⟨c, by rw [hw]; rfl, hc⟩
  | false =>
    obtain ⟨c, cs, rfl⟩ := List.exists_cons_of_ne_nil hne
    obtain ⟨w, ws, hcw, -, rfl⟩ := List.forall₂_cons_left_iff.1 hvs
    obtain ⟨p, ps, hcp, -, rfl⟩ := List.forall₂_cons_left_iff.1 hps
    have hdeclares := clauseVariable_eq_ok hcw
    have hname : Name.checkVariable c.name = .ok () := hdeclares.name_eq ▸ hdeclares.name_ok
    obtain ⟨u, rest, hu, rfl⟩ := hcp.exists_front
    obtain ⟨rest', hrest⟩ := exists_commas_cons (u ++ (c.name ++ rest)) ps
    have hbehind : commas ((u ++ (c.name ++ rest)) :: ps) ++ ([';'] ++ v) =
        u ++ (c.name ++ (rest ++ (rest' ++ ([';'] ++ v)))) := by
      rw [hrest]
      simp
    rw [hbehind, if_neg Bool.false_ne_true]
    exact Text.exists_head?_of_name hu (Word.ofName hname).text_ne_nil
      (fun _ => (Word.ofName hname).isNamePart) _

namespace State

variable {s : State} {line : Text}

/-- A line with a parenthesis behind a type is a call, which cannot stand outside of methods
and calls none inside. -/
theorem refused_of_call (hcall : Kind.call.fits line = true) (h : Kind.declaration.fits line = true) :
    (s.stack.isGlobal = true → ∃ fault, s.outlineLine line = .error fault) ∧
      (s.methods.Built → ∃ fault, s.bodyLine line = .error fault) := by
  have hkind := Kind.of_eq_call_of_declaration hcall h
  have hform := (Kind.fits_iff_matches (by decide)).1 h
  have htrack := track_of_semicolon s.stack hkind (by decide) (Declaration.getLast?_of_form hform)
  refine ⟨fun hglobal => ⟨.statementInGlobalScope, ?_⟩, fun hmethods => exists_eq_error_iff.2 ?_⟩
  · rw [outlineLine, State.track, htrack, hkind]
    exact if_pos hglobal
  · rintro ⟨t, kind⟩ hs
    obtain ⟨u, stack, hk, -, hchecked, -⟩ := bodyLine_eq_ok hs
    obtain rfl : Kind.call = kind := by rwa [hkind, Except.ok.injEq] at hk
    cases hchecked with
    | call done =>
      exact u.not_checkCall hmethods hkind (Kind.leadWord_of_declaration hform) done

/-- A line with an equals sign behind a type is a declaration, and of no name. -/
theorem refused_of_assignment (h : Kind.declaration.fits line = true)
    (hassign : Kind.assignment.fits line = true) :
    (s.stack.isGlobal = true → ∃ fault, s.outlineLine line = .error fault) ∧
      ∃ fault, s.bodyLine line = .error fault := by
  have hkind := Kind.of_eq_declaration_of_assignment h hassign
  have hlast := Declaration.getLast?_of_form ((Kind.fits_iff_matches (by decide)).1 h)
  have hdeclare (u t : Stack) : u.declareLine line ≠ .ok t := fun ht => by
    obtain ⟨c, hc, hname⟩ := Stack.next_of_declareLine hkind ht
    rw [Kind.next_of_assignment hassign, Option.some.injEq] at hc
    rw [← hc] at hname
    exact absurd hname (by decide)
  refine ⟨fun hglobal => exists_eq_error_iff.2 fun t ht => ?_, exists_eq_error_iff.2 ?_⟩
  · rw [outlineLine, State.track, track_of_semicolon s.stack hkind (by decide) hlast, hkind] at ht
    obtain ⟨stack, hdone, -⟩ := map_eq_ok_iff.1 ((if_pos hglobal).symm.trans ht)
    exact hdeclare _ _ hdone
  · rintro ⟨t, kind⟩ hs
    obtain ⟨u, stack, hk, -, hchecked, -⟩ := bodyLine_eq_ok hs
    obtain rfl : Kind.declaration = kind := by rwa [hkind, Except.ok.injEq] at hk
    cases hchecked with
    | declaration done => exact hdeclare u stack done

end State

namespace Kind

/-- What a line has to do with the order in which the kinds are tried. -/
structure ToldApart (line : Text) : Prop where
  /-- Only two pairs of kinds can be fitted at once, with a parenthesis or an equals sign
  behind a type. -/
  clash : ∀ k₁ k₂ : Kind, k₁ ≠ k₂ → k₁.fits line = true → k₂.fits line = true →
    [k₁, k₂].Perm [call, declaration] ∧ Text.StartsTyped '(' line ∨
      [k₁, k₂].Perm [declaration, assignment] ∧ Text.StartsTyped '=' line
  /-- On other lines the order does not matter, if the header of a method leads it or the
  line does not start like one. -/
  order : ¬Text.StartsTyped '(' line → ¬Text.StartsTyped '=' line → ∀ first rest,
    (first :: rest).Perm all → first = methodHeader ∨ startsVoid line = false →
      ofTable first rest line = of line
  /-- With another kind in the lead, it matters exactly if this kind or the header of a
  method, and not both, fits a line that starts like a header. -/
  lead : ¬Text.StartsTyped '(' line → ¬Text.StartsTyped '=' line → ∀ first rest,
    (first :: rest).Perm all → (ofTable first rest line ≠ of line ↔
      isTerminated line = true ∧ startsVoid line = true ∧ first.fits line ≠ methodHeader.fits line)
  /-- A line that fits two kinds is refused outside of methods and inside, whatever is declared
  in front of it. -/
  refused : ∀ k₁ k₂ : Kind, k₁ ≠ k₂ → k₁.fits line = true → k₂.fits line = true → ∀ s : State,
    (s.stack.isGlobal = true → ∃ fault, s.outlineLine line = .error fault) ∧
      (s.methods.Built → ∃ fault, s.bodyLine line = .error fault)

/-- Every line that is accepted fits one kind only, and is of that kind in whatever order the
kinds are tried behind the header of a method. -/
theorem toldApart (line : Text) : ToldApart line where
  clash k₁ k₂ hne h₁ h₂ := clash_of_fits h₁ h₂ hne
  order hopen hequals first rest htable hlead := by
    refine (ofTable_eq_of_iff htable hopen hequals).2 fun _ hvoid => ?_
    rcases hlead with rfl | hnot
    · rfl
    · rw [hnot] at hvoid
      cases hvoid
  lead hopen hequals first rest htable := by
    rw [ne_eq, ofTable_eq_of_iff htable hopen hequals]
    simp only [not_forall, exists_prop, ne_eq]
  refused k₁ k₂ hne h₁ h₂ s := by
    rcases clash_of_fits h₁ h₂ hne with ⟨hperm, -⟩ | ⟨hperm, -⟩
    · have hboth := fits_of_perm h₁ h₂ hperm
      exact State.refused_of_call (hboth call (by decide)) (hboth declaration (by decide))
    · have hboth := fits_of_perm h₁ h₂ hperm
      obtain ⟨hglobal, hinside⟩ := State.refused_of_assignment (s := s)
        (hboth declaration (by decide)) (hboth assignment (by decide))
      exact ⟨hglobal, fun _ => hinside⟩

/-- A line of each of the two pairs, and a header with the kinds behind it tried from the last
to the first. -/
theorem toldApart_typed :
    let s : State := {}
    let paren : Text := "int (x);".toList
    let equals : Text := "String = 5;".toList
    let header : Text := "void f() \x7b".toList
    (call.fits paren = true ∧ declaration.fits paren = true ∧ of paren = .ok call ∧
      ∃ fault, s.outlineLine paren = .error fault) ∧
    (declaration.fits equals = true ∧ assignment.fits equals = true ∧ of equals = .ok declaration ∧
      s.methods.Built ∧ ∃ fault, s.bodyLine equals = .error fault) ∧
    ¬Text.StartsTyped '(' header ∧ ¬Text.StartsTyped '=' header ∧
      ofTable methodHeader others.reverse header = .ok methodHeader := by
  intro s paren equals header
  have hcall : call.fits paren = true := by decide +kernel
  have hparen : declaration.fits paren = true := by decide +kernel
  have hequals : declaration.fits equals = true := by decide +kernel
  have hassign : assignment.fits equals = true := by decide +kernel
  have hvoid : startsVoid header = true := by decide +kernel
  have hopen := not_startsTyped_of_startsVoid (c := '(') (by decide) hvoid
  have hequal := not_startsTyped_of_startsVoid (c := '=') (by decide) hvoid
  have hof : of header = .ok methodHeader := by decide +kernel
  refine ⟨⟨hcall, hparen, of_eq_call_of_declaration hcall hparen, ?_⟩,
    ⟨hequals, hassign, of_eq_declaration_of_assignment hequals hassign, .empty, ?_⟩, hopen, hequal, ?_⟩
  · exact ((toldApart paren).refused call declaration (by decide) hcall hparen s).1 rfl
  · exact ((toldApart equals).refused declaration assignment (by decide) hequals hassign s).2 .empty
  · exact ((toldApart header).order hopen hequal methodHeader others.reverse
      ((List.reverse_perm others).cons methodHeader) (.inl rfl)).trans hof

/-- With the header of a method in another place, the order matters for lines outside of the
two pairs: `void (a);`, which fits calls only, is a call if calls lead, and `void f() {`, which
fits headers only, is none if another kind does. -/
theorem not_ofTable_eq_of_void :
    let line : Text := "void (a);".toList
    let header : Text := "void f() \x7b".toList
    (¬Text.StartsTyped '(' line ∧ ¬Text.StartsTyped '=' line ∧ (∀ k : Kind, k.fits line = true → k = call) ∧
      (call :: all.erase call).Perm all ∧ ofTable call (all.erase call) line = .ok call ∧
        of line = .error .invalidMethodDeclaration) ∧
    ¬Text.StartsTyped '(' header ∧ ¬Text.StartsTyped '=' header ∧
      (∀ k : Kind, k.fits header = true → k = methodHeader) ∧ (scopeEnd :: all.reverse.tail).Perm all ∧
        ofTable scopeEnd all.reverse.tail header = .error .invalidMethodDeclaration ∧
          of header = .ok methodHeader := by
  intro line header
  have hline : startsVoid line = true := by decide +kernel
  have hheader : startsVoid header = true := by decide +kernel
  refine ⟨⟨not_startsTyped_of_startsVoid (by decide) hline, not_startsTyped_of_startsVoid (by decide) hline,
    ?_, by decide, by decide +kernel, by decide +kernel⟩, not_startsTyped_of_startsVoid (by decide) hheader,
    not_startsTyped_of_startsVoid (by decide) hheader, ?_, by decide, by decide +kernel, by decide +kernel⟩
  · intro k
    cases k <;> decide +kernel
  · intro k
    cases k <;> decide +kernel

end Kind

end SJava
