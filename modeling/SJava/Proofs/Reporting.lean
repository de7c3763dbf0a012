import SJava.Proofs.LineByLine
import SJava.Proofs.Pieces
import SJava.Proofs.Returns

/-!
# Where a failure is reported

A failure is reported with the number of a line, and the line of that number is shown. It is
the line that one of the walks could not go on with, as it stood in front of it; where a return
is missed, it is the brace that closes the method.

* `Script.FailsAt.closes`: where a return is missed;
* `Diagnostic.PointsAt`: what is shown with a diagnostic;
* `excerptsAgree`: the lines that are read and shown of a file, and those that are reported.
-/

namespace SJava

/-- A return is missed at the end of the block of its method. -/
theorem Progress.closes_of_missingReturn {p : Progress} {line name : Text} (hp : p.Coherent)
    (h : p.step line = .error (.missingReturn name)) : Braces.closes line = true := by
  obtain ⟨w, s, kind, hw, hbody, hinside⟩ := exists_of_missingReturn h
  obtain ⟨d, -, hblock⟩ := hp.inside w hw
  have hle := hblock.le_depth
  obtain ⟨hdepth, hactive⟩ := State.active_bodyLine hbody hblock.active hle
  by_contra hcloses
  -- a line that closes nothing stays in the block, and so in the method
  have hd : d ≤ s.stack.depth := by
    rw [hdepth, Braces.shift, if_neg hcloses]
    split <;> omega
  rw [if_pos hd] at hactive
  rw [Stack.isInsideMethod, hactive] at hinside
  cases hinside

namespace Script

variable {script : Script} {pre : List Line} {l : Line} {failure : Failure}

theorem FailsAt.closes {name : Text} (h : script.FailsAt pre l (.missingReturn name)) :
    Braces.closes l.text = true := by
  cases h with
  | outline _ fails => exact absurd rfl ((State.raises_outlineLine _ _ _ fails).notReturn name)
  | body outlined before fails =>
    exact Progress.closes_of_missingReturn (Script.coherent_steps outlined before) fails

/-- A script without lines is legal. -/
theorem lines_ne_nil_of_verify (h : script.verify = .error failure) : script.lines ≠ [] := by
  intro hlines
  have hbalance : script.checkBalance = .ok () := by rw [checkBalance, hlines]; rfl
  have houtline : script.outline = .ok {} := by rw [outline, hlines]; rfl
  have hbodies : script.bodies {} = .ok {} := by rw [bodies, hlines]; rfl
  rw [verify, hbalance, ok_bind, houtline, ok_bind, hbodies] at h
  cases h

end Script

namespace Content

variable {marker : Text} {bytes : List UInt8} {t : Text} {script : Script}

theorem script_eq_ok {c : Content} (h : c.script marker = .ok script) :
    script.lines = (c.readings marker).filterMap Reading.line? ∧ script.length = c.linesRead := by
  unfold Content.script at h
  split at h
  · cases h
  · cases h
    exact ⟨rfl, rfl⟩

/-- A line to be checked can be shown. -/
theorem exists_lineAt? (hread : Text.decode? bytes = some t)
    (hscript : (Content.bytes bytes).script marker = .ok script) {l : Line} (hl : l ∈ script.lines) :
    1 ≤ l.number ∧ l.number ≤ (Content.bytes bytes).linesRead ∧
      ∃ raw, (Content.bytes bytes).lineAt? l.number = some raw ∧ Text.trim raw = l.text := by
  rw [(script_eq_ok hscript).1] at hl
  obtain ⟨r, hr, hline⟩ := List.mem_filterMap.1 hl
  cases r with
  | unreadable before => cases hline
  | line l' =>
    cases hline
    obtain ⟨raw, hraw, -, -, htext⟩ := (mem_readings_iff hread).1 hr
    have hsome : ((Content.bytes bytes).lineAt? l.number).isSome = true := by rw [hraw]; rfl
    obtain ⟨hpos, hle⟩ := Finset.mem_Icc.1 ((isSome_lineAt?_iff hread).1 hsome)
    exact ⟨hpos, hle, raw, hraw, htext⟩

end Content

/-- What is shown with a diagnostic of a source. -/
structure Diagnostic.PointsAt (d : Diagnostic) (marker : Text) (c : Content) (raw : Text) : Prop where
  numbered : 1 ≤ d.position.line.toNat
  shown : c.lineAt? d.position.line.toNat = some raw
  /-- Unless a block is left open, it is the line that failed. -/
  failed : d.fault ≠ .unclosedScope → ∃ script pre l post, c.script marker = .ok script ∧
    script.lines = pre ++ l :: post ∧ script.FailsAt pre l d.fault ∧
      l.number = d.position.line.toNat ∧ l.text = Text.trim raw
  /-- Where a return is missed, it is the brace that closes the method. -/
  closing : ∀ name, d.fault = .missingReturn name → Text.trim raw = ['}']

/-- What is read of a file that is UTF-8, and what can be shown of it. -/
structure ShownAsRead (marker : Text) (bytes : List UInt8) (t : Text) : Prop where
  /-- The file is read line by line, as is the number of its lines. -/
  lineByLine : Reading.readOn marker 0 (cutBehind 10 bytes) =
    ((Content.bytes bytes).readings marker, (Content.bytes bytes).linesRead)
  /-- Lines are shown as they stand in the text. -/
  cut : ∀ n, (Content.bytes bytes).lineAt? n =
    if n = 0 then none else (Text.lines t)[n - 1]?.map Reading.withoutEnding
  /-- All lines can be read. -/
  readable : ∀ before, .unreadable before ∉ (Content.bytes bytes).readings marker
  /-- What is read under a number is what is shown under it. -/
  yields : ∀ n text, .line ⟨n, text⟩ ∈ (Content.bytes bytes).readings marker ↔
    ∃ raw, (Content.bytes bytes).lineAt? n = some raw ∧ (∃ c ∈ raw, Text.isBlank c = false) ∧
      ¬marker <+: raw ∧ Text.trim raw = text
  increasing : (((Content.bytes bytes).readings marker).map Reading.linesRead).Pairwise (· < ·)
  /-- The lines that are counted in the end are those that can be shown. -/
  total : {n | ((Content.bytes bytes).lineAt? n).isSome = true}.ncard = (Content.bytes bytes).linesRead

theorem shownAsRead {marker : Text} {bytes : List UInt8} {t : Text}
    (h : Text.decode? bytes = some t) : ShownAsRead marker bytes t where
  lineByLine := by rw [Reading.readOn_eq, Nat.zero_add, Content.readings]
  cut := Content.lineAt?_eq h
  readable before hmem := by
    rw [Content.readings_of_decode? h] at hmem
    have hnone := (Reading.findSome?_unreadable?_all marker 0 ((physicalLines '\n' t).map some)).2 (by simp)
    exact absurd (List.findSome?_eq_none_iff.1 hnone _ hmem) (by simp [Reading.unreadable?])
  yields _ _ := Content.mem_readings_iff h
  increasing := by
    rw [Content.readings_of_decode? h]
    exact (Reading.pairwise_all 0 _).1
  total := Content.ncard_lineAt? h

section

variable {marker path : Text} {bytes : List UInt8} {t : Text} {script : Script} {failure : Failure}

/-- Every fault but one of reading is one of the script that the file holds. -/
theorem exists_script_of_verify {d : Diagnostic}
    (h : Opened.verify marker path (.ok (.file bytes)) = .error d) (hio : d.fault.family ≠ .io) :
    ∃ t script failure, Text.decode? bytes = some t ∧ (Content.bytes bytes).script marker = .ok script ∧
      script.verify = .error failure ∧ d = failure.inSource path := by
  obtain ⟨failure, hfailure, rfl⟩ := mapError_eq_error_iff.1 h
  cases hread : Text.decode? bytes with
  | none =>
    obtain ⟨lines, bad, hfirst⟩ := exists_firstUnreadable hread
    rw [hfirst.verify_eq] at hfailure
    cases hfailure
    exact absurd rfl hio
  | some t =>
    rw [Content.verify] at hfailure
    cases hs : (Content.bytes bytes).script marker with
    | ok script => rw [hs] at hfailure; exact ⟨t, script, failure, rfl, rfl, hfailure, rfl⟩
    | error before => rw [hs] at hfailure; cases hfailure; exact absurd rfl hio

variable (hread : Text.decode? bytes = some t)
  (hscript : (Content.bytes bytes).script marker = .ok script)
  (hshort : (Content.bytes bytes).linesRead < UInt32.size)
include hread hscript hshort

theorem exists_pointsAt_of_failsAt {pre post : List Line} {l : Line}
    (hlines : script.lines = pre ++ l :: post) (hfails : script.FailsAt pre l failure.fault)
    (hnumber : failure.line = l.number) :
    ∃ raw, (failure.inSource path).PointsAt marker (.bytes bytes) raw := by
  obtain ⟨hpos, hle, raw, hraw, htext⟩ := Content.exists_lineAt? hread hscript (l := l) (by simp [hlines])
  have hline : (failure.inSource path).position.line.toNat = l.number := by
    rw [← hnumber]
    exact Edit.toNat_line (by omega) failure.fault path
  have hclosing (name : Text) (hname : failure.fault = .missingReturn name) : Text.trim raw = ['}'] := by
    rw [hname] at hfails
    have hcloses := Braces.closes_iff.1 hfails.closes
    rwa [← htext, Text.trim_trim] at hcloses
  exact ⟨raw,
    { numbered := hline ▸ hpos
      shown := hline ▸ hraw
      failed := fun _ => ⟨script, pre, l, post, hscript, hlines, hfails, hline.symm, htext.symm⟩
      closing := hclosing }⟩

/-- A block that is left open is reported at the last line. -/
theorem exists_pointsAt_of_unclosed (hverify : script.verify = .error ⟨.unclosedScope, script.length⟩) :
    ∃ raw, (Failure.inSource ⟨.unclosedScope, script.length⟩ path).PointsAt marker (.bytes bytes) raw := by
  obtain ⟨l, ls, hlines⟩ := List.exists_cons_of_ne_nil (Script.lines_ne_nil_of_verify hverify)
  obtain ⟨hpos, hle, -⟩ := Content.exists_lineAt? hread hscript (l := l) (by simp [hlines])
  have hlast := (Content.isSome_lineAt?_iff hread).2 (Finset.mem_Icc.2 ⟨hpos.trans hle, Nat.le_refl _⟩)
  obtain ⟨raw, hraw⟩ := Option.isSome_iff_exists.1 hlast
  have hlength := (Content.script_eq_ok hscript).2
  have hline : (Failure.inSource ⟨.unclosedScope, script.length⟩ path).position.line.toNat =
      (Content.bytes bytes).linesRead := by
    rw [← hlength]
    exact Edit.toNat_line (by omega) .unclosedScope path
  exact ⟨raw,
    { numbered := by omega
      shown := hline ▸ hraw
      failed := fun hne => absurd rfl hne
      closing := fun name hname => by cases hname }⟩

end

/-- What is read of a file is what is shown of it, and every fault but one of reading is shown with
the line that it lies in. -/
theorem excerptsAgree (marker path : Text) (bytes : List UInt8) :
    (∀ t, Text.decode? bytes = some t → ShownAsRead marker bytes t) ∧
    ∀ d, Opened.verify marker path (.ok (.file bytes)) = .error d → d.fault.family ≠ .io →
      (Content.bytes bytes).linesRead < UInt32.size →
        ∃ raw, d.PointsAt marker (.bytes bytes) raw := by
  refine ⟨fun _ => shownAsRead, fun d h hio hshort => ?_⟩
  obtain ⟨t, script, failure, hread, hscript, hverify, rfl⟩ := exists_script_of_verify h hio
  rcases Script.failsAt_of_verify hverify with ⟨pre, l, post, hlines, hfails, hnumber⟩ | rfl
  · exact exists_pointsAt_of_failsAt hread hscript hshort hlines hfails hnumber
  · exact exists_pointsAt_of_unclosed hread hscript hshort hverify

/-- A file with line ends of all kinds, whose last line has none and lacks a return in front. -/
theorem excerptsAgree_missingReturn :
    let t := "void f() \x7b\r\n\r\r\n//é\r\n\n\u3000\x7d\r".toList
    let bytes := t.flatMap String.utf8EncodeChar
    let d : Diagnostic := ⟨.missingReturn ['f'], 5, ['p']⟩
    Text.decode? bytes = some t ∧ ShownAsRead "//".toList bytes t ∧
      Opened.verify "//".toList ['p'] (.ok (.file bytes)) = .error d ∧
        (Content.bytes bytes).linesRead = 5 ∧
          ∃ raw, d.PointsAt "//".toList (.bytes bytes) raw ∧ Text.trim raw = ['}'] := by
  intro t bytes d
  have hread : Text.decode? bytes = some t := Text.decode?_encoded t
  have hfails : (Opened.verify "//".toList ['p'] (.ok (.file bytes))).map (fun _ => ()) = .error d := by
    decide +kernel
  have herror := map_eq_error_iff.1 hfails
  have hlines : (Content.bytes bytes).linesRead = 5 := by decide +kernel
  obtain ⟨hshown, hpoints⟩ := excerptsAgree "//".toList ['p'] bytes
  obtain ⟨raw, hraw⟩ := hpoints d herror (by decide) (by rw [hlines]; decide)
  exact ⟨hread, hshown t hread, herror, hlines, raw, hraw, hraw.closing _ rfl⟩

end SJava
