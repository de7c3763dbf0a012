import SJava.Proofs.Agreement
import SJava.Proofs.TakingApart

/-!
# Which faults lie in a line

A failure names a line. Either it lies in that line, where one of the walks met it, or
the script as a whole leaves a block open; and of the faults that lie in a line, one can
only lie in the header of a method.

* `State.raises_outlineLine`, `Progress.raises_step`: the faults of one line;
* `Progress.exists_of_missingReturn`: a return is missed at the end of a window;
* `Script.failsAt_of_verify`, `Script.liesIn_of_verify`: those of a script;
* `Script.parts_agree`: no type is unknown but in a header.
-/

namespace SJava

/-- The fault can lie in the line. -/
structure Fault.LiesIn (fault : Fault) (line : Text) : Prop where
  ne_unclosedScope : fault ≠ .unclosedScope
  header : ∀ token, fault = .unknownType token → Kind.of line = .ok .methodHeader

/-- The fault can lie in what the line says. A return that is missed does not: it lies in the end of
a block. -/
structure Fault.LiesInStatement (fault : Fault) (line : Text) : Prop extends fault.LiesIn line where
  notReturn : ∀ m, fault ≠ .missingReturn m

theorem Fault.LiesInStatement.of_isOfForm {fault : Fault} {line : Text} (h : fault.isOfForm = true) :
    fault.LiesInStatement line where
  ne_unclosedScope := by
    rintro rfl
    cases h
  header := by
    rintro token rfl
    cases h
  notReturn := by
    rintro m rfl
    cases h

theorem Fault.LiesInStatement.of_isOfUse {fault : Fault} {line : Text} (h : fault.isOfUse = true) :
    fault.LiesInStatement line where
  ne_unclosedScope := by
    rintro rfl
    cases h
  header := by
    rintro token rfl
    cases h
  notReturn := by
    rintro m rfl
    cases h

/-! ## One line -/

theorem Kind.raises_of (line : Text) : Raises (·.isOfForm = true) (Kind.of line) := by
  unfold Kind.of Kind.ofTable
  split
  · exact .error rfl
  · split
    · exact .error rfl
    · split
      · exact .ok _
      · exact .error rfl

theorem Stack.raises_track (s : Stack) (line : Text) : Raises (·.isOfForm = true) (s.track line) := by
  unfold track
  dsimp only
  split
  · unfold exit
    split
    · exact .error rfl
    · exact .ok _
  · exact .ok _

theorem State.raises_track (s : State) (line : Text) : Raises (·.isOfForm = true) (s.track line) :=
  .bind (s.stack.raises_track line) fun _ _ => .bind (Kind.raises_of line) fun _ _ => .ok _

/-- A declaration is made of a type that there is. -/
theorem Stack.raises_declareLine {line : Text} (s : Stack) (h : Kind.of line = .ok .declaration) :
    Raises (·.LiesInStatement line) (s.declareLine line) := by
  refine .bind ((Declaration.raises_ofLine line).mono ?_) fun d hd => (s.raises_declareClauses d).mono ?_
  · rintro _ rfl
    exact .of_isOfForm rfl
  · rintro fault (hfault | hfault)
    · obtain ⟨ty, -, hty⟩ := (Declaration.wellFormed_of_ofLine h hd).typed
      rw [hty] at hfault
      cases hfault
    · exact .of_isOfUse hfault

theorem Method.raises_ofLine {line : Text} (h : Kind.of line = .ok .methodHeader) :
    Raises (·.LiesInStatement line) (Method.ofLine line) := by
  have hname {p : Pattern} {name : Text} : Raises (·.LiesInStatement line) (Name.check p name) :=
    (Name.raises_check _ _).mono fun _ => .of_isOfUse
  refine .bind ((Header.raises_ofLine h).mono ?_) fun header _ => ?_
  · rintro _ rfl
    exact ⟨⟨by simp, by simp⟩, by simp⟩
  · refine .bind (.mapM (fun p => .bind hname fun _ _ => .bind ?_ fun _ _ => .ok _) _) fun _ _ =>
      .bind hname fun _ _ => .ok _
    exact (Ty.raises_ofKeyword _).mono fun fault hfault =>
      ⟨⟨by simp [hfault], fun _ _ => h⟩, by simp [hfault]⟩

theorem State.raises_outlineLine (s : State) (line : Text) :
    Raises (·.LiesInStatement line) (s.outlineLine line) := by
  refine .bind ((s.raises_track line).mono fun _ => .of_isOfForm) fun r htrack => ?_
  obtain ⟨t, kind⟩ := r
  obtain ⟨u, -, hkind, rfl⟩ := State.track_eq_ok_iff.1 htrack
  cases kind with
  | methodHeader =>
    refine .bind (Method.raises_ofLine hkind) fun m _ => ?_
    dsimp only
    split
    · exact .bind (.error ⟨⟨by simp, by simp⟩, by simp⟩) fun _ _ => .ok _
    · exact .ok _
  | condition =>
    simp only [outlineKind]
    split
    · exact .error ⟨⟨by simp, by simp⟩, by simp⟩
    · exact .ok _
  | call | returnStatement =>
    simp only [outlineKind]
    split
    · exact .error ⟨⟨by simp, by simp⟩, by simp⟩
    · exact .ok _
  | declaration =>
    simp only [outlineKind]
    split
    · exact (u.raises_declareLine hkind).map
    · exact .ok _
  | assignment =>
    simp only [outlineKind]
    split
    · exact ((u.raises_assignLine line).mono fun _ => .of_isOfUse).map
    · exact .ok _
  | scopeEnd => exact .ok _

theorem State.raises_bodyLine (s : State) (line : Text) :
    Raises (·.LiesInStatement line) (s.bodyLine line) := by
  refine .bind ((s.raises_track line).mono fun _ => .of_isOfForm) fun r htrack => ?_
  obtain ⟨t, kind⟩ := r
  obtain ⟨u, -, hkind, rfl⟩ := State.track_eq_ok_iff.1 htrack
  cases kind with
  | methodHeader => exact .error ⟨⟨by simp, by simp⟩, by simp⟩
  | condition =>
    exact .bind ((u.raises_checkCondition hkind).mono fun _ => .of_isOfUse) fun _ _ => .ok _
  | call => exact .bind ((u.raises_checkCall s.methods hkind).mono fun _ => .of_isOfUse) fun _ _ => .ok _
  | declaration => exact .bind (u.raises_declareLine hkind) fun _ _ => .ok _
  | assignment =>
    exact .bind ((u.raises_assignLine line).mono fun _ => .of_isOfUse) fun _ _ => .ok _
  | returnStatement | scopeEnd => exact .ok _

theorem Progress.raises_outerLine (s : State) (line : Text) :
    Raises (·.LiesInStatement line) (outerLine s line) := by
  refine .bind ((s.raises_track line).mono fun _ => .of_isOfForm) fun r htrack => ?_
  obtain ⟨t, kind⟩ := r
  obtain ⟨u, -, hkind, rfl⟩ := State.track_eq_ok_iff.1 htrack
  dsimp only
  split
  · next hheader =>
    subst hheader
    refine .bind (Method.raises_ofLine hkind) fun m _ => ?_
    split
    · exact .ok _
    · next fault hfault => exact .error (.of_isOfUse (Stack.isOfUse_of_declareAll _ _ hfault))
  · exact .ok _

theorem Progress.raises_step (p : Progress) (line : Text) : Raises (·.LiesIn line) (p.step line) := by
  cases hw : p.window with
  | none =>
    simp only [step, hw]
    exact (raises_outerLine p.state line).mono fun _ h => h.toLiesIn
  | some w =>
    simp only [step, hw]
    refine .bind ((p.state.raises_bodyLine line).mono fun _ h => h.toLiesIn) fun r _ => ?_
    obtain ⟨s, kind⟩ := r
    dsimp only
    split
    · exact .ok _
    · unfold close
      split
      · exact .ok _
      · exact .error ⟨by simp, by simp⟩

/-- A return is missed where a window is left that ends without one. -/
theorem Progress.exists_of_missingReturn {p : Progress} {line name : Text}
    (h : p.step line = .error (.missingReturn name)) :
    ∃ w s kind, p.window = some w ∧ p.state.bodyLine line = .ok (s, kind) ∧
      s.stack.isInsideMethod = false := by
  cases hw : p.window with
  | none =>
    simp only [step, hw] at h
    exact absurd rfl ((raises_outerLine p.state line _ h).notReturn name)
  | some w =>
    simp only [step, hw] at h
    rcases bind_eq_error_iff.1 h with h | ⟨⟨s, kind⟩, hbody, h⟩
    · exact absurd rfl ((p.state.raises_bodyLine line _ h).notReturn name)
    · dsimp only at h
      split at h
      · cases h
      · next hinside => exact ⟨w, s, kind, rfl, hbody, Bool.eq_false_iff.2 hinside⟩

/-! ## A walk -/

/-- The failure lies in one of the lines. -/
def Failure.LiesIn (failure : Failure) (ls : List Line) : Prop :=
  ∃ l ∈ ls, failure.line = l.number ∧ failure.fault.LiesIn l.text

/-- The walks over a script come to the line `l` behind `pre`, and one of them fails there. -/
inductive Script.FailsAt (script : Script) (pre : List Line) (l : Line) (fault : Fault) : Prop
  | outline {s : State} (before : State.outlineLines {} pre = .ok s)
      (fails : s.outlineLine l.text = .error fault)
  | body {outline : State} {p : Progress} (outlined : script.outline = .ok outline)
      (before : Progress.steps { state := outline } pre = .ok p) (fails : p.step l.text = .error fault)

theorem Script.FailsAt.liesIn {script : Script} {pre : List Line} {l : Line} {fault : Fault}
    (h : script.FailsAt pre l fault) : fault.LiesIn l.text := by
  cases h with
  | outline _ fails => exact (State.raises_outlineLine _ _ fault fails).toLiesIn
  | body _ _ fails => exact Progress.raises_step _ _ fault fails

namespace Script

variable {script : Script} {outline : State} {failure : Failure}

/-- Behind the last line there is no window left to close. -/
theorem bodies_eq_map (h : script.outline = .ok outline) :
    script.bodies outline = (Progress.steps { state := outline } script.lines).map (·.state) := by
  unfold bodies
  cases hp : Progress.steps { state := outline } script.lines with
  | error failure => rfl
  | ok p =>
    have hnone := Script.window_eq_none h hp
    rw [ok_bind, Progress.finish, hnone]
    rfl

/-- A script fails at a line that one of the walks comes to, or leaves a block open. -/
theorem failsAt_of_verify (h : script.verify = .error failure) :
    (∃ pre l post, script.lines = pre ++ l :: post ∧ script.FailsAt pre l failure.fault ∧
      failure.line = l.number) ∨ failure = ⟨.unclosedScope, script.length⟩ := by
  rcases bind_eq_error_iff.1 h with h | ⟨_, -, h⟩
  · unfold checkBalance at h
    split at h
    · cases h
    · cases h
      exact .inr rfl
  rcases bind_eq_error_iff.1 h with h | ⟨outline, houtline, h⟩
  · rcases bind_eq_error_iff.1 h with h | ⟨s, -, h⟩
    · obtain ⟨pre, l, post, t, hlines, ht, hfails, hnumber⟩ := exists_of_walk_eq_error h
      exact .inl ⟨pre, l, post, hlines, .outline ht hfails, hnumber⟩
    · split at h
      · cases h
      · cases h
        exact .inr rfl
  · rw [bodies_eq_map houtline] at h
    cases hp : Progress.steps { state := outline } script.lines with
    | error failure =>
      rw [hp] at h
      cases h
      obtain ⟨pre, l, post, q, hlines, hq, hfails, hnumber⟩ := exists_of_walk_eq_error hp
      exact .inl ⟨pre, l, post, hlines, .body houtline hq hfails, hnumber⟩
    | ok p =>
      rw [hp] at h
      cases h

/-- A script fails in one of its lines, or leaves a block open. -/
theorem liesIn_of_verify (h : script.verify = .error failure) :
    failure.LiesIn script.lines ∨ failure = ⟨.unclosedScope, script.length⟩ := by
  refine (failsAt_of_verify h).imp_left ?_
  rintro ⟨pre, l, post, hlines, hfails, hnumber⟩
  exact ⟨l, by simp [hlines], hnumber, hfails.liesIn⟩

/-- Every line can be taken apart as its kind says, so that no type is unknown but in the
header of a method. -/
theorem parts_agree : (∀ line, Text.TakenApart line) ∧
    ∀ (script : Script) token number, script.verify = .error ⟨.unknownType token, number⟩ →
      ∃ l ∈ script.lines, l.number = number ∧ Kind.of l.text = .ok .methodHeader := by
  refine ⟨Text.takenApart, fun script token number h => ?_⟩
  rcases liesIn_of_verify h with ⟨l, hl, hnumber, hlies⟩ | h
  · exact ⟨l, hl, hnumber.symm, hlies.header token rfl⟩
  · cases h

end Script

end SJava
