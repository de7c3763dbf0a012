import SJava.Check.Outline
import SJava.Proofs.Except

/-!
# Walking over lines

What holds of a walk over lines, whatever its step is. The step of a walk takes a state and
the text of a line, and the number of a line is seen only where the step refuses it.

* `walk_append_eq_ok`, `walk_cons_eq_ok`, `walk_take_add_one_eq_ok`: walking on;
* `walk_keep`, `walk_foldl`: what every line keeps, or changes by itself, over a whole walk;
* `walk_follows`: two walks over the same lines;
* `exists_of_walk_eq_error`: where a walk fails;
* `walked`, `toOption_walk`: a walk without its faults;
* `walkWith`, `walkWith_append_eq_ok`: a walk with what its step gives on each line.
-/

namespace SJava

section

variable {σ : Type} {step : σ → Text → Except Fault σ} {s t : σ} {l : Line} {ls xs ys : List Line}

theorem walk_append (step : σ → Text → Except Fault σ) (s : σ) (xs ys : List Line) :
    walk step s (xs ++ ys) = walk step s xs >>= (walk step · ys) := List.foldlM_append

theorem walk_append_eq_ok :
    walk step s (xs ++ ys) = .ok t ↔ ∃ u, walk step s xs = .ok u ∧ walk step u ys = .ok t := by
  rw [walk_append, bind_eq_ok_iff]

theorem walk_cons (step : σ → Text → Except Fault σ) (s : σ) (l : Line) (ls : List Line) :
    walk step s (l :: ls) =
      ((step s l.text).mapError fun fault => ⟨fault, l.number⟩) >>= (walk step · ls) :=
  List.foldlM_cons

theorem walk_cons_eq_ok :
    walk step s (l :: ls) = .ok t ↔ ∃ u, step s l.text = .ok u ∧ walk step u ls = .ok t := by
  rw [walk_cons, bind_eq_ok_iff]
  simp only [mapError_eq_ok_iff]

theorem walk_singleton (step : σ → Text → Except Fault σ) (s : σ) (l : Line) :
    walk step s [l] = (step s l.text).mapError fun fault => ⟨fault, l.number⟩ := by
  rw [walk_cons]
  exact bind_pure _

theorem walk_singleton_eq_ok : walk step s [l] = .ok t ↔ step s l.text = .ok t := by
  rw [walk_singleton, mapError_eq_ok_iff]

/-- The lines up to a place are those in front of it, and the one at it. -/
theorem walk_take_add_one_eq_ok {k : Nat} (hl : ls[k]? = some l) :
    walk step s (ls.take (k + 1)) = .ok t ↔
      ∃ u, walk step s (ls.take k) = .ok u ∧ step u l.text = .ok t := by
  rw [walk, foldlM_take_add_one_eq_ok hl]
  simp only [mapError_eq_ok_iff]
  rfl

/-- A walk that goes through gets to every place. -/
theorem exists_walk_take (h : walk step s ls = .ok t) (k : Nat) :
    ∃ u, walk step s (ls.take k) = .ok u := exists_foldlM_take h k

/-- What every line keeps, a walk keeps. -/
theorem walk_keep {P : σ → Prop} (hline : ∀ {s t line}, P s → step s line = .ok t → P t)
    (h : walk step s ls = .ok t) (hs : P s) : P t := by
  induction ls generalizing s with
  | nil =>
    cases h
    exact hs
  | cons l ls ih =>
    obtain ⟨u, hu, h⟩ := walk_cons_eq_ok.1 h
    exact ih h (hline hs hu)

/-- What every line changes by itself, a walk changes line by line. -/
theorem walk_foldl {α : Type} {f : σ → α} {g : α → Text → α}
    (hline : ∀ {s t line}, step s line = .ok t → f t = g (f s) line) (h : walk step s ls = .ok t) :
    f t = (ls.map (·.text)).foldl g (f s) := by
  induction ls generalizing s with
  | nil =>
    cases h
    rfl
  | cons l ls ih =>
    obtain ⟨u, hu, h⟩ := walk_cons_eq_ok.1 h
    rw [List.map_cons, List.foldl_cons, ← hline hu]
    exact ih h

/-- A walk goes through where another one does, if each of its lines follows the other. -/
theorem walk_follows {τ : Type} {step' : τ → Text → Except Fault τ} {R : σ → τ → Prop}
    (hline : ∀ {s t s' line}, R s s' → step s line = .ok t → ∃ t', step' s' line = .ok t' ∧ R t t')
    (h : walk step s ls = .ok t) {s' : τ} (hs : R s s') :
    ∃ t', walk step' s' ls = .ok t' ∧ R t t' := by
  induction ls generalizing s s' with
  | nil =>
    cases h
    exact ⟨s', rfl, hs⟩
  | cons l ls ih =>
    obtain ⟨u, hu, h⟩ := walk_cons_eq_ok.1 h
    obtain ⟨u', hu', hrel⟩ := hline hs hu
    obtain ⟨t', ht', hlast⟩ := ih h hrel
    exact ⟨t', walk_cons_eq_ok.2 ⟨u', hu', ht'⟩, hlast⟩

/-- A walk fails at a line that it comes to. -/
theorem exists_of_walk_eq_error {failure : Failure} (h : walk step s ls = .error failure) :
    ∃ pre l post t, ls = pre ++ l :: post ∧ walk step s pre = .ok t ∧
      step t l.text = .error failure.fault ∧ failure.line = l.number := by
  induction ls generalizing s with
  | nil => cases h
  | cons l ls ih =>
    rw [walk_cons] at h
    rcases bind_eq_error_iff.1 h with h | ⟨u, hu, h⟩
    · obtain ⟨fault, hfault, rfl⟩ := mapError_eq_error_iff.1 h
      exact ⟨[], l, ls, s, rfl, rfl, hfault, rfl⟩
    · obtain ⟨pre, l', post, t, rfl, ht, hfails, hnumber⟩ := ih h
      exact ⟨l :: pre, l', post, t, rfl, walk_cons_eq_ok.2 ⟨u, mapError_eq_ok_iff.1 hu, ht⟩, hfails,
        hnumber⟩

/-- A walk over some lines, without its faults. -/
def walked (step : σ → Text → Except Fault σ) (s : σ) (lines : List Text) : Option σ :=
  lines.foldlM (fun s line => (step s line).toOption) s

theorem toOption_walk (step : σ → Text → Except Fault σ) (s : σ) (ls : List Line) :
    (walk step s ls).toOption = walked step s (ls.map (·.text)) := by
  induction ls generalizing s with
  | nil => rfl
  | cons l ls ih =>
    rw [walk_cons, List.map_cons, walked, List.foldlM_cons]
    cases step s l.text with
    | ok t => exact ih t
    | error fault => rfl

theorem walk_eq_ok_iff_walked :
    walk step s ls = .ok t ↔ walked step s (ls.map (·.text)) = some t := by
  rw [← toOption_walk]
  cases walk step s ls <;> simp [Except.toOption]

theorem walked_append (step : σ → Text → Except Fault σ) (s : σ) (xs ys : List Text) :
    walked step s (xs ++ ys) = walked step s xs >>= (walked step · ys) := List.foldlM_append

theorem walked_cons (step : σ → Text → Except Fault σ) (s : σ) (line : Text) (rest : List Text) :
    walked step s (line :: rest) = (step s line).toOption >>= (walked step · rest) := List.foldlM_cons

theorem walked_cons_of_ok {line : Text} (h : step s line = .ok t) (rest : List Text) :
    walked step s (line :: rest) = walked step t rest := by
  rw [walked_cons, h]
  rfl

theorem walked_singleton (step : σ → Text → Except Fault σ) (s : σ) (line : Text) :
    walked step s [line] = (step s line).toOption := by
  rw [walked_cons]
  exact bind_pure _

end

/-! ## With what the step gives -/

section

variable {σ α : Type} {step : σ → Text → Except Fault (σ × α)} {s t : σ} {l : Line}
  {ls xs ys : List Line} {found : List α}

/-- The step with what it gives on each of the lines so far. -/
def adding (step : σ → Text → Except Fault (σ × α)) (p : σ × List α) (line : Text) :
    Except Fault (σ × List α) :=
  (step p.1 line).map fun q => (q.1, p.2 ++ [q.2])

/-- A walk with what its step gives on each of the lines. -/
def walkWith (step : σ → Text → Except Fault (σ × α)) (s : σ) (ls : List Line) :
    Except Failure (σ × List α) :=
  walk (adding step) (s, []) ls

/-- What has been found before stays in front. -/
theorem walk_adding (step : σ → Text → Except Fault (σ × α)) (s : σ) (found : List α) (ls : List Line) :
    walk (adding step) (s, found) ls = (walkWith step s ls).map fun p => (p.1, found ++ p.2) := by
  induction ls generalizing s found with
  | nil =>
    show Except.ok (s, found) = .ok (s, found ++ [])
    rw [List.append_nil]
  | cons l ls ih =>
    rw [walkWith, walk_cons, walk_cons, adding, adding]
    cases step s l.text with
    | error fault => rfl
    | ok q =>
      show walk (adding step) (q.1, found ++ [q.2]) ls = (walk (adding step) (q.1, [q.2]) ls).map _
      rw [ih, ih]
      cases walkWith step q.1 ls with
      | error failure => rfl
      | ok p =>
        show Except.ok (p.1, found ++ [q.2] ++ p.2) = .ok (p.1, found ++ ([q.2] ++ p.2))
        rw [List.append_assoc]

theorem walkWith_append_eq_ok :
    walkWith step s (xs ++ ys) = .ok (t, found) ↔ ∃ u front back,
      walkWith step s xs = .ok (u, front) ∧ walkWith step u ys = .ok (t, back) ∧ found = front ++ back := by
  rw [walkWith, walk_append_eq_ok]
  simp only [Prod.exists, walk_adding, map_eq_ok_iff, Prod.mk.injEq]
  constructor
  · rintro ⟨u, front, ⟨v, front', hfront, rfl, rfl⟩, w, back, hback, rfl, rfl⟩
    exact ⟨v, front', back, hfront, hback, rfl⟩
  · rintro ⟨u, front, back, hfront, hback, rfl⟩
    exact ⟨u, front, ⟨u, front, hfront, rfl, rfl⟩, t, back, hback, rfl, rfl⟩

theorem walkWith_singleton_eq_ok :
    walkWith step s [l] = .ok (t, found) ↔ ∃ a, step s l.text = .ok (t, a) ∧ found = [a] := by
  rw [walkWith, walk_singleton_eq_ok, adding, map_eq_ok_iff]
  simp [eq_comm]

theorem walkWith_cons_eq_ok :
    walkWith step s (l :: ls) = .ok (t, found) ↔ ∃ u a rest,
      step s l.text = .ok (u, a) ∧ walkWith step u ls = .ok (t, rest) ∧ found = a :: rest := by
  rw [← List.singleton_append, walkWith_append_eq_ok]
  simp only [walkWith_singleton_eq_ok]
  constructor
  · rintro ⟨u, front, rest, ⟨a, ha, rfl⟩, hrest, rfl⟩
    exact ⟨u, a, rest, ha, hrest, rfl⟩
  · rintro ⟨u, a, rest, ha, hrest, rfl⟩
    exact ⟨u, [a], rest, ⟨a, ha, rfl⟩, hrest, rfl⟩

end

end SJava
