import Mathlib.Data.List.Basic
/-!
# Loops whose body may raise

A `for` loop over a list: the body takes the state and an element and gives
the next state or an error. An error ends the loop, and the state stays as
the elements before have left it. `forEach_cases` says so; the rest is what
an induction over such a loop needs.
-/

namespace Loop

universe u v w x

variable {σ : Type u} {τ : Type v} {α : Type w} {ε : Type x}

/-- Run the body over the elements, first to last: the state the loop leaves
and whether it came to its end. -/
def forEach (f : σ → α → Except ε σ) : σ → List α → σ × Except ε Unit
  | s, [] => (s, .ok ())
  | s, a :: as =>
    match f s a with
    | .ok s' => forEach f s' as
    | .error e => (s, .error e)

variable {f : σ → α → Except ε σ} {s s' : σ} {a : α} {as : List α} {e : ε}

@[simp] theorem forEach_nil : forEach f s [] = (s, .ok ()) := rfl

theorem forEach_cons_ok (h : f s a = .ok s') : forEach f s (a :: as) = forEach f s' as := by
  rw [forEach, h]

theorem forEach_cons_error (h : f s a = .error e) : forEach f s (a :: as) = (s, .error e) := by
  rw [forEach, h]

/-- **How a loop ends**: it goes through, or it stops at the first element
its body refuses, with the elements before it gone through. -/
theorem forEach_cases (f : σ → α → Except ε σ) (s : σ) (as : List α) :
    (∃ s', forEach f s as = (s', .ok ())) ∨
      ∃ pre a post s' e, as = pre ++ a :: post ∧ forEach f s pre = (s', .ok ()) ∧
        f s' a = .error e ∧ forEach f s as = (s', .error e) := by
  induction as generalizing s with
  | nil => exact .inl ⟨s, rfl⟩
  | cons a as ih =>
    cases ha : f s a with
    | error e => exact .inr ⟨[], a, as, s, e, rfl, rfl, ha, forEach_cons_error ha⟩
    | ok s1 =>
      rcases ih s1 with ⟨s', h⟩ | ⟨pre, b, post, s', e, rfl, hpre, hb, h⟩
      · exact .inl ⟨s', by rw [forEach_cons_ok ha, h]⟩
      · exact .inr ⟨a :: pre, b, post, s', e, rfl, by rw [forEach_cons_ok ha, hpre], hb,
          by rw [forEach_cons_ok ha, h]⟩

/-- The first pass of a loop that goes through. -/
theorem forEach_cons_eq_ok (h : forEach f s (a :: as) = (s', .ok ())) :
    ∃ s1, f s a = .ok s1 ∧ forEach f s1 as = (s', .ok ()) := by
  cases ha : f s a with
  | error e =>
    rw [forEach_cons_error ha] at h
    cases h
  | ok s1 => exact ⟨s1, rfl, by rw [← forEach_cons_ok ha, h]⟩

/-- **The invariant rule**: what every pass that returns keeps holds of the
state the loop leaves, however it ends. -/
theorem forEach_invariant {I : σ → Prop} (hstep : ∀ s a s', I s → f s a = .ok s' → I s')
    (h : I s) (as : List α) : I (forEach f s as).1 := by
  induction as generalizing s with
  | nil => exact h
  | cons a as ih =>
    cases ha : f s a with
    | error e => rwa [forEach_cons_error ha]
    | ok s1 =>
      rw [forEach_cons_ok ha]
      exact ih (hstep s a s1 h ha)

/-- **Simulation**: a loop whose body works on a view of the state works on
that view as the body does. -/
theorem forEach_map {g : τ → α → Except ε τ} {view : σ → τ}
    (h : ∀ s a, (f s a).map view = g (view s) a) (s : σ) (as : List α) :
    forEach g (view s) as = (view (forEach f s as).1, (forEach f s as).2) := by
  induction as generalizing s with
  | nil => rfl
  | cons a as ih =>
    have ha := h s a
    cases hs : f s a with
    | error e =>
      rw [hs] at ha
      rw [forEach_cons_error hs, forEach_cons_error ha.symm]
    | ok s1 =>
      rw [hs] at ha
      rw [forEach_cons_ok hs, forEach_cons_ok ha.symm, ih]

end Loop
