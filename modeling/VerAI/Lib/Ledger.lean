import VerAI.Lib.Transition
import Mathlib.Data.List.Basic
/-!
# What a run puts in and takes out

A store of a system is read by a function of its state. Steps put elements in
and give elements out, and `collect` is what the steps of a run do one after
another. Three ways to keep a store are told apart: a queue, whose balance of
one step is a balance of every run; a store emptied as a whole, whose answers
cut what was put in into parts; and a set, whose members are those put in and
not taken out since.
-/

namespace Transition

namespace System

universe u v w

variable {σ : Type u} {α : Type v} {β : Type w} (M : System σ α)

/-- What the steps of a run give out, one after another. -/
def collect (out : σ → α → List β) : σ → List α → List β
  | _, [] => []
  | s, a :: as => out s a ++ (M.step s a).elim [] fun s' => collect out s' as

variable {M} {out : σ → α → List β} {s s' t : σ} {a : α} {as bs : List α}

@[simp] theorem collect_nil : M.collect out s [] = [] := rfl

theorem collect_cons (h : M.step s a = some s') :
    M.collect out s (a :: as) = out s a ++ M.collect out s' as := by
  rw [collect, h]
  rfl

theorem collect_append (h : M.exec s as = some t) :
    M.collect out s (as ++ bs) = M.collect out s as ++ M.collect out t bs := by
  induction as generalizing s with
  | nil =>
    obtain rfl := Option.some.inj h
    rfl
  | cons a as ih =>
    obtain ⟨s', hs', hrest⟩ := Option.bind_eq_some_iff.mp h
    rw [List.cons_append, collect_cons hs', collect_cons hs', ih hrest, List.append_assoc]

/-- **Each given out was given out by a step.** -/
theorem mem_collect {b : β} (h : b ∈ M.collect out s as) :
    ∃ before a after t, as = before ++ a :: after ∧ M.exec s before = some t ∧ b ∈ out t a := by
  induction as generalizing s with
  | nil => cases h
  | cons a as ih =>
    rw [collect, List.mem_append] at h
    obtain h | h := h
    · exact ⟨[], a, as, s, rfl, rfl, h⟩
    · cases hs : M.step s a with
      | none =>
        rw [hs] at h
        cases h
      | some s' =>
        rw [hs] at h
        obtain ⟨before, b, after, t, rfl, ht, hb⟩ := ih h
        exact ⟨a :: before, b, after, t, rfl, by rw [exec_cons, hs]; exact ht, hb⟩

/-- What holds of two ledgers step by step holds of them over a run, where it
passes to appended lists. -/
theorem collect_rel {γ : Type*} {out' : σ → α → List γ} {R : List β → List γ → Prop}
    (hnil : R [] []) (happend : ∀ l l' k k', R l l' → R k k' → R (l ++ k) (l' ++ k'))
    (hstep : ∀ s a s', M.Reachable s → M.step s a = some s' → R (out s a) (out' s a))
    (hr : M.Reachable s) (h : M.exec s as = some s') :
    R (M.collect out s as) (M.collect out' s as) := by
  induction as generalizing s with
  | nil => exact hnil
  | cons a as ih =>
    obtain ⟨t, ht, hrest⟩ := Option.bind_eq_some_iff.mp h
    rw [collect_cons ht, collect_cons ht]
    exact happend _ _ _ _ (hstep s a t hr ht) (ih (hr.next ht) hrest)

/-! ## A queue -/

/-- **The balance of a run.** Where what stands in a queue and is put in by a
step is what is taken off and stands there after, the same holds of runs:
nothing is lost or doubled, and the order is kept. -/
theorem exec_balance (queue : σ → List β) (put take : σ → α → List β)
    (hstep : ∀ s a s', M.Reachable s → M.step s a = some s' →
      queue s ++ put s a = take s a ++ queue s')
    (hr : M.Reachable s) (h : M.exec s as = some s') :
    queue s ++ M.collect put s as = M.collect take s as ++ queue s' := by
  induction as generalizing s with
  | nil =>
    obtain rfl := Option.some.inj h
    simp
  | cons a as ih =>
    obtain ⟨t, ht, hrest⟩ := Option.bind_eq_some_iff.mp h
    calc queue s ++ M.collect put s (a :: as)
      _ = (queue s ++ put s a) ++ M.collect put t as := by
        rw [collect_cons ht, List.append_assoc]
      _ = take s a ++ (queue t ++ M.collect put t as) := by
        rw [hstep s a t hr ht, List.append_assoc]
      _ = M.collect take s (a :: as) ++ queue s' := by
        rw [ih (hr.next ht) hrest, collect_cons ht, List.append_assoc]

/-! ## A store emptied as a whole -/

/-- **The parts of a run.** A store gathers what is put in until a step
answers with all of it and empties it. Then what is put in falls into
consecutive parts, one for each answer and a last one for what stands there. -/
theorem exec_parts {γ : Type w} (store : σ → γ) (put : σ → α → List β) (answer : σ → α → List γ)
    (merge : List β → γ)
    (hstep : ∀ s a s', M.Reachable s → M.step s a = some s' →
      (answer s a = [] ∧ ∀ first, store s = merge first → store s' = merge (first ++ put s a)) ∨
      (answer s a = [store s] ∧ put s a = [] ∧ store s' = merge []))
    (hr : M.Reachable s) (h : M.exec s as = some s') (first : List β)
    (hfirst : store s = merge first) :
    ∃ parts : List (List β), parts.flatten = first ++ M.collect put s as ∧
      parts.map merge = M.collect answer s as ++ [store s'] := by
  induction as generalizing s first with
  | nil =>
    obtain rfl := Option.some.inj h
    exact ⟨[first], by simp, by simp [hfirst]⟩
  | cons a as ih =>
    obtain ⟨t, ht, hrest⟩ := Option.bind_eq_some_iff.mp h
    rw [collect_cons ht, collect_cons ht]
    obtain ⟨hanswer, hput⟩ | ⟨hanswer, hput, hempty⟩ := hstep s a t hr ht
    · obtain ⟨parts, hflat, hmap⟩ := ih (hr.next ht) hrest _ (hput first hfirst)
      exact ⟨parts, by rw [hflat, List.append_assoc], by rw [hmap, hanswer, List.nil_append]⟩
    · obtain ⟨parts, hflat, hmap⟩ := ih (hr.next ht) hrest [] hempty
      refine ⟨first :: parts, ?_, ?_⟩
      · rw [List.flatten_cons, hflat, hput]
      · rw [List.map_cons, hmap, hanswer, hfirst]
        rfl

/-! ## A set -/

/-- **Who is in the set**: one that was in it from the start, or that some
step put in, and that no step has taken out since. -/
theorem exec_holds_iff (holds : σ → Prop) (puts : σ → α → Prop) (takes : α → Prop)
    (hstep : ∀ s a s', M.Reachable s → M.step s a = some s' →
      (holds s' ↔ puts s a ∨ holds s ∧ ¬ takes a))
    (hr : M.Reachable s) (h : M.exec s as = some s') :
    holds s' ↔ (holds s ∧ ∀ a ∈ as, ¬ takes a) ∨
      ∃ before a after t, as = before ++ a :: after ∧ M.exec s before = some t ∧ puts t a ∧
        ∀ b ∈ after, ¬ takes b := by
  induction as generalizing s with
  | nil =>
    obtain rfl := Option.some.inj h
    simp
  | cons a as ih =>
    obtain ⟨t, ht, hrest⟩ := Option.bind_eq_some_iff.mp h
    have hone : ∀ before, M.exec s (a :: before) = M.exec t before := fun before => by
      rw [exec_cons, ht]
      rfl
    rw [ih (hr.next ht) hrest, hstep s a t hr ht]
    constructor
    · rintro (⟨hput | ⟨hs, htake⟩, hrest⟩ | ⟨before, b, after, t', rfl, ht', hput, hafter⟩)
      · exact .inr ⟨[], a, as, s, rfl, rfl, hput, hrest⟩
      · exact .inl ⟨hs, List.forall_mem_cons.mpr ⟨htake, hrest⟩⟩
      · exact .inr ⟨a :: before, b, after, t', rfl, (hone before).trans ht', hput, hafter⟩
    · rintro (⟨hs, hall⟩ | ⟨before, b, after, t', heq, ht', hput, hafter⟩)
      · obtain ⟨htake, hrest⟩ := List.forall_mem_cons.mp hall
        exact .inl ⟨.inr ⟨hs, htake⟩, hrest⟩
      · cases before with
        | nil =>
          obtain ⟨rfl, rfl⟩ := List.cons.inj heq
          obtain rfl := Option.some.inj ht'
          exact .inl ⟨.inl hput, hafter⟩
        | cons c before =>
          obtain ⟨rfl, rfl⟩ := List.cons.inj heq
          exact .inr ⟨before, b, after, t', rfl, (hone before).symm.trans ht', hput, hafter⟩

end System

end Transition
