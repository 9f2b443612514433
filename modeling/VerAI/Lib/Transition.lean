import Mathlib.Logic.Relation
/-!
# Transition systems with named actions

A system is a set of initial states and a guarded step function: `step s a`
is the state action `a` leads to from `s`, or `none` where `a` is not
enabled. One function serves replay and proof: `exec` runs a list of
actions, and `Reachable` is the induction principle invariants go through.

Runs are often restricted to steps that meet a side condition, so the basic
notion is `ReachableUnder C`, with `Reachable` the unrestricted case.
-/

namespace Transition

universe u v

/-- Initial states and a guarded step function. -/
structure System (σ : Type u) (α : Type v) where
  /-- The states a run may start in. -/
  init : σ → Prop
  /-- The effect of an action, `none` where it is not enabled. -/
  step : σ → α → Option σ

namespace System

variable {σ : Type u} {α : Type v} (M : System σ α)

/-- **The states of the runs every step of which meets `C`.** -/
inductive ReachableUnder (C : σ → α → Prop) : σ → Prop
  | init {s : σ} : M.init s → ReachableUnder C s
  | step {s s' : σ} {a : α} :
      ReachableUnder C s → C s a → M.step s a = some s' → ReachableUnder C s'

/-- The states of any run. -/
abbrev Reachable : σ → Prop := M.ReachableUnder fun _ _ => True

variable {M} {C : σ → α → Prop} {s s' : σ} {a : α}

theorem Reachable.next (h : M.Reachable s) (hs : M.step s a = some s') : M.Reachable s' :=
  .step h trivial hs

/-- A run under a condition is a run. -/
theorem ReachableUnder.reachable (h : M.ReachableUnder C s) : M.Reachable s := by
  induction h with
  | init h0 => exact .init h0
  | step _ _ hs ih => exact ih.next hs

/-- A run under a condition is one under a weaker one. -/
theorem ReachableUnder.mono {C' : σ → α → Prop} (h : M.ReachableUnder C s)
    (hc : ∀ s a, C s a → C' s a) : M.ReachableUnder C' s := by
  induction h with
  | init h0 => exact .init h0
  | step _ ha hs ih => exact .step ih (hc _ _ ha) hs

/-- **The invariant rule.** What holds at the start and is kept by every
step meeting `C` holds along the runs under `C`. -/
theorem ReachableUnder.invariant {I : σ → Prop} (h : M.ReachableUnder C s)
    (h0 : ∀ s, M.init s → I s)
    (hstep : ∀ s a s', I s → C s a → M.step s a = some s' → I s') : I s := by
  induction h with
  | init hs => exact h0 _ hs
  | step _ hc hs ih => exact hstep _ _ _ ih hc hs

/-- The rule where the step may use that its state is reachable. -/
theorem Reachable.invariant_with {I : σ → Prop} (h : M.Reachable s) (h0 : ∀ s, M.init s → I s)
    (hstep : ∀ s a s', M.Reachable s → I s → M.step s a = some s' → I s') : I s := by
  induction h with
  | init hs => exact h0 _ hs
  | step hr _ hs ih => exact hstep _ _ _ hr ih hs

variable (M)

/-- Run a list of actions; `none` where one of them is not enabled. -/
def exec (s : σ) : List α → Option σ
  | [] => some s
  | a :: as => (M.step s a).bind fun s' => exec s' as

/-- Some list of actions leads from the first state to the second. -/
def Leads (s s' : σ) : Prop := ∃ as, M.exec s as = some s'

/-- No action is enabled. -/
def Halted (s : σ) : Prop := ∀ a, M.step s a = none

variable {M}

@[simp] theorem exec_nil : M.exec s [] = some s := rfl

@[simp] theorem exec_cons {as : List α} :
    M.exec s (a :: as) = (M.step s a).bind fun s' => M.exec s' as := rfl

theorem exec_append (s : σ) (as bs : List α) :
    M.exec s (as ++ bs) = (M.exec s as).bind fun s' => M.exec s' bs := by
  induction as generalizing s with
  | nil => rfl
  | cons a as ih =>
    cases hs : M.step s a with
    | none => simp [hs]
    | some t => simp [hs, ih t]

theorem Leads.refl (s : σ) : M.Leads s s := ⟨[], rfl⟩

theorem Leads.single (h : M.step s a = some s') : M.Leads s s' := ⟨[a], by simp [h]⟩

theorem Leads.trans {t : σ} (h : M.Leads s s') (h' : M.Leads s' t) : M.Leads s t := by
  obtain ⟨as, has⟩ := h
  obtain ⟨bs, hbs⟩ := h'
  exact ⟨as ++ bs, by rw [exec_append, has]; exact hbs⟩

/-- A halted state leads nowhere else. -/
theorem Halted.eq_of_leads (h : M.Halted s) (hl : M.Leads s s') : s' = s := by
  obtain ⟨as, has⟩ := hl
  rcases as with _ | ⟨a, as⟩
  · exact (Option.some.inj has).symm
  · rw [exec_cons, h a] at has
    cases has

/-- A run from a reachable state stays among the reachable states. -/
theorem Reachable.leads (h : M.Reachable s) (hl : M.Leads s s') : M.Reachable s' := by
  obtain ⟨as, has⟩ := hl
  induction as generalizing s with
  | nil =>
    rw [exec_nil, Option.some.injEq] at has
    exact has ▸ h
  | cons a as ih =>
    obtain ⟨t, ht, hrest⟩ := Option.bind_eq_some_iff.mp has
    exact ih (h.next ht) hrest

/-- Replay from an initial state gives reachable states. -/
theorem reachable_of_exec (as : List α) (h0 : M.init s) (h : M.exec s as = some s') :
    M.Reachable s' :=
  Reachable.leads (.init h0) ⟨as, h⟩

/-! ## Replay under a side condition -/

variable (M)

/-- The system with the steps outside `C` taken away. -/
def restrict (C : σ → α → Prop) [∀ s a, Decidable (C s a)] : System σ α where
  init := M.init
  step s a := if C s a then M.step s a else none

variable {M} [∀ s a, Decidable (C s a)]

theorem restrict_step_eq_some :
    (M.restrict C).step s a = some s' ↔ C s a ∧ M.step s a = some s' := by
  simp [restrict]

theorem reachable_restrict_iff : (M.restrict C).Reachable s ↔ M.ReachableUnder C s := by
  constructor
  · intro h
    refine h.invariant (fun _ h0 => .init h0) fun s a s' hs _ hstep => ?_
    obtain ⟨hc, hstep⟩ := restrict_step_eq_some.mp hstep
    exact .step hs hc hstep
  · intro h
    refine h.invariant (fun _ h0 => .init h0) fun s a s' hs hc hstep => ?_
    exact .step hs trivial (restrict_step_eq_some.mpr ⟨hc, hstep⟩)

/-- Replay in the restricted system gives the states of the runs under `C`. -/
theorem reachableUnder_of_exec (as : List α) (h0 : M.init s)
    (h : (M.restrict C).exec s as = some s') : M.ReachableUnder C s' :=
  reachable_restrict_iff.mp (reachable_of_exec (M := M.restrict C) as h0 h)

end System

end Transition
