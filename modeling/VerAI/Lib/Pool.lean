import Mathlib.Data.Nat.Notation
import Mathlib.Data.Option.Basic
/-!
# A pool of processes over a shared state

A process reads and writes a shared state and becomes another process. A pool
is a list of processes, and a step of the pool is a step of the one at a
place of the list.

An invariant of each process is kept by the pool where a process keeps its
own and, standing to the others in a relation `R`, does not disturb theirs
(`forall_poolStep`). `R` is symmetric and holds between any two places of the
pool; it is kept where a step of a process keeps it to any other
(`pairwise_poolStep`).
-/

namespace Transition

universe u v w

variable {σ : Type u} {ρ : Type v} {ε : Type w}

/-- The process at place `i` takes a step. -/
def poolStep (proc : ρ → ε → σ → Option (σ × ρ)) (i : ℕ) (e : ε) (s : σ) (pool : List ρ) :
    Option (σ × List ρ) :=
  pool[i]?.bind fun p => (proc p e s).map fun r => (r.1, pool.set i r.2)

variable {proc : ρ → ε → σ → Option (σ × ρ)} {i : ℕ} {e : ε} {s s' : σ} {pool pool' : List ρ}

/-- **A step of the pool**: one process steps, those before and after it stay. -/
theorem poolStep_cases (h : poolStep proc i e s pool = some (s', pool')) :
    ∃ before p p' after, pool = before ++ p :: after ∧ pool' = before ++ p' :: after ∧
      proc p e s = some (s', p') := by
  obtain ⟨p, hp, hstep⟩ := Option.bind_eq_some_iff.mp h
  obtain ⟨⟨s1, p'⟩, hproc, heq⟩ := Option.map_eq_some_iff.mp hstep
  obtain ⟨rfl, rfl⟩ := Prod.mk.inj heq
  obtain ⟨hlt, hget⟩ := List.getElem?_eq_some_iff.mp hp
  refine ⟨pool.take i, p, p', pool.drop (i + 1), ?_, ?_, hproc⟩
  · rw [← hget, List.getElem_cons_drop, List.take_append_drop]
  · rw [List.set_eq_take_append_cons_drop, if_pos hlt]

/-- It is the process at the place named. -/
theorem step_of_poolStep {p : ρ} (hi : pool[i]? = some p)
    (h : poolStep proc i e s pool = some (s', pool')) : ∃ p', proc p e s = some (s', p') := by
  rw [poolStep, hi, Option.bind_some] at h
  obtain ⟨⟨s1, p'⟩, hproc, heq⟩ := Option.map_eq_some_iff.mp h
  exact ⟨p', (Prod.mk.inj heq).1 ▸ hproc⟩

/-- A process that can step can do so in the pool. -/
theorem poolStep_of_step {p p' : ρ} (hi : pool[i]? = some p) (h : proc p e s = some (s', p')) :
    poolStep proc i e s pool = some (s', pool.set i p') := by
  simp [poolStep, hi, h]

/-- What no step changes of a process, no step of the pool changes of any. -/
theorem map_poolStep {τ : Type*} {f : ρ → τ} (h : poolStep proc i e s pool = some (s', pool'))
    (hf : ∀ p p', proc p e s = some (s', p') → f p' = f p) : pool'.map f = pool.map f := by
  obtain ⟨before, p, p', after, rfl, rfl, hproc⟩ := poolStep_cases h
  simp [hf p p' hproc]

section Invariant

variable {R : ρ → ρ → Prop} (hsymm : ∀ p q, R p q → R q p)

include hsymm in
/-- In a pool any two of which are related, a process is related to the others. -/
theorem related_of_pairwise {before after : List ρ} {p : ρ}
    (h : (before ++ p :: after).Pairwise R) : ∀ q ∈ before ++ after, R p q := by
  rw [List.pairwise_append, List.pairwise_cons] at h
  obtain ⟨-, ⟨hafter, -⟩, hbefore⟩ := h
  intro q hq
  rcases List.mem_append.mp hq with hq | hq
  · exact hsymm q p (hbefore q hq p List.mem_cons_self)
  · exact hafter q hq

include hsymm in
/-- **The relation is kept** where the step of a process keeps it to any other. -/
theorem pairwise_poolStep (h : poolStep proc i e s pool = some (s', pool')) (hR : pool.Pairwise R)
    (hkeep : ∀ p p' q, proc p e s = some (s', p') → R p q → R p' q) : pool'.Pairwise R := by
  obtain ⟨before, p, p', after, rfl, rfl, hproc⟩ := poolStep_cases h
  have hp : ∀ q ∈ before ++ after, R p' q := fun q hq =>
    hkeep p p' q hproc (related_of_pairwise hsymm hR q hq)
  rw [List.pairwise_append, List.pairwise_cons] at hR ⊢
  obtain ⟨hbefore, ⟨-, hafter⟩, hacross⟩ := hR
  refine ⟨hbefore, ⟨fun q hq => hp q (List.mem_append_right _ hq), hafter⟩, fun q hq r hr => ?_⟩
  rcases List.mem_cons.mp hr with rfl | hr
  · exact hsymm r q (hp q (List.mem_append_left _ hq))
  · exact hacross q hq r (List.mem_cons_of_mem _ hr)

include hsymm in
/-- **The invariant rule of a pool.** A step keeps the invariant of the process
that takes it, and that of every process related to it. -/
theorem forall_poolStep {I : σ → ρ → Prop} (h : poolStep proc i e s pool = some (s', pool'))
    (hR : pool.Pairwise R) (hI : ∀ p ∈ pool, I s p)
    (hown : ∀ p p', proc p e s = some (s', p') → I s p → I s' p')
    (hothers : ∀ p p' q, proc p e s = some (s', p') → R p q → I s p → I s q → I s' q) :
    ∀ p ∈ pool', I s' p := by
  obtain ⟨before, p, p', after, rfl, rfl, hproc⟩ := poolStep_cases h
  have hp : I s p := hI p (List.mem_append_right _ List.mem_cons_self)
  have hq : ∀ q ∈ before ++ after, I s' q := by
    intro q hq
    have hmem : q ∈ before ++ p :: after := by
      rcases List.mem_append.mp hq with hq | hq
      · exact List.mem_append_left _ hq
      · exact List.mem_append_right _ (List.mem_cons_of_mem _ hq)
    exact hothers p p' q hproc (related_of_pairwise hsymm hR q hq) hp (hI q hmem)
  intro q hmem
  rcases List.mem_append.mp hmem with hmem | hmem
  · exact hq q (List.mem_append_left _ hmem)
  · rcases List.mem_cons.mp hmem with rfl | hmem
    · exact hown p q hproc hp
    · exact hq q (List.mem_append_right _ hmem)

end Invariant

end Transition
