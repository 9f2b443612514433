import VerAI.Lib.Locks
import Mathlib.Algebra.BigOperators.Group.Finset.Basic
import Mathlib.Logic.Hydra
import Mathlib.Tactic.Abel
/-!
# Where the threads come to rest

A thread that cannot go on has no code left or waits for a mutex. Where none
can go on, the holder of a mutex waited for waits itself, and for one that the
discipline lets follow it. Every schedule comes to such a rest, if what an
operation goes on with is of lower rank than the operation.

`Runs` is what code does by itself, without the mutexes. A thread that is
alone does just this.
-/

namespace Transition

namespace Locks

universe u v w x y

variable {θ : Type u} {μ : Type v} {κ : Type w} {σ : Type x} {ρ : Type y} [DecidableEq θ]
  [DecidableEq μ] {D : Discipline μ κ} {exec : Exec μ κ σ} {program : ρ → List (Instr μ κ)}
  {start : σ} {s s' : LockState θ μ κ σ} {t t' : θ} {m m' : μ} {k : κ}

/-! ## Deadlock -/

theorem advance_ne_none_of_op {rest : List (Instr μ κ)} (h : s.code t = .op k :: rest) :
    advance exec s t ≠ none := by
  simp [advance, h]

/-- **A thread that cannot go on waits**, or has no code left. -/
theorem awaits_of_advance_eq_none (hk : Kept D s) (h : advance exec s t = none) :
    s.code t = [] ∨ ∃ m, Awaits s t m := by
  cases hcode : s.code t with
  | nil => exact .inl rfl
  | cons i rest =>
    refine .inr ?_
    cases i with
    | lock m =>
      simp only [advance, hcode, Option.map_eq_none_iff] at h
      exact ⟨m, rest, hcode, RecursiveMutex.lock_eq_none_iff.mp h⟩
    | unlock m =>
      have ht := hk t
      rw [hcode] at ht
      simp only [advance, hcode, Option.map_eq_none_iff] at h
      exact absurd h (unlock_ne_none ht.1)
    | op k => exact absurd h (advance_ne_none_of_op hcode)

/-- A thread that waits cannot go on. -/
theorem Awaits.advance_eq_none (h : Awaits s t m) : advance exec s t = none := by
  obtain ⟨rest, hcode, hb⟩ := h
  simp only [advance, hcode, Option.map_eq_none_iff]
  exact RecursiveMutex.lock_eq_none_iff.mpr hb

/-- **What waits under a mutex** waits for one that may follow it. -/
theorem Awaits.after_of_held (hk : Kept D s) (h : Awaits s t m') (hm : 0 < s.held t m) :
    D.after m m' := by
  obtain ⟨rest, hcode, hb⟩ := h
  have ht := hk t
  rw [hcode] at ht
  refine (ht.1 m hm).resolve_left fun heq => ?_
  subst heq
  obtain ⟨t', hne, ht'⟩ := exists_holder hb
  exact hne (eq_of_depth ht' hm)

/-- **Where no thread can go on, a mutex waited for is held by a thread that
waits** for a mutex that may follow it. -/
theorem Stuck.exists_awaits (hk : Kept D s) (h : Stuck exec s) (ha : Awaits s t m) :
    ∃ t' m', t' ≠ t ∧ 0 < s.held t' m ∧ Awaits s t' m' ∧ D.after m m' := by
  obtain ⟨rest, hcode, hb⟩ := ha
  obtain ⟨t', hne, ht'⟩ := exists_holder hb
  obtain hnil | ⟨m', hm'⟩ := awaits_of_advance_eq_none hk (h t')
  · have hzero := hk t'
    rw [hnil] at hzero
    exact absurd ht' (by rw [show depth t' (s.mutexes m) = 0 from hzero m]; exact Nat.lt_irrefl 0)
  · exact ⟨t', m', hne, ht', hm', hm'.after_of_held hk ht'⟩

/-- **An order of the mutexes keeps the threads from deadlock**: where none can
go on, none has code left. -/
theorem Stuck.idle (hk : Kept D s) (hwf : WellFounded fun m' m => D.after m m')
    (h : Stuck exec s) (t : θ) : s.code t = [] := by
  -- induction on the mutex waited for: its holder waits for one that may follow it
  have hnone : ∀ m t, ¬ Awaits s t m := by
    intro m
    induction m using hwf.induction with
    | h m ih =>
      intro t ha
      obtain ⟨t', m', -, -, ha', hafter⟩ := h.exists_awaits hk ha
      exact ih m' hafter t' ha'
  exact (awaits_of_advance_eq_none hk (h t)).resolve_right fun ⟨m, hm⟩ => hnone m t hm

/-- Two threads each of which holds what the other waits for. -/
structure Embraced (s : LockState θ μ κ σ) (t t' : θ) (m m' : μ) : Prop where
  ne : t ≠ t'
  held : 0 < s.held t m
  awaits : Awaits s t m'
  held' : 0 < s.held t' m'
  awaits' : Awaits s t' m

/-- A mutex a thread holds is left alone by the others. -/
theorem mutexes_of_held (hm : 0 < s.held t m) (hne : t' ≠ t)
    (h : advance exec s t' = some s') : s'.mutexes m = s.mutexes m := by
  have hblocked : (s.mutexes m).BlockedFor t' := by
    revert hm
    unfold LockState.held depth
    split
    case h_1 => exact fun hm => absurd hm (Nat.lt_irrefl 0)
    case h_2 owner extra howner =>
      split
      · rename_i heq
        exact fun _ => ⟨owner, extra, howner, heq ▸ hne.symm⟩
      · exact fun hm => absurd hm (Nat.lt_irrefl 0)
  obtain ⟨n, rest, x, -, hx, rfl⟩ | ⟨n, rest, x, -, hx, rfl⟩ | ⟨k, rest, -, rfl⟩ :=
    advance_cases h
  · refine Function.update_of_ne (fun hn => ?_) ..
    subst hn
    rw [RecursiveMutex.lock_eq_none_iff.mpr hblocked] at hx
    cases hx
  · refine Function.update_of_ne (fun hn => ?_) ..
    subst hn
    obtain ⟨owner, extra, howner, hne'⟩ := hblocked
    simp [RecursiveMutex.unlock, howner, hne'] at hx
  · rfl

/-- A thread only changes its own code. -/
theorem code_of_ne (hne : t ≠ t') (h : advance exec s t' = some s') : s'.code t = s.code t := by
  obtain ⟨n, rest, x, -, -, rfl⟩ | ⟨n, rest, x, -, -, rfl⟩ | ⟨k, rest, -, rfl⟩ :=
    advance_cases h
  all_goals exact Function.update_of_ne hne ..

/-- **Two threads that wait for each other** do so for ever. -/
theorem Embraced.next {a : Action θ ρ} (h : Embraced s t t' m m')
    (hs : (machine exec program start).step s a = some s') : Embraced s' t t' m m' := by
  obtain ⟨hne, hm, ⟨rest, hcode, hb⟩, hm', ⟨rest', hcode', hb'⟩⟩ := h
  -- neither of the two can go on, so the step is a third thread's
  have hkeep : s'.code t = s.code t ∧ s'.code t' = s.code t' ∧ s'.mutexes m = s.mutexes m ∧
      s'.mutexes m' = s.mutexes m' := by
    cases a with
    | begin t₀ r =>
      obtain ⟨hidle, hs⟩ := Option.ite_none_right_eq_some.mp hs
      obtain rfl := Option.some.inj hs
      refine ⟨Function.update_of_ne ?_ .., Function.update_of_ne ?_ .., rfl, rfl⟩
      · rintro rfl
        simp [hcode] at hidle
      · rintro rfl
        simp [hcode'] at hidle
    | advance t₀ =>
      have hgoes : advance exec s t₀ ≠ none := fun h => by
        rw [show advance exec s t₀ = some s' from hs] at h
        cases h
      have ht : t ≠ t₀ := by
        rintro rfl
        exact hgoes (Awaits.advance_eq_none ⟨rest, hcode, hb⟩)
      have ht' : t' ≠ t₀ := by
        rintro rfl
        exact hgoes (Awaits.advance_eq_none ⟨rest', hcode', hb'⟩)
      exact ⟨code_of_ne ht hs, code_of_ne ht' hs, mutexes_of_held hm ht.symm hs,
        mutexes_of_held hm' ht'.symm hs⟩
  obtain ⟨hc, hc', hx, hx'⟩ := hkeep
  refine ⟨hne, ?_, ⟨rest, hc.trans hcode, hx' ▸ hb⟩, ?_, ⟨rest', hc'.trans hcode', hx ▸ hb'⟩⟩
  · rw [LockState.held, hx]
    exact hm
  · rw [LockState.held, hx']
    exact hm'

/-! ## Every schedule ends -/

/-- The rank of an instruction, by those of the operations. -/
def Instr.rank (rank : κ → ℕ) : Instr μ κ → ℕ
  | .lock _ => 0
  | .unlock _ => 0
  | .op k => rank k + 1

/-- The ranks of what a piece of code has to do. -/
def ranks (rank : κ → ℕ) (l : List (Instr μ κ)) : Multiset ℕ := (l.map (Instr.rank rank) : List ℕ)

/-- What an operation goes on with is of lower rank. -/
def Descends (exec : Exec μ κ σ) (rank : κ → ℕ) : Prop :=
  ∀ k data, ∀ i ∈ (exec k data).2, i.rank rank ≤ rank k

/-- One thread has gone on. -/
def Next (exec : Exec μ κ σ) (s' s : LockState θ μ κ σ) : Prop := ∃ t, advance exec s t = some s'

/-- The threads of a finite set are the only ones with code. -/
def Busy (T : Finset θ) (s : LockState θ μ κ σ) : Prop := ∀ t, t ∉ T → s.code t = []

theorem exists_busy (h : (machine exec program start).Reachable s) :
    ∃ T, Busy T s := by
  refine System.ReachableUnder.invariant (I := fun s => ∃ T, Busy T s) h ?_ ?_
  · rintro _ rfl
    exact ⟨∅, fun _ _ => rfl⟩
  · rintro s a s' ⟨T, hT⟩ - hs
    -- a step changes the code of one thread
    have hcode : ∃ t l, s'.code = Function.update s.code t l := by
      cases a with
      | begin t r =>
        obtain ⟨-, hs⟩ := Option.ite_none_right_eq_some.mp hs
        obtain rfl := Option.some.inj hs
        exact ⟨t, _, rfl⟩
      | advance t =>
        obtain ⟨m, rest, x, -, -, rfl⟩ | ⟨m, rest, x, -, -, rfl⟩ | ⟨k, rest, -, rfl⟩ :=
          advance_cases hs
        all_goals exact ⟨t, _, rfl⟩
    obtain ⟨t, l, hcode⟩ := hcode
    refine ⟨insert t T, fun t' ht' => ?_⟩
    rw [Finset.mem_insert, not_or] at ht'
    rw [hcode, Function.update_of_ne ht'.1]
    exact hT t' ht'.2

section Rank

variable {rank : κ → ℕ}

/-- A step takes one rank away and puts lower ones in its place. -/
theorem ranks_of_advance (hrank : Descends exec rank) (h : advance exec s t = some s') :
    ∃ l, s'.code = Function.update s.code t l ∧ s.code t ≠ [] ∧
      Relation.CutExpand (· < ·) (ranks rank l) (ranks rank (s.code t)) := by
  -- the first instruction goes, and what comes in its place is of lower rank
  have hcut : ∀ (i : Instr μ κ) (l rest : List (Instr μ κ)),
      (∀ j ∈ l, j.rank rank < i.rank rank) →
      Relation.CutExpand (· < ·) (ranks rank (l ++ rest)) (ranks rank (i :: rest)) := by
    intro i l rest hl
    refine ⟨ranks rank l, i.rank rank, fun a ha => ?_, ?_⟩
    · obtain ⟨j, hj, rfl⟩ := List.mem_map.mp (Multiset.mem_coe.mp ha)
      exact hl j hj
    · simp only [ranks, List.map_append, List.map_cons, ← Multiset.coe_add, ← Multiset.cons_coe,
        ← Multiset.singleton_add]
      abel
  obtain ⟨m, rest, x, hcode, -, rfl⟩ | ⟨m, rest, x, hcode, -, rfl⟩ | ⟨k, rest, hcode, rfl⟩ :=
    advance_cases h
  · exact ⟨rest, rfl, by simp [hcode], hcode ▸ hcut _ [] rest (by simp)⟩
  · exact ⟨rest, rfl, by simp [hcode], hcode ▸ hcut _ [] rest (by simp)⟩
  · exact ⟨_, rfl, by simp [hcode], hcode ▸ hcut _ _ rest fun i hi =>
      Nat.lt_succ_of_le (hrank k s.data i hi)⟩

theorem acc_of_busy (hrank : Descends exec rank) {T : Finset θ} (hT : Busy T s) :
    Acc (Next exec) s := by
  have hwf := (wellFounded_lt (α := ℕ)).cutExpand
  generalize hw : ∑ t ∈ T, ranks rank (s.code t) = w
  -- induction on the ranks of all that the busy threads have left
  induction w using hwf.induction generalizing s with
  | h w ih =>
    refine .intro s ?_
    rintro s' ⟨t, hs⟩
    obtain ⟨l, hcode, hne, hcut⟩ := ranks_of_advance hrank hs
    have ht : t ∈ T := by
      by_contra hnot
      exact hne (hT t hnot)
    refine ih _ ?_ (fun t' ht' => ?_) rfl
    · rw [← hw, ← Finset.add_sum_erase T _ ht, ← Finset.add_sum_erase T _ ht]
      have hsame : ∑ t' ∈ T.erase t, ranks rank (s'.code t') =
          ∑ t' ∈ T.erase t, ranks rank (s.code t') := by
        refine Finset.sum_congr rfl fun t' ht' => ?_
        rw [hcode, Function.update_of_ne (Finset.ne_of_mem_erase ht')]
      rw [hsame, hcode, Function.update_self, add_comm, add_comm (ranks rank (s.code t))]
      exact (Relation.cutExpand_add_left _).mpr hcut
    · rw [hcode, Function.update_of_ne (ne_of_mem_of_not_mem ht ht').symm]
      exact hT t' ht'

/-- **Every schedule ends**: the threads cannot go on for ever. -/
theorem acc_of_reachable (hrank : Descends exec rank)
    (h : (machine exec program start).Reachable s) : Acc (Next exec) s := by
  obtain ⟨T, hT⟩ := exists_busy h
  exact acc_of_busy hrank hT

end Rank

/-! ## Code by itself -/

/-- **What code does to the data** by itself, the mutexes aside. -/
inductive Runs (exec : Exec μ κ σ) : List (Instr μ κ) → σ → σ → Prop
  | nil {data : σ} : Runs exec [] data data
  | lock {m : μ} {rest : List (Instr μ κ)} {data data' : σ} :
      Runs exec rest data data' → Runs exec (.lock m :: rest) data data'
  | unlock {m : μ} {rest : List (Instr μ κ)} {data data' : σ} :
      Runs exec rest data data' → Runs exec (.unlock m :: rest) data data'
  | op {k : κ} {rest : List (Instr μ κ)} {data data' : σ} :
      Runs exec ((exec k data).2 ++ rest) (exec k data).1 data' →
      Runs exec (.op k :: rest) data data'

section Runs

variable {l l' : List (Instr μ κ)} {data data' data'' : σ}

omit [DecidableEq μ] in
theorem Runs.append (h : Runs exec l data data') (h' : Runs exec l' data' data'') :
    Runs exec (l ++ l') data data'' := by
  induction h with
  | nil => exact h'
  | lock _ ih => exact .lock (ih h')
  | unlock _ ih => exact .unlock (ih h')
  | op _ ih => exact .op (List.append_assoc .. ▸ ih h')

omit [DecidableEq μ] in
theorem Runs.guarded (h : Runs exec l data data') : Runs exec (guarded m l) data data' :=
  .lock (h.append (.unlock .nil))

omit [DecidableEq μ] in
/-- An operation, and what it goes on with. -/
theorem Runs.single (h : Runs exec (exec k data).2 (exec k data).1 data') :
    Runs exec [.op k] data data' :=
  .op (by rwa [List.append_nil])

/-- Nothing keeps a thread that is alone from going on. -/
theorem exists_advance (hk : Kept D s) (halone : ∀ t', t' ≠ t → s.code t' = [])
    (hne : s.code t ≠ []) : ∃ s', advance exec s t = some s' := by
  rw [← Option.ne_none_iff_exists']
  intro hnone
  obtain ⟨m, rest, -, hb⟩ := (awaits_of_advance_eq_none hk hnone).resolve_left hne
  obtain ⟨t', hne', ht'⟩ := exists_holder hb
  have hzero := hk t'
  rw [halone t' hne'] at hzero
  exact ht'.ne' (hzero m)

/-- **A thread that is alone** does what its code does. -/
theorem leads_of_runs {P : ρ → Prop} (hd : Disciplined D exec program P) (hk : Kept D s)
    (halone : ∀ t', t' ≠ t → s.code t' = []) (h : Runs exec (s.code t) s.data data') :
    ∃ s', (machine exec program start).Leads s s' ∧ (∀ t, s'.code t = []) ∧ s'.data = data' := by
  -- one instruction, after which the derivation is shorter
  have hstep : ∀ {s : LockState θ μ κ σ} {i : Instr μ κ} {rest : List (Instr μ κ)}, Kept D s →
      (∀ t', t' ≠ t → s.code t' = []) → s.code t = i :: rest → ∃ s', advance exec s t = some s' ∧
        Kept D s' ∧ ∀ t', t' ≠ t → s'.code t' = [] := by
    intro s i rest hk halone hcode
    obtain ⟨s', hs⟩ := exists_advance hk halone (by simp [hcode] : s.code t ≠ [])
    exact ⟨s', hs, kept_advance hd hk hs, fun t' ht' => (code_of_ne ht' hs).trans (halone t' ht')⟩
  generalize hl : s.code t = l at h
  generalize hdata : s.data = data at h
  induction h generalizing s with
  | nil =>
    refine ⟨s, .refl s, fun t' => ?_, hdata⟩
    by_cases ht : t' = t
    · exact ht ▸ hl
    · exact halone t' ht
  | lock _ ih =>
    obtain ⟨s₁, hs, hk₁, halone₁⟩ := hstep hk halone hl
    simp only [advance, hl, Option.map_eq_some_iff] at hs
    obtain ⟨x, hx, rfl⟩ := hs
    obtain ⟨s', hleads, hend⟩ := ih hk₁ halone₁ (Function.update_self ..) hdata
    exact ⟨s', .trans (.single (a := .advance t) (by simp [machine, advance, hl, hx])) hleads, hend⟩
  | unlock _ ih =>
    obtain ⟨s₁, hs, hk₁, halone₁⟩ := hstep hk halone hl
    simp only [advance, hl, Option.map_eq_some_iff] at hs
    obtain ⟨x, hx, rfl⟩ := hs
    obtain ⟨s', hleads, hend⟩ := ih hk₁ halone₁ (Function.update_self ..) hdata
    exact ⟨s', .trans (.single (a := .advance t) (by simp [machine, advance, hl, hx])) hleads, hend⟩
  | op _ ih =>
    obtain ⟨s₁, hs, hk₁, halone₁⟩ := hstep hk halone hl
    simp only [advance, hl, Option.some.injEq] at hs
    subst hs
    obtain ⟨s', hleads, hend⟩ := ih hk₁ halone₁ (hdata ▸ Function.update_self ..) (hdata ▸ rfl)
    exact ⟨s', .trans (.single (a := .advance t) (by simp [machine, advance, hl])) hleads, hend⟩

end Runs

end Locks

end Transition
