import VerAI.Worker.Deffered
/-!
# The nearest deferred task

The handler waits for as long as the head of its sorted list has left. The
comparator it hands to `qsort` returns an unsigned difference as an `int`, so
that delays `2 ^ 31` or more apart compare the wrong way round: where no two
of the list are so far apart the head is the nearest task, and the pass that
follows keeps it so, since it charges all entries alike.
-/

namespace VerAI

namespace Worker

open Transition (System)

universe u

variable {α τ : Type u}

/-- No two delays of the list are half the range of a word apart. -/
def HalfRange (list : List (DefferedTask α)) : Prop :=
  ∀ a ∈ list, ∀ b ∈ list, a.ms.toNat < b.ms.toNat + 2 ^ 31

instance (list : List (DefferedTask α)) : Decidable (HalfRange list) :=
  inferInstanceAs (Decidable (∀ _ ∈ _, ∀ _ ∈ _, _))

/-- **The comparator is an order of the list**, that of the delays. -/
structure ConsistentOrder (list : List (DefferedTask α)) : Prop where
  sign : ∀ a ∈ list, ∀ b ∈ list, (compareMs a b).sign = ((a.ms.toNat : ℤ) - b.ms.toNat).sign
  antisymm : ∀ a ∈ list, ∀ b ∈ list, (compareMs b a).sign = -(compareMs a b).sign
  trans : ∀ a ∈ list, ∀ b ∈ list, ∀ c ∈ list,
    compareMs a b ≤ 0 → compareMs b c ≤ 0 → compareMs a c ≤ 0

/-- The tasks stand in the order of their delays. -/
def SortedByMs (list : List (DefferedTask α)) : Prop :=
  list.Pairwise fun a b => a.ms.toNat ≤ b.ms.toNat

/-- **What a pass does for the nearest task**: the next wait is the least delay
left, and the tasks due are pushed by their delays. -/
structure Nearest (s s' : DefferedState τ) : Prop where
  nextWait : s'.defferedTasksList ≠ [] →
    (∃ it ∈ s'.defferedTasksList, it.ms = s'.nextWait) ∧
    ∀ it ∈ s'.defferedTasksList, s'.nextWait.toNat ≤ it.ms.toNat
  pushed : ∃ due : List (DefferedTask (Request τ)), SortedByMs due ∧
    (∀ it ∈ due, it ∈ s.defferedTasksList) ∧
    s'.moved = s.moved ++ due.map fun it => (it.taskToRun, s.now)

/-! ## The comparator -/

section Comparator

variable {list order : List (DefferedTask α)}

theorem agrees_compareMs_iff :
    Comparator.Agrees compareMs (fun a => (a.ms.toNat : ℤ)) list ↔ HalfRange list := by
  refine (Comparator.agrees_toInt_sub_iff (f := DefferedTask.ms)).trans ?_
  refine forall₂_congr fun a _ => forall₂_congr fun b _ => ?_
  omega

theorem consistentOrder_iff : ConsistentOrder list ↔ HalfRange list := by
  rw [← agrees_compareMs_iff]
  refine ⟨ConsistentOrder.sign, fun h => ⟨h, fun a ha b hb => h.antisymm ha hb, ?_⟩⟩
  exact fun a ha b hb c hc => h.trans ha hb hc

/-- What `qsort` leaves is in the order of the delays. -/
theorem Qsorted.sortedByMs (h : Qsorted list order) (hr : HalfRange list) : SortedByMs order := by
  have hmem : ∀ a ∈ order, a ∈ list := fun a => h.1.mem_iff.mp
  have hsorted := ((agrees_compareMs_iff.mpr hr).sorted_iff hmem).mp (h.2 hr)
  exact hsorted.imp Int.ofNat_le.mp

end Comparator

/-! ## The pass -/

section Pass

variable {c t1 : ℕ} {list : List (DefferedTask α)}

/-- All entries a pass keeps are charged alike, so it keeps their order. -/
theorem SortedByMs.kept (h : SortedByMs list) : SortedByMs (pass c list).2 := by
  rw [pass_eq]
  refine List.pairwise_map.mpr ((h.filter _).imp_of_mem fun ha hb hle => ?_)
  have hmsa := charge_toNat (c := c) (by simpa using List.of_mem_filter ha)
  have hmsb := charge_toNat (c := c) (by simpa using List.of_mem_filter hb)
  omega

variable {s : DefferedState τ}

theorem SortedByMs.afterWait (h : SortedByMs s.defferedTasksList) (t1 : ℕ) :
    SortedByMs (afterWait s t1).defferedTasksList := by
  unfold Worker.afterWait
  split
  · exact h
  · exact h.kept

theorem SortedByMs.pushed (h : SortedByMs s.defferedTasksList) (t1 : ℕ) :
    ∃ due : List (DefferedTask (Request τ)), SortedByMs due ∧
      (∀ it ∈ due, it ∈ s.defferedTasksList) ∧
      (Worker.afterWait s t1).moved = s.moved ++ due.map fun it => (it.taskToRun, s.now) := by
  unfold Worker.afterWait
  split
  · exact ⟨[], .nil, nofun, (List.append_nil _).symm⟩
  · refine ⟨s.defferedTasksList.filter (isDue (curWait s t1)), h.filter _,
      fun it => List.mem_of_mem_filter, ?_⟩
    show s.moved ++ _ = _
    rw [pass_eq, List.map_map]
    rfl

/-- The wait chosen is the least delay of a sorted list. -/
theorem SortedByMs.nextWait (h : SortedByMs s.defferedTasksList)
    (hne : s.defferedTasksList ≠ []) :
    (∃ it ∈ s.defferedTasksList, it.ms = (chooseNextWait s).nextWait) ∧
    ∀ it ∈ s.defferedTasksList, (chooseNextWait s).nextWait.toNat ≤ it.ms.toNat := by
  rcases hlist : s.defferedTasksList with _ | ⟨first, rest⟩
  · exact absurd hlist hne
  · have hwait : (chooseNextWait s).nextWait = first.ms := by simp [chooseNextWait, hlist]
    rw [SortedByMs, hlist] at h
    rw [hwait]
    refine ⟨⟨first, List.mem_cons_self .., rfl⟩, fun it hit => ?_⟩
    rcases List.mem_cons.mp hit with rfl | hrest
    · exact le_rfl
    · exact (List.pairwise_cons.mp h).1 it hrest

variable [DecidableEq τ] {s' : DefferedState τ} {order : List (DefferedTask (Request τ))}

theorem nearest_of_wake (hr : HalfRange s.defferedTasksList) (h : wake s order = some s') :
    Nearest s s' := by
  obtain ⟨t1, -, ⟨hnil, rfl⟩ | ⟨hq, rfl⟩⟩ := wake_eq_some h
  · exact ⟨fun hne => absurd hnil hne, [], .nil, nofun, (List.append_nil _).symm⟩
  · have hsorted : SortedByMs order := hq.sortedByMs hr
    set sorted : DefferedState τ := { s with defferedTasksList := order }
    have hafter := SortedByMs.afterWait (s := sorted) hsorted t1
    obtain ⟨-, -, hlist, hmoved, -, -⟩ := chooseNextWait_frame (afterWait sorted t1)
    refine ⟨fun hne => ?_, ?_⟩
    · rw [hlist] at hne ⊢
      exact hafter.nextWait hne
    · obtain ⟨due, hdue, hmem, hpushed⟩ := SortedByMs.pushed (s := sorted) hsorted t1
      exact ⟨due, hdue, fun it hit => hq.1.mem_iff.mp (hmem it hit), hmoved.trans hpushed⟩

end Pass

/-- **When the handler wakes for the nearest task.** The comparator is an
order of the delays of a list, and every pass over it so chooses the least
delay left and pushes by the delays, exactly when no two of the delays are
`2 ^ 31` or more apart. -/
theorem nearest_iff (τ : Type u) [DecidableEq τ] (list : List (DefferedTask (Request τ))) :
    (ConsistentOrder list ∧ ∀ s s' order, s.defferedTasksList = list →
      (defferedMachine τ).step s (.wake order) = some s' → Nearest s s') ↔ HalfRange list := by
  refine ⟨fun h => consistentOrder_iff.mp h.1, fun h => ⟨consistentOrder_iff.mpr h, ?_⟩⟩
  rintro s s' order rfl hstep
  exact nearest_of_wake h hstep

/-- A task of a tenth of a second and one of five weeks, sorted by the
comparator. -/
def farApart : List (DefferedTask (Request String)) :=
  [⟨⟨"late", 0, 3000000000⟩, 3000000000⟩, ⟨⟨"soon", 0, 100⟩, 100⟩]

/-- **The handler waits five weeks**, the comparator having put the nearer task
last. -/
theorem farApart_not_nearest :
    ¬ ∀ s s' order, (defferedMachine String).Reachable s →
      (defferedMachine String).step s (.wake order) = some s' →
      (order.Pairwise fun a b => compareMs a b ≤ 0) → s'.defferedTasksList ≠ [] →
      ∀ it ∈ s'.defferedTasksList, s'.nextWait.toNat ≤ it.ms.toNat := by
  intro h
  let waiting : List (DefferedAction String) :=
    [.store true, .lock, .whileRunning, .enqueueTaskAfterTimeOut "soon" 100,
      .enqueueTaskAfterTimeOut "late" 3000000000]
  have hrun : ((defferedMachine String).exec ⟨0, false, [], .start, 500, true, []⟩ waiting).bind
      (fun s => ((defferedMachine String).step s (.wake farApart)).map
        fun s' => (s'.defferedTasksList, s'.nextWait)) = some (farApart, 3000000000) := by decide
  obtain ⟨s, hs, hstep⟩ := Option.bind_eq_some_iff.mp hrun
  obtain ⟨s', hs', hpair⟩ := Option.map_eq_some_iff.mp hstep
  obtain ⟨hlist, hwait⟩ := Prod.mk.inj hpair
  have hmin := h s s' farApart (System.reachable_of_exec _ rfl hs) hs' (by decide)
    (by rw [hlist]; decide) ⟨⟨"soon", 0, 100⟩, 100⟩ (by rw [hlist]; decide)
  rw [hwait] at hmin
  exact absurd hmin (by decide)

end Worker

end VerAI
