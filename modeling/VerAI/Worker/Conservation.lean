import VerAI.Worker.Tasks
/-!
# Where the deferred tasks are

A task given to `EnqueueTaskAfterTimeOut` stays in the list until a pass has
pushed it to the main queue, or `Stop` clears the list. The machine of the
working thread runs here with two ledgers beside it, of the tasks added and of
those a `Stop` dropped; neither is a variable of the code.
-/

namespace VerAI

namespace Worker

open Transition (System)

universe u

variable {τ : Type u}

/-- A working thread, the requests made of it, and those dropped. -/
structure LedgerState (τ : Type u) where
  thread : ThreadState τ
  added : List (Request (Option τ))
  dropped : List (Request (Option τ))

/-- The request a call adds to the list. -/
def ThreadState.requestAdded (s : ThreadState τ) : ThreadAction τ → List (Request (Option τ))
  | .deffered (.enqueueTaskAfterTimeOut task ms) => [⟨task, s.deffered.now, ms⟩]
  | _ => []

/-- At the critical section of `Stop`. -/
def ControlPc.clears : ControlPc → Bool
  | stopClear _ => true
  | _ => false

/-- The requests that the critical section of `Stop` clears. -/
def ThreadState.requestsDropped (s : ThreadState τ) : ThreadAction τ → List (Request (Option τ))
  | .control =>
    if s.control.clears ∧ s.defferedTasksThr then
      s.deffered.defferedTasksList.map DefferedTask.taskToRun
    else []
  | _ => []

/-- **The machine of a working thread with its ledgers.** -/
def ledgerMachine (τ : Type u) [DecidableEq τ] : System (LedgerState τ) (ThreadAction τ) where
  init s := s = ⟨.new, [], []⟩
  step s a := ((threadMachine τ).step s.thread a).map fun t =>
    ⟨t, s.added ++ s.thread.requestAdded a, s.dropped ++ s.thread.requestsDropped a⟩

/-- The requests moved to the main queue. -/
def ThreadState.requestsMoved (s : ThreadState τ) : List (Request (Option τ)) :=
  (s.deffered.moved.take s.delivered).map Prod.fst

/-- The tasks of some requests, as `EnqueueTask` pushes them. -/
def ticketsOf (requests : List (Request (Option τ))) : List (Ticket τ) :=
  requests.filterMap fun r => r.task.map fun x => ⟨x, .enqueueTask⟩

/-- **Every request is in one place**: still in the list, pushed to the main
queue, or dropped. -/
structure InOnePlace (s : LedgerState τ) : Prop where
  perm : (s.thread.lateRequests ++ s.thread.requestsMoved ++ s.dropped).Perm s.added
  pushed : (ticketsOf s.thread.requestsMoved).Sublist s.thread.main.pushed

/-! ## The requests of a step -/

section Step

theorem lateRequests_append_requestsMoved (s : ThreadState τ) :
    (s.lateRequests ++ s.requestsMoved).Perm s.deffered.requests := by
  have hmoved : s.requestsMoved ++ (s.deffered.moved.drop s.delivered).map Prod.fst =
      s.deffered.moved.map Prod.fst := by
    rw [ThreadState.requestsMoved, ← List.map_append, List.take_append_drop]
  rw [ThreadState.lateRequests, DefferedState.requests, ← hmoved, List.append_assoc]
  exact List.perm_append_comm.append_left _

/-- The main queue forgets no push. -/
theorem pushed_of_step {m m' : State τ} {b : Action τ} (h : (queueMachine τ).step m b = some m') :
    m.pushed <+: m'.pushed := by
  rcases b with task | task | _ | _ | _
  · exact Option.some.inj h ▸ List.prefix_append ..
  · exact Option.some.inj h ▸ List.prefix_append ..
  · exact Option.some.inj h ▸ List.prefix_rfl
  · obtain ⟨-, h⟩ := Option.ite_none_right_eq_some.mp h
    exact Option.some.inj h ▸ List.prefix_rfl
  · exact (works_of_work h).frame.1 ▸ List.prefix_rfl

variable [DecidableEq τ] {s s' : ThreadState τ} {a : ThreadAction τ}

/-- The controlling thread drops what it clears, and moves nothing. -/
theorem requests_of_controlStep (h : s.controlStep = some s') :
    (s'.deffered.requests ++ s.requestsDropped .control).Perm s.deffered.requests := by
  have hsame : s.control.clears = false → s'.deffered.requests = s.deffered.requests →
      (s'.deffered.requests ++ s.requestsDropped .control).Perm s.deffered.requests := by
    intro hc heq
    simp only [ThreadState.requestsDropped, hc]
    simp [heq]
  cases threads_of_controlStep h with
  | makeWork hc | makeDeffered hc | stopPush hc | joinWork hc | joinDeffered hc =>
    exact hsame (by rw [hc]; rfl) rfl
  | @stopClear d hc ht =>
    have hdrop : s.requestsDropped .control =
        s.deffered.defferedTasksList.map DefferedTask.taskToRun :=
      if_pos ⟨by rw [hc]; rfl, ht⟩
    rw [hdrop]
    exact List.perm_append_comm
  | stopNoHandler hc ht =>
    have hdrop : s.requestsDropped .control = [] :=
      if_neg fun hboth => Bool.false_ne_true (ht.symm.trans hboth.2)
    rw [hdrop, List.append_nil]
  | terminate =>
    refine hsame ?_ rfl
    cases hc : s.control with
    | stopClear d => exact absurd (control_of_stopClear hc h).symm afterStop_ne_terminated
    | _ => rfl

/-- **A step keeps the requests**, but for the one added and those dropped. -/
theorem requests_of_threadStep (h : (threadMachine τ).step s a = some s') :
    (s'.deffered.requests ++ s.requestsDropped a).Perm
      (s.deffered.requests ++ s.requestAdded a) := by
  cases threads_of_step h with
  | @deffered b d _ he hd =>
    obtain ⟨task, ms, rfl, hmoved, hlist⟩ | ⟨hnot, hperm⟩ :=
      requests_of_step (by rintro rfl; cases he) hd
    · show (d.requests ++ []).Perm (s.deffered.requests ++ [_])
      rw [List.append_nil, DefferedState.requests, DefferedState.requests, hlist, hmoved,
        List.append_assoc, List.append_assoc]
      exact List.perm_append_comm.append_left _
    · have hnone : s.requestAdded (.deffered b) = [] := by
        cases b with
        | enqueueTaskAfterTimeOut task ms => exact absurd rfl (hnot task ms)
        | _ => rfl
      rw [hnone]
      exact hperm.append_right []
  | makeWork | makeDeffered | stopPush | stopClear | stopNoHandler | joinWork | joinDeffered
  | terminate =>
    rw [show s.requestAdded .control = [] from rfl, List.append_nil]
    exact requests_of_controlStep h
  | _ => exact .refl _

/-- **A request is moved by the push of its task**, and by nothing else. -/
theorem Threads.requestsMoved (h : Threads s a s') (hi : ThreadInv s) :
    ∃ moved, s'.requestsMoved = s.requestsMoved ++ moved ∧
      ∃ rest, s.main.pushed ++ ticketsOf moved ++ rest = s'.main.pushed := by
  have hstill : ∀ {t : ThreadState τ}, t.requestsMoved = s.requestsMoved →
      s.main.pushed <+: t.main.pushed → ∃ moved, t.requestsMoved = s.requestsMoved ++ moved ∧
        ∃ rest, s.main.pushed ++ ticketsOf moved ++ rest = t.main.pushed := by
    rintro t heq ⟨rest, hrest⟩
    refine ⟨[], by rw [heq, List.append_nil], rest, ?_⟩
    rw [← hrest, ticketsOf, List.filterMap_nil, List.append_nil]
  cases h with
  | @deliver r t _ _ hr =>
    obtain ⟨hlt, hget⟩ := List.getElem?_eq_some_iff.mp hr
    refine ⟨[r], ?_, [], ?_⟩
    · show (s.deffered.moved.take (s.delivered + 1)).map Prod.fst = _
      rw [List.take_add_one, hr, List.map_append]
      rfl
    · show s.main.pushed ++ ticketsOf [r] ++ [] = (enqueueTask s.main r.task).pushed
      rw [List.append_nil]
      cases htask : r.task <;> simp [ticketsOf, enqueueTask, htask]
  | @main b m _ _ hm => exact hstill rfl (pushed_of_step hm)
  | @stopPush d m _ hm => exact hstill rfl (pushed_of_step (b := .stopPush) hm)
  | @deffered b d _ he hd =>
    obtain ⟨rest, hrest⟩ := (handlerFrame_of_step (ne_store_of_enabled he) hd).moved
    refine hstill ?_ List.prefix_rfl
    show (d.moved.take s.delivered).map Prod.fst = _
    rw [← hrest, List.take_append_of_le_length hi.delivered]
    rfl
  | _ => exact hstill rfl List.prefix_rfl

end Step

/-! ## Every run -/

section Runs

variable [DecidableEq τ] {s s' : LedgerState τ} {a : ThreadAction τ}

theorem InOnePlace.step (hi : InOnePlace s) (hw : ThreadInv s.thread)
    (h : (ledgerMachine τ).step s a = some s') : InOnePlace s' := by
  obtain ⟨t, ht, rfl⟩ := Option.map_eq_some_iff.mp h
  have hsteps := threads_of_step ht
  refine ⟨?_, ?_⟩
  · -- the ledgers grow by what the step adds and drops
    have hplaces := (lateRequests_append_requestsMoved s.thread).symm.append_right s.dropped
    have hbefore := hplaces.trans hi.perm
    show (t.lateRequests ++ t.requestsMoved ++ (s.dropped ++ s.thread.requestsDropped a)).Perm
      (s.added ++ s.thread.requestAdded a)
    refine ((lateRequests_append_requestsMoved t).append_right _).trans ?_
    refine (List.perm_append_comm.append_left t.deffered.requests).trans ?_
    rw [← List.append_assoc]
    refine ((requests_of_threadStep ht).append_right s.dropped).trans ?_
    rw [List.append_assoc]
    refine (List.perm_append_comm.append_left s.thread.deffered.requests).trans ?_
    rw [← List.append_assoc]
    exact hbefore.append_right _
  · obtain ⟨moved, hmoved, rest, hrest⟩ := hsteps.requestsMoved hw
    show (ticketsOf t.requestsMoved).Sublist t.main.pushed
    rw [hmoved, ← hrest, ticketsOf, List.filterMap_append]
    exact (hi.pushed.append (List.Sublist.refl _)).trans (List.sublist_append_left _ _)

theorem inOnePlace_of_reachable (h : (ledgerMachine τ).Reachable s) : InOnePlace s := by
  refine (h.invariant (I := fun s => ThreadInv s.thread ∧ InOnePlace s) (fun s hs => ?_)
    fun s a s' hi _ hstep => ?_).2
  · exact hs ▸ ⟨threadInv_new, .nil, List.Sublist.refl _⟩
  · obtain ⟨t, ht, -⟩ := Option.map_eq_some_iff.mp hstep
    refine ⟨?_, hi.2.step hi.1 hstep⟩
    have hthread : s'.thread = t := by
      obtain ⟨t', ht', rfl⟩ := Option.map_eq_some_iff.mp hstep
      exact Option.some.inj (ht'.symm.trans ht)
    exact hthread ▸ hi.1.step (threads_of_step ht)

end Runs

/-- What a pass is to do: the tasks with no more than the wait left are
moved in list order, each other one keeps what is left of its delay. -/
structure PassSpec {α : Type u} (curWait : ℕ) (list : List (DefferedTask α)) : Prop where
  moved : (pass curWait list).1 =
    (list.filter fun it => it.ms.toNat ≤ curWait).map DefferedTask.taskToRun
  kept : (pass curWait list).2 =
    (list.filter fun it => curWait < it.ms.toNat).map (charge curWait)
  charged : ∀ it ∈ list, curWait < it.ms.toNat →
    (charge curWait it).taskToRun = it.taskToRun ∧
    (charge curWait it).ms.toNat = it.ms.toNat - curWait ∧ 1 ≤ (charge curWait it).ms.toNat

/-- **A pass does so**, for any list and any wait. -/
theorem passSpec {α : Type u} (curWait : ℕ) (list : List (DefferedTask α)) :
    PassSpec curWait list := by
  have hdue : (fun it : DefferedTask α => decide (it.ms.toNat ≤ curWait)) = isDue curWait := by
    funext it
    rw [Bool.eq_iff_iff, decide_eq_true_eq, isDue_iff]
  have hkept : (fun it : DefferedTask α => decide (curWait < it.ms.toNat)) =
      fun it => !isDue curWait it := by
    funext it
    rw [← hdue, Bool.eq_iff_iff, decide_eq_true_eq, Bool.not_eq_true', decide_eq_false_iff_not,
      not_le]
  refine ⟨by rw [pass_eq, hdue], by rw [pass_eq, hkept], fun it _ hlt => ?_⟩
  have hnot : isDue curWait it = false :=
    Bool.eq_false_iff.mpr fun h => Nat.not_le_of_lt hlt (isDue_iff.mp h)
  have hms := charge_toNat hnot
  exact ⟨rfl, by omega, by omega⟩

/-- **Deferred tasks are conserved.** In every run each task added is in the
list, moved to the main queue or dropped by a `Stop`, in one of the three
and as often as it was added; and every pass moves the tasks that are due
and keeps the rest. -/
theorem deffered_conserved (τ : Type u) [DecidableEq τ] :
    (∀ s, (ledgerMachine τ).Reachable s → InOnePlace s) ∧
    ∀ (curWait : ℕ) (list : List (DefferedTask (Request (Option τ)))), PassSpec curWait list :=
  ⟨fun _ h => inOnePlace_of_reachable h, passSpec⟩

/-- Two tasks added, the shorter moved, the other dropped. -/
def moveAndDrop : List (ThreadAction ℕ) :=
  let order := [⟨⟨some 2, 0, 100⟩, 100⟩, ⟨⟨some 1, 0, 1000⟩, 1000⟩]
  [.run, .control, .control, .main .work, .deffered .lock, .deffered .whileRunning,
    .deffered (.enqueueTaskAfterTimeOut (some 1) 1000),
    .deffered (.enqueueTaskAfterTimeOut (some 2) 100), .deffered (.wake order),
    .deffered .whileRunning, .deffered (.tick (100 * nsPerMs)), .deffered (.wake order),
    .deliver, .deffered .whileRunning, .stop, .control, .control]

theorem moveAndDrop_inOnePlace :
    ∃ s : LedgerState ℕ, s.thread.lateRequests = [] ∧
      s.thread.requestsMoved = [⟨some 2, 0, 100⟩] ∧ s.dropped = [⟨some 1, 0, 1000⟩] ∧
      InOnePlace s := by
  have hrun : ((ledgerMachine ℕ).exec ⟨.new, [], []⟩ moveAndDrop).map
      (fun s => (s.thread.lateRequests, s.thread.requestsMoved, s.dropped)) =
      some ([], [⟨some 2, 0, 100⟩], [⟨some 1, 0, 1000⟩]) := by decide
  obtain ⟨s, hs, hplaces⟩ := Option.map_eq_some_iff.mp hrun
  simp only [Prod.mk.injEq] at hplaces
  obtain ⟨hlate, hmoved, hdropped⟩ := hplaces
  exact ⟨s, hlate, hmoved, hdropped,
    (deffered_conserved ℕ).1 s (System.reachable_of_exec _ rfl hs)⟩

end Worker

end VerAI
