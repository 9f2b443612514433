import VerAI.Worker.Thread
/-!
# The tasks a working thread still has to run

A task given to a working thread waits in the batch, in the main queue or
among the deferred ones, where it stays until it is delivered. A step of the
two threads moves tasks between these places or takes one out to run it, and
only an enqueuing call adds one. `Stop` drops the deferred ones.
-/

namespace VerAI

namespace Worker

universe u

variable {τ : Type u}

/-- The tasks in the batch and the queue. -/
def State.waiting (s : State τ) : List τ :=
  (s.deq.reduceOption ++ s.taskQueue.tasks).map Ticket.task

/-- The requests in the list, and those moved. -/
def DefferedState.requests (s : DefferedState τ) : List (Request τ) :=
  s.defferedTasksList.map DefferedTask.taskToRun ++ s.moved.map Prod.fst

/-- The requests in the list, and those moved that are not delivered. -/
def ThreadState.lateRequests (s : ThreadState τ) : List (Request (Option τ)) :=
  s.deffered.defferedTasksList.map DefferedTask.taskToRun ++
    (s.deffered.moved.drop s.delivered).map Prod.fst

/-- The tasks that are deferred. -/
def ThreadState.late (s : ThreadState τ) : List τ :=
  (s.lateRequests.map Request.task).reduceOption

/-- **The tasks still to be run**, the running one left out. -/
def ThreadState.waiting (s : ThreadState τ) : List τ := s.main.waiting ++ s.late

/-- **The tasks that can still come to be run**: a handler that has returned
delivers no task. -/
def ThreadState.ahead (s : ThreadState τ) : List τ :=
  if s.deffered.pc = .returned then s.main.waiting else s.waiting

/-- The task in `Run()`. -/
def ThreadState.running (s : ThreadState τ) : List τ := s.main.pc.running.map Ticket.task

/-- The task a call adds. -/
def ThreadAction.added : ThreadAction τ → List τ
  | .main (.enqueueTask task) => task.toList
  | .main (.enqueueTaskFront task) => task.toList
  | .deffered (.enqueueTaskAfterTimeOut task _) => task.toList
  | _ => []

/-- The same, where it can come to be run. -/
def ThreadAction.addedAhead (s : ThreadState τ) : ThreadAction τ → List τ
  | .deffered (.enqueueTaskAfterTimeOut task _) =>
    if s.deffered.pc = .returned then [] else task.toList
  | a => a.added

theorem addedAhead_subset_added {s : ThreadState τ} {a : ThreadAction τ} :
    a.addedAhead s ⊆ a.added := by
  intro task htask
  unfold ThreadAction.addedAhead at htask
  split at htask
  · split at htask
    · cases htask
    · exact htask
  · exact htask

/-- The task a step puts into the main queue. -/
def ThreadAction.queued (s : ThreadState τ) : ThreadAction τ → List τ
  | .main (.enqueueTask task) => task.toList
  | .main (.enqueueTaskFront task) => task.toList
  | .deliver => (s.deffered.moved[s.delivered]?.bind fun p => p.1.task).toList
  | _ => []

/-- The task a step of `Work` takes out. -/
def ThreadAction.taken (s' : ThreadState τ) : ThreadAction τ → List τ
  | .main .work => s'.running
  | _ => []

/-! ## The main queue -/

section Main

variable {s s' : State τ}

/-- A step of `Work` that runs a task has run it. -/
theorem Works.ran (h : Works s s') : s'.ran = s.ran ++ s.pc.running := by
  cases h <;> simp_all [Pc.running]

/-- **A step of `Work` takes the first task out, or none.** -/
theorem Works.waiting (h : Works s s') (hc : Control s) :
    s'.pc.running.map Ticket.task ++ s'.waiting = s.waiting := by
  have hflow := h.flow hc
  rw [State.flow, State.flow, h.ran] at hflow
  simp only [List.append_assoc, List.append_cancel_left_eq] at hflow
  rw [State.waiting, State.waiting, ← hflow, List.map_append, List.map_append, List.map_append]

theorem waiting_enqueueTask (task : Option τ) :
    (enqueueTask s task).waiting = s.waiting ++ task.toList := by
  cases task <;> simp [enqueueTask, State.waiting]

theorem waiting_enqueueTaskFront (task : Option τ) :
    (enqueueTaskFront s task).waiting.Perm (task.toList ++ s.waiting) := by
  cases task with
  | none => simp [enqueueTaskFront, State.waiting]
  | some x =>
    simp only [enqueueTaskFront, State.waiting, Option.map_some,
      MessageQueue.tasks_pushFront_some, List.map_append, List.map_cons, Option.toList_some]
    exact List.perm_middle

theorem waiting_stopPush (h : stopPush s = some s') : s'.waiting = s.waiting := by
  obtain ⟨-, h⟩ := Option.ite_none_right_eq_some.mp h
  obtain rfl := Option.some.inj h
  simp [State.waiting]

end Main

/-! ## The deferred tasks -/

section Deffered

variable {s s' : DefferedState τ}

/-- **A pass moves the requests that are due and keeps the others.** -/
theorem pass_perm {α : Type u} (c : ℕ) (list : List (DefferedTask α)) :
    ((pass c list).2.map DefferedTask.taskToRun ++ (pass c list).1).Perm
      (list.map DefferedTask.taskToRun) := by
  have hkept : ((list.filter fun it => !isDue c it).map (charge c)).map DefferedTask.taskToRun =
      (list.filter fun it => !isDue c it).map DefferedTask.taskToRun := by
    rw [List.map_map]
    rfl
  rw [pass_eq, hkept, ← List.map_append]
  exact (List.perm_append_comm.trans (List.filter_append_perm (isDue c) list)).map _

theorem requests_afterWait (s : DefferedState τ) (t1 : ℕ) :
    (afterWait s t1).requests.Perm s.requests := by
  unfold afterWait
  split
  · exact .refl _
  · have hpass := pass_perm (curWait s t1) s.defferedTasksList
    have hmoved : ((pass (curWait s t1) s.defferedTasksList).1.map fun r => (r, s.now)).map
        Prod.fst = (pass (curWait s t1) s.defferedTasksList).1 := by
      rw [List.map_map]
      exact List.map_id _
    simp only [DefferedState.requests, List.map_append, hmoved]
    refine .trans ?_ (hpass.append_right _)
    rw [List.append_assoc]
    exact List.perm_append_comm.append_left _

variable [DecidableEq τ]

/-- **A wakeup loses no request and doubles none.** -/
theorem requests_wake {order : List (DefferedTask (Request τ))} (h : wake s order = some s') :
    s'.requests.Perm s.requests := by
  obtain ⟨t1, -, ⟨-, rfl⟩ | ⟨hq, rfl⟩⟩ := wake_eq_some h
  · exact .refl _
  · obtain ⟨-, -, hlist, hmoved, -, -⟩ :=
      chooseNextWait_frame (afterWait { s with defferedTasksList := order } t1)
    rw [DefferedState.requests, hlist, hmoved]
    refine (requests_afterWait _ t1).trans ?_
    exact (hq.1.map _).append_right _

/-- What a step of the handler does to the requests. -/
theorem requests_of_step {a : DefferedAction τ} (ha : a ≠ .clear)
    (h : (defferedMachine τ).step s a = some s') :
    (∃ task ms, a = .enqueueTaskAfterTimeOut task ms ∧ s'.moved = s.moved ∧
      s'.defferedTasksList.map DefferedTask.taskToRun =
        s.defferedTasksList.map DefferedTask.taskToRun ++ [⟨task, s.now, ms⟩]) ∨
    ((∀ task ms, a ≠ .enqueueTaskAfterTimeOut task ms) ∧ s'.requests.Perm s.requests) := by
  rcases a with n | b | ⟨task, ms⟩ | _ | _ | _ | order
  · exact .inr ⟨by simp, Option.some.inj h ▸ .refl _⟩
  · exact .inr ⟨by simp, Option.some.inj h ▸ .refl _⟩
  · obtain ⟨-, h⟩ := Option.ite_none_left_eq_some.mp h
    obtain rfl := Option.some.inj h
    exact .inl ⟨task, ms, rfl, rfl, List.map_append⟩
  · exact absurd rfl ha
  · obtain ⟨-, h⟩ := Option.ite_none_right_eq_some.mp h
    exact .inr ⟨by simp, Option.some.inj h ▸ .refl _⟩
  · obtain ⟨-, h⟩ := Option.ite_none_right_eq_some.mp h
    exact .inr ⟨by simp, Option.some.inj h ▸ .refl _⟩
  · exact .inr ⟨by simp, requests_wake h⟩

end Deffered

/-! ## The working thread -/

section Thread

theorem lateRequests_perm {s s' : ThreadState τ} (hd : s'.delivered = s.delivered)
    (hle : s.delivered ≤ s.deffered.moved.length)
    (hmoved : s.deffered.moved <+: s'.deffered.moved)
    (h : s'.deffered.requests.Perm s.deffered.requests) :
    s'.lateRequests.Perm s.lateRequests := by
  have hsplit : ∀ t : ThreadState τ, t.deffered.requests.Perm
      ((t.deffered.moved.take t.delivered).map Prod.fst ++ t.lateRequests) := by
    intro t
    rw [DefferedState.requests, ThreadState.lateRequests]
    nth_rewrite 1 [← List.take_append_drop t.delivered t.deffered.moved]
    rw [List.map_append, ← List.append_assoc, ← List.append_assoc]
    exact List.perm_append_comm.append_right _
  have htake : s'.deffered.moved.take s'.delivered = s.deffered.moved.take s.delivered := by
    obtain ⟨rest, hrest⟩ := hmoved
    rw [← hrest, hd, List.take_append_of_le_length hle]
  have hboth := (hsplit s').symm.trans (h.trans (hsplit s))
  rw [htake] at hboth
  exact (List.perm_append_left_iff _).mp hboth

theorem ahead_subset_waiting {s : ThreadState τ} : s.ahead ⊆ s.waiting := by
  unfold ThreadState.ahead
  split
  · exact List.subset_append_left ..
  · exact fun _ hx => hx

/-- One request more is its task more, if it has one. -/
theorem late_of_requests {s t : ThreadState τ} {r : Request (Option τ)}
    (h : t.lateRequests.Perm (r :: s.lateRequests)) : t.late.Perm (r.task.toList ++ s.late) := by
  have hlate := (h.map Request.task).filterMap id
  rw [List.map_cons] at hlate
  rw [ThreadState.late, ThreadState.late]
  cases htask : r.task with
  | none => rwa [htask] at hlate
  | some x => rwa [htask] at hlate

/-- A delivery takes one task from the deferred ones. -/
theorem late_deliver {s s' : ThreadState τ} {r : Request (Option τ)} {t : ℕ}
    (hr : s.deffered.moved[s.delivered]? = some (r, t)) (hd : s'.delivered = s.delivered + 1)
    (hlist : s'.deffered.defferedTasksList = s.deffered.defferedTasksList)
    (hmoved : s'.deffered.moved = s.deffered.moved) :
    s.late.Perm (r.task.toList ++ s'.late) := by
  have hdrop : s.deffered.moved.drop s.delivered =
      (r, t) :: s.deffered.moved.drop (s.delivered + 1) := by
    obtain ⟨hlt, hget⟩ := List.getElem?_eq_some_iff.mp hr
    rw [← hget]
    exact List.drop_eq_getElem_cons hlt
  apply late_of_requests
  rw [ThreadState.lateRequests, ThreadState.lateRequests, hd, hlist, hmoved, hdrop]
  exact List.perm_middle

/-- `EnqueueTaskAfterTimeOut` adds one. -/
theorem late_append {s s' : ThreadState τ} {r : Request (Option τ)}
    (hd : s'.delivered = s.delivered) (hmoved : s'.deffered.moved = s.deffered.moved)
    (hlist : s'.deffered.defferedTasksList.map DefferedTask.taskToRun =
      s.deffered.defferedTasksList.map DefferedTask.taskToRun ++ [r]) :
    s'.late.Perm (r.task.toList ++ s.late) := by
  apply late_of_requests
  rw [ThreadState.lateRequests, ThreadState.lateRequests, hd, hmoved, hlist, List.append_assoc]
  exact List.perm_middle

/-- A step of the main queue takes the task out that it runs, or adds the
one enqueued. -/
theorem waiting_main {s : ThreadState τ} {b : Action τ} {m : State τ} (he : s.mainEnabled b = true)
    (hm : (queueMachine τ).step s.main b = some m) (hc : Control s.main) :
    (ThreadAction.taken (s.setMain m) (.main b) ++ m.waiting).Perm
      (ThreadAction.added (.main b) ++ s.main.waiting) := by
  rcases b with task | task | _ | _ | _
  · obtain rfl := Option.some.inj hm
    show (enqueueTask s.main task).waiting.Perm (task.toList ++ s.main.waiting)
    rw [waiting_enqueueTask]
    exact List.perm_append_comm
  · obtain rfl := Option.some.inj hm
    exact waiting_enqueueTaskFront task
  · cases he
  · cases he
  · exact .of_eq ((works_of_work hm).waiting hc)

variable [DecidableEq τ] {s s' : ThreadState τ} {a : ThreadAction τ}

/-- **Where the tasks go.** A step takes the task out that it runs, adds the
task enqueued, and only moves the others, but for the last step of `Stop`. -/
theorem Threads.waiting (h : Threads s a s') (hi : ThreadInv s)
    (hs : a = .control → ∀ d, s.control ≠ .stopClear d) :
    (a.taken s' ++ s'.waiting).Perm (a.added ++ s.waiting) := by
  cases h with
  | stopClear hc => exact absurd hc (hs rfl _)
  | stopPush _ hm =>
    show (State.waiting _ ++ s.late).Perm (s.main.waiting ++ s.late)
    rw [ThreadState.setMain_main, waiting_stopPush hm]
  | @deliver r t _ _ hr =>
    have hlate : s.late.Perm (r.task.toList ++ ThreadState.late
        { s.setMain (enqueueTask s.main r.task) with delivered := s.delivered + 1 }) :=
      late_deliver hr rfl rfl rfl
    show ((enqueueTask s.main r.task).waiting ++ _).Perm (s.main.waiting ++ s.late)
    rw [waiting_enqueueTask, List.append_assoc]
    exact hlate.symm.append_left _
  | @main b m _ he hm =>
    have hmain := (waiting_main he hm (inv_of_reachable hi.main).control).append_right s.late
    rwa [List.append_assoc, List.append_assoc] at hmain
  | @deffered b d _ he hd =>
    have hmoved := (handlerFrame_of_step (ne_store_of_enabled he) hd).moved
    obtain ⟨task, ms, rfl, hsame, hlist⟩ | ⟨hadded, hperm⟩ :=
      requests_of_step (by rintro rfl; cases he) hd
    · show (s.main.waiting ++ _).Perm (task.toList ++ (s.main.waiting ++ s.late))
      have hlate : (ThreadState.late { s with deffered := d }).Perm (task.toList ++ s.late) :=
        late_append (r := ⟨task, s.deffered.now, ms⟩) rfl hsame hlist
      refine (hlate.append_left s.main.waiting).trans ?_
      rw [← List.append_assoc, ← List.append_assoc]
      exact List.perm_append_comm.append_right _
    · have hrequests : (ThreadState.lateRequests { s with deffered := d }).Perm s.lateRequests :=
        lateRequests_perm rfl hi.delivered hmoved hperm
      have hnone : (ThreadAction.deffered b).added = [] := by
        rcases b with n | b | ⟨task, ms⟩ | _ | _ | _ | order
        case enqueueTaskAfterTimeOut => exact absurd rfl (hadded task ms)
        all_goals rfl
      rw [hnone]
      exact ((hrequests.map Request.task).filterMap id).append_left s.main.waiting
  | _ => exact .refl _

/-- The last step of `Stop` drops the tasks of the list. -/
theorem waiting_stopClear {d : Bool} (h : Threads s .control s') (hc : s.control = .stopClear d) :
    s'.waiting.Sublist s.waiting := by
  cases h with
  | stopClear =>
    refine List.Sublist.append_left (((List.Sublist.append_right ?_ _).map _).filterMap _) _
    exact List.nil_sublist _
  | stopPush hc' | makeWork hc' | makeDeffered hc' | joinWork hc' | joinDeffered hc' =>
    cases hc.symm.trans hc'
  | stopNoHandler | terminate => exact .refl _

/-- **No step makes a task** that was not enqueued. -/
theorem Threads.mem_waiting (h : Threads s a s') (hi : ThreadInv s) {x : τ}
    (hx : x ∈ a.taken s' ++ s'.waiting) : x ∈ a.added ++ s.waiting := by
  by_cases hs : a = .control ∧ ∃ d, s.control = .stopClear d
  · obtain ⟨rfl, d, hc⟩ := hs
    exact (waiting_stopClear h hc).subset hx
  · refine (h.waiting hi fun ha d hc => hs ⟨ha, d, hc⟩).subset hx

/-- A handler that has returned does not come back. -/
theorem Threads.handlerReturned (h : Threads s a s') (hret : s.deffered.pc = .returned) :
    s'.deffered.pc = .returned := by
  cases h with
  | deffered _ he hd => exact (handlerFrame_of_step (ne_store_of_enabled he) hd).ended hret
  | _ => exact hret

/-- **No step makes a task of the main queue** that it did not put there. -/
theorem Threads.mem_queued (h : Threads s a s') (hi : ThreadInv s) {x : τ}
    (hx : x ∈ a.taken s' ++ s'.main.waiting) : x ∈ a.queued s ++ s.main.waiting := by
  cases h with
  | @deliver r t _ _ hr =>
    have hqueued : ThreadAction.deliver.queued s = r.task.toList := by
      simp [ThreadAction.queued, hr]
    have hx : x ∈ (enqueueTask s.main r.task).waiting := hx
    rw [waiting_enqueueTask] at hx
    rw [hqueued]
    exact List.perm_append_comm.mem_iff.mp hx
  | stopPush _ hm =>
    rw [ThreadState.setMain_main, waiting_stopPush hm] at hx
    exact hx
  | @main b m _ he hm =>
    have hx := (waiting_main he hm (inv_of_reachable hi.main).control).mem_iff.mp hx
    cases b with
    | stop | stopPush => cases he
    | _ => exact hx
  | _ => exact hx

/-- A handler that has returned leaves the queue to the calls. -/
theorem Threads.mem_queue (h : Threads s a s') (hi : ThreadInv s)
    (hret : s.deffered.pc = .returned) {x : τ} (hx : x ∈ a.taken s' ++ s'.main.waiting) :
    x ∈ a.addedAhead s ++ s.main.waiting := by
  refine (List.mem_append.mp (h.mem_queued hi hx)).elim (fun hq => ?_) (List.mem_append_right _)
  cases h with
  | deliver _ _ hr =>
    have hdone := hi.settled (by simp [hret])
    exact absurd (List.getElem?_eq_some_iff.mp hr).1 (by omega)
  | @main b =>
    cases b with
    | enqueueTask | enqueueTaskFront => exact List.mem_append_left _ hq
    | _ => cases hq
  | _ => cases hq

/-- **A worker that has seen its queue empty** takes no task any more. -/
theorem Threads.drained (h : Threads s a s') (hd : s.main.pc.drained = true) :
    s'.main.pc.drained = true ∧ a.taken s' = [] := by
  cases h with
  | stopPush _ hm =>
    obtain ⟨-, hm⟩ := Option.ite_none_right_eq_some.mp hm
    exact Option.some.inj hm ▸ ⟨hd, rfl⟩
  | @main b m _ he hm =>
    rcases b with task | task | _ | _ | _
    · exact Option.some.inj hm ▸ ⟨hd, rfl⟩
    · exact Option.some.inj hm ▸ ⟨hd, rfl⟩
    · cases he
    · cases he
    · cases works_of_work hm with
      | finish => exact ⟨rfl, rfl⟩
      | skip hpc | start hpc | stay hpc | leave hpc | take hpc | endBatch hpc | front hpc
      | runBatch hpc | seeEmpty hpc | seeMore hpc | throw hpc | popNull hpc | popTask hpc
      | runPopped hpc =>
        rw [hpc] at hd
        cases hd
  | _ => exact ⟨hd, rfl⟩

/-- **No step makes a task ready** that was not waiting. -/
theorem Threads.mem_ahead (h : Threads s a s') (hi : ThreadInv s) {x : τ}
    (hx : x ∈ a.taken s' ++ s'.ahead) : x ∈ a.addedAhead s ++ s.ahead := by
  by_cases hret : s.deffered.pc = .returned
  · rw [ThreadState.ahead, if_pos (h.handlerReturned hret)] at hx
    rw [ThreadState.ahead, if_pos hret]
    exact h.mem_queue hi hret hx
  · have hadded : a.addedAhead s = a.added := by
      unfold ThreadAction.addedAhead
      split
      · exact if_neg hret
      · rfl
    rw [hadded, ThreadState.ahead, if_neg hret]
    refine h.mem_waiting hi ?_
    rcases List.mem_append.mp hx with hx | hx
    · exact List.mem_append_left _ hx
    · exact List.mem_append_right _ (ahead_subset_waiting hx)

end Thread

end Worker

end VerAI
