import VerAI.Client.Client
/-!
# How many tasks keep the client polling

`HandshakeTask` and `UpdateTasksTask` re-arm themselves or each other on every
branch, so the one task `Start` adds goes round for as long as the client
runs. The tasks of a task list go through the same `CreateTask`: each
`MAKE_HANDSHAKE` and each `UPDATE_TASK_LIST` the server sends starts a chain
of its own, which never ends. Between `Start` and `Stop` the chains are
counted exactly: one, and one more for each such task received.
-/

namespace VerAI

namespace Client

open Transition (System)
open Worker (ThreadState ThreadAction ThreadInv threads_of_step)

/-- The running task keeps the client polling and has not re-armed yet. -/
def Body.unarmed : Body → Bool
  | .handshake => true
  | .handshakeFailed => true
  | .accept _ => true
  | .testRun => true
  | .getInfo .getTaskList => true
  | .call .getTaskList _ => true
  | .addTasks _ => true
  | _ => false

/-- **The tasks that keep the client polling**: in the queue, in the batch,
deferred, or running and not yet re-armed. -/
def ClientState.keepAlives (s : ClientState) : ℕ :=
  s.tasksWorker.waiting.countP ClientTask.keepAlive + s.body.unarmed.toNat

/-- Neither `Stop` nor the destructor has been called. -/
def ClientState.unstopped (s : ClientState) : Bool := !s.stopBegun && s.pc ≠ .destroying

section Runs

variable {uuid : String} {s s' : ClientState} {a : ClientAction} {e : Event}
  {t : ThreadState ClientTask}

/-- The count, and what is known before `Start` has added its task. -/
structure KeepAliveInv (s : ClientState) : Prop where
  unarmed : s.armed = false → s.tasksWorker.waiting = [] ∧ s.body = .idle
  count : s.unstopped = true → s.keepAlives = s.armed.toNat + s.received

/-- A task runs only in a client that has been started. -/
theorem KeepAliveInv.armed (hi : KeepAliveInv s) (hb : s.body ≠ .idle) : s.armed = true := by
  by_contra harmed
  exact hb (hi.unarmed (Bool.eq_false_iff.mpr harmed)).2

/-- The count after tasks were added and the body has moved on. -/
theorem keepAlives_of_added {added : List ClientTask} {n n' : ℕ}
    (h : s'.tasksWorker.waiting.Perm (added ++ s.tasksWorker.waiting))
    (hn : added.countP ClientTask.keepAlive + s'.body.unarmed.toNat + n =
      s.body.unarmed.toNat + n') : s'.keepAlives + n = s.keepAlives + n' := by
  rw [ClientState.keepAlives, ClientState.keepAlives, h.countP_eq, List.countP_append]
  omega

theorem keepAlives_of_body (ht : s'.tasksWorker = s.tasksWorker)
    (hb : s'.body.unarmed = s.body.unarmed) : s'.keepAlives = s.keepAlives := by
  rw [ClientState.keepAlives, ClientState.keepAlives, ht, hb]

theorem unarmed_answer {c : Call} {info : DaemonInfo} {body : Body} (h : c.answer e = some body) :
    body.unarmed = (Body.call c info).unarmed := by
  unfold Call.answer at h
  split at h
  case h_7 => cases h
  all_goals exact Option.some.inj h ▸ rfl

/-- **A body hands the chain on**, and a task of a list may add one. -/
theorem Bodies.keepAlives (h : Bodies uuid s e s') (hw : ThreadInv s.tasksWorker)
    (hc : ControlInv s) (hi : KeepAliveInv s) (hs : s.unstopped = true) :
    s'.keepAlives + s.received = s.keepAlives + s'.received := by
  have hbegun : s.stopBegun = false := by
    simp only [ClientState.unstopped, Bool.and_eq_true, Bool.not_eq_true'] at hs
    exact hs.1
  have hpolls : s.body ≠ .idle → s.isRun = true ∧ s.stub = true :=
    fun hb => hc.polls (hi.armed hb) hbegun
  cases h with
  | handshakeFailed hb ht | tasksAdded hb ht | generated hb ht =>
    refine keepAlives_of_added (waiting_enqueueTaskAfterTimeOut hw ht) ?_
    simp [hb, Body.unarmed, ClientTask.keepAlive]
  | accept hb _ ht | downloaded hb ht =>
    refine keepAlives_of_added (waiting_enqueueTask hw ht) ?_
    simp [hb, Body.unarmed, ClientTask.keepAlive]
  | @addTask taskType _ _ hb ht =>
    refine keepAlives_of_added (waiting_enqueueTask hw ht) ?_
    have hcount : (createTask taskType).toList.countP ClientTask.keepAlive =
        taskType.keepAlive.toNat := by
      cases taskType <;> rfl
    rw [hcount, hb]
    simp only [Body.unarmed]
    omega
  | stopped hb _ hrun =>
    exact absurd (hrun.symm.trans (hpolls (by simp [hb])).1) (by decide)
  | crash hb hstub =>
    have hbusy : s.body ≠ .idle := by
      obtain hb | ⟨c, info, hb⟩ := hb <;> simp [hb]
    exact absurd (hstub.symm.trans (hpolls hbusy).2) (by decide)
  | call hb _ hans =>
    have hsame := (unarmed_answer hans).trans (congrArg Body.unarmed hb).symm
    exact congrArg (· + s.received) (keepAlives_of_body rfl hsame)
  | @getInfo c hb =>
    have hsame : (Body.call c s.clientInfo).unarmed = s.body.unarmed := by
      rw [hb]
      cases c <;> rfl
    exact congrArg (· + s.received) (keepAlives_of_body rfl hsame)
  | accepted hb | refused hb | runs hb | generate hb | created hb | download hb | downloadAsync hb
  | throws hb | rejected hb | update hb | updated hb =>
    refine congrArg (· + s.received) (keepAlives_of_body rfl ?_)
    simp [hb, Body.unarmed, ClientState.goto]

/-- The steps of the worker that neither add a task nor take one out. -/
theorem waiting_kept {b : ThreadAction ClientTask} (hw : ThreadInv s.tasksWorker)
    (h : WorkerStep s b t) (hs : s.tasksWorker.stopCalled = false) (hadd : b.added = [])
    (htake : b.taken t = []) : t.waiting.Perm s.tasksWorker.waiting := by
  have hperm := (threads_of_step h).waiting hw fun _ d hc => by
    have hcalled := hw.stopping (by rw [hc]; rfl)
    exact absurd (hcalled.symm.trans hs) (by decide)
  rwa [hadd, htake] at hperm

theorem waiting_eq_nil {b : ThreadAction ClientTask} (hw : ThreadInv s.tasksWorker)
    (h : WorkerStep s b t) (hadd : b.added = []) (hs : s.tasksWorker.waiting = []) :
    b.taken t = [] ∧ t.waiting = [] := by
  have hnone : ∀ x, x ∉ b.taken t ++ t.waiting := by
    intro x hx
    have := (threads_of_step h).mem_waiting hw hx
    rw [hadd, hs] at this
    exact absurd this List.not_mem_nil
  exact List.append_eq_nil_iff.mp (List.eq_nil_iff_forall_not_mem.mpr hnone)

theorem Bodies.busy (h : Bodies uuid s e s') : s.body ≠ .idle := by
  cases h with
  | crash hb =>
    obtain hb | ⟨c, info, hb⟩ := hb
    · simp [hb]
    · simp [hb]
  | accepted hb | refused hb | handshakeFailed hb | accept hb | runs hb | stopped hb | getInfo hb
  | call hb | addTask hb | tasksAdded hb | generate hb | generated hb | created hb | download hb
  | downloaded hb | downloadAsync hb | throws hb | rejected hb | update hb | updated hb =>
    simp [hb]

/-- Before `Start` has added its task there is none. -/
theorem KeepAliveInv.unarmed_step (hw : ThreadInv s.tasksWorker) (hi : KeepAliveInv s)
    (h : Clients uuid s a s') (harmed : s'.armed = false) :
    s'.tasksWorker.waiting = [] ∧ s'.body = .idle := by
  cases h with
  | setUpdateTaskListTime | startAgain | start | stopAgain | stop | stopped =>
    exact hi.unarmed harmed
  | started => cases harmed
  | destroy _ ht | runWorker _ ht | stopWorker _ ht | control _ ht | deliver ht =>
    obtain ⟨hwait, hbody⟩ := hi.unarmed harmed
    exact ⟨(waiting_eq_nil hw ht rfl hwait).2, hbody⟩
  | deffered ha ht =>
    obtain ⟨hwait, hbody⟩ := hi.unarmed harmed
    exact ⟨(waiting_eq_nil hw ht (added_of_isHandlerStep ha) hwait).2, hbody⟩
  | @work t _ ht =>
    obtain ⟨hrun, hwait⟩ := waiting_eq_nil hw ht rfl (hi.unarmed harmed).1
    refine ⟨hwait, ?_⟩
    obtain ⟨-, hnone⟩ | ⟨task, hone, -⟩ := running_cases t
    · exact hnone
    · cases hone.symm.trans hrun
  | body hb =>
    have hup := hi.armed hb.busy
    rw [← hb.control.2.2.2.1] at hup
    exact absurd (hup.symm.trans harmed) (by decide)

theorem unstopped_iff : s.unstopped = true ↔ s.stopBegun = false ∧ s.pc ≠ .destroying := by
  simp [ClientState.unstopped]

/-- A client not stopped yet was not stopped before. -/
theorem Clients.unstopped (h : Clients uuid s a s') (hs : s'.unstopped = true) :
    s.unstopped = true := by
  rw [unstopped_iff] at hs ⊢
  refine ⟨h.stopBegun hs.1, fun hpc' => ?_⟩
  cases h with
  | start hpc | startAgain hpc | stop hpc | stopAgain hpc | destroy hpc | runWorker hpc
  | started hpc | stopWorker hpc | stopped hpc => exact absurd (hpc.symm.trans hpc') (by decide)
  | body hb => exact hs.2 (hb.control.1.trans hpc')
  | setUpdateTaskListTime | control | work | deliver | deffered => exact hs.2 hpc'

theorem KeepAliveInv.count_step (hw : ThreadInv s.tasksWorker) (hc : ControlInv s)
    (hi : KeepAliveInv s) (h : Clients uuid s a s') (hs : s'.unstopped = true) :
    s'.keepAlives = s'.armed.toNat + s'.received := by
  have hbefore := h.unstopped hs
  have hcount := hi.count hbefore
  obtain ⟨hbegun, hpc'⟩ := unstopped_iff.mp hbefore
  have hcalled : s.tasksWorker.stopCalled = false := by
    by_contra hnot
    obtain hb | hd := hc.stopped (by simpa using hnot)
    · exact absurd (hb.symm.trans hbegun) (by decide)
    · exact hpc' hd
  have hkept : ∀ {t : ThreadState ClientTask}, t.waiting.Perm s.tasksWorker.waiting →
      s'.tasksWorker = t → s'.body = s.body → s'.keepAlives = s.keepAlives := by
    intro t hperm ht hb
    rw [ClientState.keepAlives, ClientState.keepAlives, ht, hb, hperm.countP_eq]
  cases h with
  | setUpdateTaskListTime | startAgain | start | stopAgain | stop | stopped => exact hcount
  | destroy => exact absurd rfl (unstopped_iff.mp hs).2
  | stopWorker hpc =>
    exact absurd ((hc.stopping (.inl hpc)).symm.trans hbegun) (by decide)
  | runWorker _ ht | control _ ht | deliver ht =>
    exact (hkept (waiting_kept hw ht hcalled rfl rfl) rfl rfl).trans hcount
  | deffered ha ht =>
    exact (hkept (waiting_kept hw ht hcalled (added_of_isHandlerStep ha) rfl) rfl rfl).trans hcount
  | @started t hpc _ ht =>
    have harmed := (hc.starting (.inr hpc)).2.resolve_right (by simp [hbegun])
    have hone : ClientState.keepAlives
        { s with tasksWorker := t, isRun := true, pc := .idle, armed := true } + 0 =
        s.keepAlives + 1 := by
      refine keepAlives_of_added (waiting_enqueueTask hw ht) ?_
      simp [ClientTask.keepAlive, Nat.add_comm]
    rw [harmed] at hcount
    rw [← Nat.add_zero (ClientState.keepAlives _), hone, hcount]
    show 0 + s.received + 1 = 1 + s.received
    omega
  | @work t hrest ht =>
    -- what `Work` takes out is counted where it starts
    have hperm := (waiting_work hw ht).countP_eq ClientTask.keepAlive
    rw [List.countP_append] at hperm
    have hidle : s.body.unarmed = false := by
      cases hb : s.body <;> simp [hb, Body.resting, Body.unarmed] at hrest ⊢
    have hentered : (ClientState.entered t).unarmed.toNat =
        t.running.countP ClientTask.keepAlive := by
      obtain ⟨hrun, hbody⟩ | ⟨task, hrun, hbody⟩ := running_cases t
      · rw [hrun, hbody]
        rfl
      · rw [hrun, hbody]
        cases task <;> rfl
    rw [← hcount, ClientState.keepAlives, ClientState.keepAlives, hidle, hentered, ← hperm]
    exact Nat.add_comm ..
  | body hb =>
    have hchain := hb.keepAlives hw hc hi hbefore
    rw [hb.control.2.2.2.1]
    omega

/-- **What a step keeps.** -/
theorem KeepAliveInv.step (hw : ThreadInv s.tasksWorker) (hc : ControlInv s) (hi : KeepAliveInv s)
    (h : Clients uuid s a s') : KeepAliveInv s' where
  unarmed := hi.unarmed_step hw h
  count := hi.count_step hw hc h

theorem keepAlive_of_reachable (h : (clientMachine uuid).Reachable s) : KeepAliveInv s := by
  induction h with
  | init hs => exact hs ▸ ⟨fun _ => ⟨rfl, rfl⟩, fun _ => rfl⟩
  | step hreach _ hstep ih =>
    exact ih.step (Worker.threadInv_of_reachable (worker_of_reachable hreach))
      (control_of_reachable hreach) (clients_of_step hstep)

/-- **How many tasks keep the client polling.** In every run, from the moment
`Start` has added its task until `Stop` or the destructor is called: that
task, and one for each `MAKE_HANDSHAKE` and `UPDATE_TASK_LIST` of the task
lists received. -/
theorem keepAlives_eq (h : (clientMachine uuid).Reachable s) (harmed : s.armed = true)
    (hs : s.unstopped = true) : s.keepAlives = 1 + s.received := by
  rw [(keepAlive_of_reachable h).count hs, harmed]
  rfl

theorem pollOnce_keepAlives : ∃ s, (clientMachine "a").Reachable s ∧ s.received = 0 ∧
    s.keepAlives = 1 + s.received := by
  have hrun : ((clientMachine "a").exec .new (pollOnce [])).map
      (fun s => (s.armed, s.unstopped, s.received)) = some (true, true, 0) := by decide
  obtain ⟨s, hs, hview⟩ := Option.map_eq_some_iff.mp hrun
  simp only [Prod.mk.injEq] at hview
  obtain ⟨harmed, hopen, hreceived⟩ := hview
  have hreach : (clientMachine "a").Reachable s := System.reachable_of_exec _ rfl hs
  exact ⟨s, hreach, hreceived, keepAlives_eq hreach harmed hopen⟩

/-- **A task list that asks for task lists** leaves the client with two chains. -/
theorem pollTwice_keepAlives :
    ¬ ∀ s, (clientMachine "a").Reachable s → s.armed = true → s.unstopped = true →
      s.keepAlives = 1 := by
  intro h
  have hrun : ((clientMachine "a").exec .new (pollOnce [.updateTaskList] ++ [.body .next])).map
      (fun s => (s.armed, s.unstopped, s.keepAlives)) = some (true, true, 2) := by decide
  obtain ⟨s, hs, hview⟩ := Option.map_eq_some_iff.mp hrun
  simp only [Prod.mk.injEq] at hview
  obtain ⟨harmed, hopen, htwo⟩ := hview
  have hone := h s (System.reachable_of_exec _ rfl hs) harmed hopen
  omega

end Runs

end Client

end VerAI
