import VerAI.Client.Client
/-!
# The stub of the client

`Stop` resets `stub` as soon as `tasksWorker.Stop()` has returned, and the
worker then drains its queue. `UpdateTasksTask` tests `IsRun` first; the other
four tasks, and an `UpdateTasksTask` past its test, go on to a call through
`stub`. So the reset is safe only where nothing that can still come to be run
uses it: not the rest of the running body, not a task in the batch or the
queue, not a deferred task that is delivered while the worker drains.
-/

namespace VerAI

namespace Client

open Transition (System)
open Worker (ThreadState ThreadAction ThreadInv threads_of_step)

/-- The task goes on to a call through `stub`, run by a client that was
stopped. -/
def ClientTask.usesStub : ClientTask → Bool
  | .updateTasksTask => false
  | _ => true

/-- The same of a task of a list. -/
def TaskType.usesStub (taskType : TaskType) : Bool := (createTask taskType).any (·.usesStub)

/-- The body comes to a call through `stub`, or puts such a task into the main
queue. -/
def Body.usesStub : Body → Bool
  | .handshake => true
  | .getInfo _ => true
  | .call _ _ => true
  | .addTasks taskList => taskList.any (·.usesStub)
  | .downloads _ => true
  | .downloading _ _ => true
  | .rejected _ _ => true
  | .updates torrentList => !torrentList.isEmpty
  | _ => false

/-- The body stands at a call through `stub`. -/
def Body.atStub : Body → Bool
  | .handshake => true
  | .call _ _ => true
  | _ => false

/-- The worker has not yet seen its queue empty after the main loop. -/
def ClientState.draws (s : ClientState) : Bool := !s.tasksWorker.main.pc.drained

/-- **Nothing uses the stub** of what the worker still has to run. -/
def StubUnused (s : ClientState) : Prop :=
  s.body.usesStub = false ∧
    (s.draws = true → ∀ task ∈ s.tasksWorker.main.waiting, task.usesStub = false)

instance (s : ClientState) : Decidable (StubUnused s) := inferInstanceAs (Decidable (_ ∧ (_ → _)))

/-- `stub` is reset where nothing uses it, and no deferred task that does is
delivered after that to a worker that runs it. -/
def StopsUnused (s : ClientState) : ClientAction → Prop
  | .control => s.pc = .stopping → s.tasksWorker.control = .idle → StubUnused s
  | .deliver => s.stub = false → s.draws = true →
      ∀ task ∈ ThreadAction.deliver.queued s.tasksWorker, task.usesStub = false
  | _ => True

instance (s : ClientState) (a : ClientAction) : Decidable (StopsUnused s a) := by
  unfold StopsUnused
  split <;> infer_instance

/-- The invariant of the runs that stop so. -/
structure StubInv (s : ClientState) : Prop where
  isRun : s.isRun = true → s.stub = true
  /-- `Stop` has cleared the flag before it resets the stub. -/
  stopping : s.pc = .stopWorker ∨ s.pc = .stopping → s.isRun = false ∧ s.stub = true
  unused : s.stub = false → StubUnused s
  alive : s.body ≠ .crashed

section Steps

variable {uuid : String} {s s' : ClientState} {a : ClientAction} {e : Event}
  {t : ThreadState ClientTask} {b : ThreadAction ClientTask}

theorem usesStub_of_atStub {body : Body} (h : body.usesStub = false) : body.atStub = false := by
  cases body with
  | handshake | call => cases h
  | _ => rfl

/-- A step of the worker that queues no use leaves none. -/
theorem StubUnused.waiting (hf : StubUnused s) (hw : ThreadInv s.tasksWorker)
    (h : WorkerStep s b t)
    (hadd : s.draws = true → ∀ task ∈ b.queued s.tasksWorker, task.usesStub = false) :
    (t.main.pc.drained = false → ∀ task ∈ t.main.waiting, task.usesStub = false) ∧
      ∀ task ∈ b.taken t, task.usesStub = false := by
  by_cases hd : s.tasksWorker.main.pc.drained = true
  · obtain ⟨hd', htaken⟩ := (threads_of_step h).drained hd
    exact ⟨fun hnot => absurd (hd'.symm.trans hnot) (by decide), by simp [htaken]⟩
  · have hdraws : s.draws = true := by simpa [ClientState.draws] using hd
    have hall : ∀ task ∈ b.taken t ++ t.main.waiting, task.usesStub = false := by
      intro task htask
      rcases List.mem_append.mp ((threads_of_step h).mem_queued hw htask) with hq | hold
      · exact hadd hdraws task hq
      · exact hf.2 hdraws task hold
    exact ⟨fun _ task htask => hall task (List.mem_append_right _ htask),
      fun task htask => hall task (List.mem_append_left _ htask)⟩

theorem StubUnused.worker (hf : StubUnused s) (hw : ThreadInv s.tasksWorker)
    (h : WorkerStep s b s'.tasksWorker) (hbody : s'.body.usesStub = false)
    (hadd : s.draws = true → ∀ task ∈ b.queued s.tasksWorker, task.usesStub = false) :
    StubUnused s' := by
  refine ⟨hbody, fun hdraws => (hf.waiting hw h hadd).1 ?_⟩
  simpa [ClientState.draws] using hdraws

/-- **A body without a use of the stub** stays so, in a client that was
stopped. -/
theorem Bodies.stubUnused (h : Bodies uuid s e s') (hw : ThreadInv s.tasksWorker)
    (hrun : s.isRun = false) (hf : StubUnused s) : StubUnused s' := by
  obtain ⟨hbody, hwait⟩ := hf
  have hused : ∀ {body : Body}, s.body = body → body.usesStub = false := fun hb => hb ▸ hbody
  cases h with
  | accepted hb | refused hb | getInfo hb | call hb | download hb | downloaded hb
  | downloadAsync hb | throws hb | rejected hb | update hb =>
    have := hused hb
    cases this
  | crash hb =>
    obtain hb | ⟨c, info, hb⟩ := hb
    · have := hused hb
      cases this
    · have := hused hb
      cases this
  | runs _ _ hup => exact absurd (hrun.symm.trans hup) (by decide)
  | stopped | generate | created | updated => exact ⟨rfl, hwait⟩
  | handshakeFailed _ ht | tasksAdded _ ht | generated _ ht =>
    exact StubUnused.worker ⟨hbody, hwait⟩ hw ht rfl fun _ task htask => by cases htask
  | accept _ _ ht =>
    refine StubUnused.worker ⟨hbody, hwait⟩ hw ht rfl fun _ task htask => ?_
    obtain rfl := List.mem_singleton.mp htask
    rfl
  | @addTask taskType rest _ hb ht =>
    obtain ⟨hfirst, hrest⟩ : taskType.usesStub = false ∧ rest.any (·.usesStub) = false := by
      simpa [Body.usesStub] using hused hb
    refine StubUnused.worker ⟨hbody, hwait⟩ hw ht hrest fun _ task htask => ?_
    have htask : createTask taskType = some task := Option.mem_toList.mp htask
    simpa [TaskType.usesStub, htask] using hfirst

/-- A body crashes only at a call through the stub. -/
theorem Bodies.crashed (h : Bodies uuid s e s') (hs : s'.body = .crashed) :
    s.body.usesStub = true ∧ s.stub = false := by
  cases h with
  | crash hb hstub =>
    obtain hb | ⟨c, info, hb⟩ := hb
    · exact ⟨hb ▸ rfl, hstub⟩
    · exact ⟨hb ▸ rfl, hstub⟩
  | refused | accepted | handshakeFailed | accept | runs | stopped | getInfo | addTask
  | tasksAdded | generate | generated | created | download | downloaded | downloadAsync | throws
  | rejected | update | updated => cases hs
  | call _ _ hans =>
    obtain rfl : _ = Body.crashed := hs
    unfold Call.answer at hans
    split at hans <;> cases hans

theorem entered_ne_crashed (t : ThreadState ClientTask) : ClientState.entered t ≠ .crashed := by
  obtain ⟨-, hbody⟩ | ⟨task, -, hbody⟩ := running_cases t
  · rw [hbody]
    decide
  · rw [hbody]
    cases task <;> decide

/-- **What a step keeps** that resets the stub where nothing uses it. -/
theorem StubInv.step (hi : StubInv s) (hw : ThreadInv s.tasksWorker) (hc : ControlInv s)
    (hq : StopsUnused s a) (h : Clients uuid s a s') : StubInv s' := by
  have hdown : s.stub = false → s.isRun = false := fun hs =>
    Bool.eq_false_iff.mpr fun hr => Bool.eq_false_iff.mp hs (hi.isRun hr)
  have hset : ∀ {P : Prop}, s.stub = true → s.stub = false → P := fun ht hs =>
    absurd (hs.symm.trans ht) (by decide)
  cases h with
  | setUpdateTaskListTime | startAgain | stopAgain =>
    exact ⟨hi.isRun, hi.stopping, hi.unused, hi.alive⟩
  | start => exact ⟨fun _ => rfl, nofun, nofun, hi.alive⟩
  | stop _ hup => exact ⟨nofun, fun _ => ⟨rfl, hi.isRun hup⟩, hi.unused, hi.alive⟩
  | destroy _ ht =>
    refine ⟨hi.isRun, nofun, fun hs => ?_, hi.alive⟩
    exact (hi.unused hs).worker hw ht (hi.unused hs).1 fun _ task htask => by cases htask
  | runWorker hpc =>
    have hstub := (hc.starting (.inl hpc)).1
    exact ⟨fun _ => hstub, nofun, fun hs => hset hstub hs, hi.alive⟩
  | started hpc =>
    have hstub := (hc.starting (.inr hpc)).1
    exact ⟨fun _ => hstub, nofun, fun hs => hset hstub hs, hi.alive⟩
  | stopWorker hpc =>
    obtain ⟨hoff, hstub⟩ := hi.stopping (.inl hpc)
    exact ⟨fun _ => hstub, fun _ => ⟨hoff, hstub⟩, fun hs => hset hstub hs, hi.alive⟩
  | stopped hpc hidle =>
    have hoff := (hi.stopping (.inr hpc)).1
    exact ⟨fun hr => absurd (hoff.symm.trans hr) (by decide), nofun, fun _ => hq hpc hidle,
      hi.alive⟩
  | control _ ht | deffered _ ht =>
    refine ⟨hi.isRun, hi.stopping, fun hs => ?_, hi.alive⟩
    exact (hi.unused hs).worker hw ht (hi.unused hs).1 fun _ task htask => by cases htask
  | deliver ht =>
    refine ⟨hi.isRun, hi.stopping, fun hs => ?_, hi.alive⟩
    exact (hi.unused hs).worker hw ht (hi.unused hs).1 (hq hs)
  | @work t _ ht =>
    refine ⟨hi.isRun, hi.stopping, fun hs => ?_, entered_ne_crashed t⟩
    obtain ⟨hwait, htaken⟩ := (hi.unused hs).waiting hw ht fun _ task htask => by cases htask
    refine ⟨?_, fun hdraws => hwait (by simpa [ClientState.draws] using hdraws)⟩
    obtain ⟨-, hbody⟩ | ⟨task, hrun, hbody⟩ := running_cases t
    · rw [hbody]
      rfl
    · have hquiet := htaken task (by simp [ThreadAction.taken, hrun])
      rw [hbody]
      cases task with
      | updateTasksTask => rfl
      | _ => cases hquiet
  | body hb =>
    obtain ⟨hpc, hrun, hstub, -⟩ := hb.control
    refine ⟨by rw [hrun, hstub]; exact hi.isRun, by rw [hpc, hrun, hstub]; exact hi.stopping,
      fun hs => ?_, fun hcrash => ?_⟩
    · rw [hstub] at hs
      exact hb.stubUnused hw (hdown hs) (hi.unused hs)
    · obtain ⟨huse, hs⟩ := hb.crashed hcrash
      exact absurd ((hi.unused hs).1.symm.trans huse) (by decide)

/-- **The invariant holds in the runs that stop so.** -/
theorem stubInv_of_reachable (h : (clientMachine uuid).ReachableUnder StopsUnused s) :
    (clientMachine uuid).Reachable s ∧ StubInv s := by
  induction h with
  | init hs => exact ⟨.init hs, hs ▸ ⟨nofun, nofun, fun _ => ⟨rfl, fun _ => nofun⟩, nofun⟩⟩
  | step _ hq hstep ih =>
    obtain ⟨hreach, hi⟩ := ih
    exact ⟨hreach.next hstep, hi.step (Worker.threadInv_of_reachable (worker_of_reachable hreach))
      (control_of_reachable hreach) hq (clients_of_step hstep)⟩

/-- **When stopping leaves no task without a stub.** In every run in which
the stub is reset where nothing the worker has still to run uses it, every
call through the stub finds it set, and none has found it null. -/
theorem stub_set (h : (clientMachine uuid).ReachableUnder StopsUnused s) :
    (s.body.atStub = true → s.stub = true) ∧ s.body ≠ .crashed := by
  obtain ⟨-, hi⟩ := stubInv_of_reachable h
  refine ⟨fun hat => ?_, hi.alive⟩
  by_contra hs
  rw [Bool.not_eq_true] at hs
  exact absurd ((usesStub_of_atStub (hi.unused hs).1).symm.trans hat) (by decide)

/-- `Stop` while the client waits to poll again. -/
def stopAtRest : List ClientAction :=
  pollOnce [] ++ [.body .next, .stop, .control, .control, .control, .control, .work]

theorem stopAtRest_set :
    ∃ s, (clientMachine "a").ReachableUnder StopsUnused s ∧ s.stub = false ∧
      (s.body.atStub = true → s.stub = true) ∧ s.body ≠ .crashed := by
  have hrun : (((clientMachine "a").restrict StopsUnused).exec .new stopAtRest).map
      ClientState.stub = some false := by decide
  obtain ⟨s, hs, hstub⟩ := Option.map_eq_some_iff.mp hrun
  have hreach : (clientMachine "a").ReachableUnder StopsUnused s :=
    System.reachableUnder_of_exec _ rfl hs
  exact ⟨s, hreach, hstub, stub_set hreach⟩

/-- `Stop` with a download in the queue. -/
def stopBeforeDownload : List ClientAction :=
  pollOnce [.downloadTorrent] ++ [.body .next, .stop, .control, .control, .control, .control,
    .body .next, .work, .work, .work, .work, .work, .body .next, .body .next]

/-- **A task of the drained queue** finds the stub null. -/
theorem stopBeforeDownload_crashed :
    ¬ ∀ s, (clientMachine "a").Reachable s → s.body ≠ .crashed := by
  intro h
  have hrun : ((clientMachine "a").exec .new stopBeforeDownload).map ClientState.body =
      some .crashed := by decide
  obtain ⟨s, hs, hbody⟩ := Option.map_eq_some_iff.mp hrun
  exact h s (System.reachable_of_exec _ rfl hs) hbody

end Steps

end Client

end VerAI
