import VerAI.Client.KeepAlive
/-!
# The callbacks a client has ahead

Three of the tasks call back into the controller. A client has no callback
ahead when none of these can come to be run and the running body has none
left: this stays so for as long as the task lists it receives ask for none.
The tasks still deferred count only as long as there is a handler to deliver
them.
-/

namespace VerAI

namespace Client

open Worker (ThreadState ThreadAction ThreadInv threads_of_step addedAhead_subset_added)

/-- The task calls back. -/
def ClientTask.callsBack : ClientTask → Bool
  | .downloadTorrentTask => true
  | .createTorrentTask => true
  | .updateTorrentTask => true
  | .handshakeTask => false
  | .updateTasksTask => false

/-- The same of a task of a list. -/
def TaskType.callsBack (taskType : TaskType) : Bool := (createTask taskType).any (·.callsBack)

/-- A callback comes after the answer, or is added as a task. -/
def Call.callsBack : Call → Bool
  | .getTaskList => false
  | .updateTorrentStatus _ .polled rest => !rest.isEmpty
  | _ => true

/-- A callback is ahead in the body, or in a task it adds. `CreateTorrentTask`
adds its task to the deferred ones, which is nothing with the handler gone. -/
def Body.callsBack (handlerReturned : Bool) : Body → Bool
  | .getInfo c => c.callsBack
  | .call c _ => c.callsBack
  | .addTasks taskList => taskList.any (·.callsBack)
  | .generates tInfoList => !tInfoList.isEmpty || !handlerReturned
  | .generating _ rest => !rest.isEmpty || !handlerReturned
  | .downloads _ => true
  | .downloading _ _ => true
  | .rejected _ _ => true
  | .updates torrentList => !torrentList.isEmpty
  | _ => false

/-- The handler of the deferred tasks has returned. -/
def ClientState.handlerReturned (s : ClientState) : Bool := s.tasksWorker.deffered.pc = .returned

/-- **No callback is ahead.** -/
def CallbackFree (s : ClientState) : Prop :=
  (∀ task ∈ s.tasksWorker.ahead, task.callsBack = false) ∧
    s.body.callsBack s.handlerReturned = false

instance (s : ClientState) : Decidable (CallbackFree s) := inferInstanceAs (Decidable (_ ∧ _))

section Steps

variable {uuid : String} {s s' : ClientState} {a : ClientAction} {e : Event}
  {t : ThreadState ClientTask} {b : ThreadAction ClientTask}

theorem callsBack_mono {body : Body} {r r' : Bool} (h : body.callsBack r = false)
    (hr : r = true → r' = true) : body.callsBack r' = false := by
  cases body with
  | generates | generating =>
    simp only [Body.callsBack, Bool.or_eq_false_iff, Bool.not_eq_false'] at h ⊢
    exact ⟨h.1, hr h.2⟩
  | _ => exact h

/-- A step of the worker that adds no callback leaves none ahead. -/
theorem CallbackFree.ahead (hf : CallbackFree s) (hw : ThreadInv s.tasksWorker)
    (h : WorkerStep s b t)
    (hadd : ∀ task ∈ b.addedAhead s.tasksWorker, task.callsBack = false) :
    ∀ task ∈ b.taken t ++ t.ahead, task.callsBack = false := by
  intro task htask
  have hmem := (threads_of_step h).mem_ahead hw htask
  exact (List.mem_append.mp hmem).elim (hadd task) (hf.1 task)

theorem CallbackFree.worker (hf : CallbackFree s) (hw : ThreadInv s.tasksWorker)
    (h : WorkerStep s b s'.tasksWorker)
    (hadd : ∀ task ∈ b.addedAhead s.tasksWorker, task.callsBack = false)
    (hbody : s'.body.callsBack s.handlerReturned = false) : CallbackFree s' := by
  refine ⟨fun task htask => hf.ahead hw h hadd task (List.mem_append_right _ htask), ?_⟩
  refine callsBack_mono hbody fun hr => ?_
  simp only [ClientState.handlerReturned, decide_eq_true_eq] at hr ⊢
  exact (threads_of_step h).handlerReturned hr

theorem callsBack_answer {c : Call} {body : Body} {r : Bool} (h : c.answer e = some body)
    (hc : c.callsBack = false)
    (he : ∀ taskList, e = .tasks taskList → ∀ taskType ∈ taskList, taskType.callsBack = false) :
    body.callsBack r = false := by
  unfold Call.answer at h
  split at h
  case h_1 taskList =>
    obtain rfl := Option.some.inj h
    simpa [Body.callsBack] using he taskList rfl
  case h_6 =>
    obtain rfl := Option.some.inj h
    exact hc
  case h_7 => cases h
  all_goals cases hc

/-- **A body without a callback ahead** stays so, if the task list it is sent
asks for none. -/
theorem Bodies.callbackFree (h : Bodies uuid s e s') (hw : ThreadInv s.tasksWorker)
    (hf : CallbackFree s)
    (he : ∀ taskList, e = .tasks taskList → ∀ taskType ∈ taskList, taskType.callsBack = false) :
    CallbackFree s' := by
  obtain ⟨hahead, hbody⟩ := hf
  have hgoto : ∀ {body : Body}, body.callsBack s.handlerReturned = false →
      CallbackFree (s.goto body) := fun hb => ⟨hahead, hb⟩
  cases h with
  | accepted | refused => exact ⟨hahead, rfl⟩
  | handshakeFailed _ ht | tasksAdded _ ht =>
    refine CallbackFree.worker ⟨hahead, hbody⟩ hw ht (fun task htask => ?_) rfl
    obtain rfl := List.mem_singleton.mp (addedAhead_subset_added htask)
    rfl
  | accept _ _ ht =>
    refine CallbackFree.worker ⟨hahead, hbody⟩ hw ht (fun task htask => ?_) rfl
    obtain rfl := List.mem_singleton.mp htask
    rfl
  | runs | stopped | crash => exact hgoto rfl
  | getInfo hb =>
    rw [hb] at hbody
    exact hgoto hbody
  | call hb _ hans =>
    rw [hb] at hbody
    exact ⟨hahead, callsBack_answer hans hbody he⟩
  | @addTask taskType rest _ hb ht =>
    rw [hb] at hbody
    obtain ⟨hfirst, hrest⟩ : taskType.callsBack = false ∧ rest.any (·.callsBack) = false := by
      simpa [Body.callsBack] using hbody
    refine CallbackFree.worker ⟨hahead, hb ▸ hbody⟩ hw ht (fun task htask => ?_) hrest
    have htask : createTask taskType = some task := Option.mem_toList.mp htask
    simpa [TaskType.callsBack, htask] using hfirst
  | created hb =>
    rw [hb] at hbody
    exact hgoto hbody
  | generated hb ht =>
    -- the task is added for a handler that has returned
    have hret : s.handlerReturned = true := by
      simpa [hb, Body.callsBack] using hbody
    simp only [ClientState.handlerReturned, decide_eq_true_eq] at hret
    refine CallbackFree.worker ⟨hahead, hbody⟩ hw ht (fun task htask => ?_) rfl
    simp [ThreadAction.addedAhead, hret] at htask
  | generate hb | download hb | downloaded hb | downloadAsync hb | throws hb | rejected hb
  | update hb =>
    rw [hb] at hbody
    cases hbody
  | updated => exact hgoto rfl

/-- **A client without a callback ahead** stays so. -/
theorem Clients.callbackFree (h : Clients uuid s a s') (hw : ThreadInv s.tasksWorker)
    (hf : CallbackFree s)
    (he : ∀ taskList, a = .body (.tasks taskList) →
      ∀ taskType ∈ taskList, taskType.callsBack = false) : CallbackFree s' := by
  cases h with
  | setUpdateTaskListTime | startAgain | start | stopAgain | stop | stopped => exact hf
  | destroy _ ht | runWorker _ ht | stopWorker _ ht | control _ ht | deliver ht =>
    exact hf.worker hw ht (fun task htask => by cases htask) hf.2
  | deffered ha ht =>
    have hadd := added_of_isHandlerStep ha
    refine hf.worker hw ht (fun task htask => ?_) hf.2
    exact absurd (hadd ▸ addedAhead_subset_added htask) List.not_mem_nil
  | started _ _ ht =>
    refine hf.worker hw ht (fun task htask => ?_) hf.2
    obtain rfl := List.mem_singleton.mp htask
    rfl
  | @work t _ ht =>
    have hall := hf.ahead hw ht (fun task htask => by cases htask)
    refine ⟨fun task htask => hall task (List.mem_append_right _ htask), ?_⟩
    obtain ⟨-, hbody⟩ | ⟨task, hrun, hbody⟩ := running_cases t
    · rw [hbody]
      rfl
    · have hquiet := hall task (List.mem_append_left _ (by
        rw [ThreadAction.taken, hrun]
        exact List.mem_singleton_self _))
      rw [hbody]
      cases task with
      | handshakeTask | updateTasksTask => rfl
      | _ => cases hquiet
  | body hb => exact hb.callbackFree hw hf fun taskList htl => he taskList (htl ▸ rfl)

end Steps

end Client

end VerAI
