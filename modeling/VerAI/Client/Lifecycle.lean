import VerAI.Worker.Joins
import VerAI.Client.Client
/-!
# Starting and stopping a client

`Start` and `Stop` keep a flag of their own, `isRun`, beside the worker's.
`Stop` clears it, so the next `Start` calls `tasksWorker.Run()` again, whose
threads are still joinable; and a client never started is destroyed with a
worker that has none. The threads of the worker are used well where `Run` is
reached with its flag up or for the first time, and the client is destroyed
after that.
-/

namespace VerAI

namespace Client

open Transition (System)
open Worker (ThreadState threadMachine RunsFresh)

universe u

/-- `tasksWorker` is run where it returns at once or was never run, and
destroyed where it was. -/
def StartsFresh (s : ClientState) : ClientAction → Prop
  | .control => s.pc = .runWorker → RunsFresh s.tasksWorker .run
  | .destroy => RunsFresh s.tasksWorker .destroy
  | _ => True

instance (s : ClientState) (a : ClientAction) : Decidable (StartsFresh s a) := by
  unfold StartsFresh
  split <;> infer_instance

section Steps

variable {uuid : String} {s s' : ClientState} {a : ClientAction} {e : Event}

/-- A body steps its worker by enqueuing alone. -/
theorem Bodies.worker_step (h : Bodies uuid s e s') : s'.tasksWorker = s.tasksWorker ∨
    ∃ b, RunsFresh s.tasksWorker b ∧ WorkerStep s b s'.tasksWorker := by
  cases h with
  | handshakeFailed _ ht | accept _ _ ht | addTask _ ht | tasksAdded _ ht | generated _ ht
  | downloaded _ ht => exact .inr ⟨_, by exact trivial, ht⟩
  | _ => exact .inl rfl

/-- **The client uses the threads of its worker** as well as it starts it. -/
theorem Clients.worker_step (h : Clients uuid s a s') (hc : StartsFresh s a) :
    s'.tasksWorker = s.tasksWorker ∨
      ∃ b, RunsFresh s.tasksWorker b ∧ WorkerStep s b s'.tasksWorker := by
  cases h with
  | destroy _ ht => exact .inr ⟨.destroy, hc, ht⟩
  | runWorker hpc ht => exact .inr ⟨.run, hc hpc, ht⟩
  | started _ _ ht | stopWorker _ ht | control _ ht | work _ ht | deliver ht | deffered _ ht =>
    exact .inr ⟨_, by exact trivial, ht⟩
  | body hb => exact hb.worker_step
  | _ => exact .inl rfl

theorem worker_of_reachableUnder (h : (clientMachine uuid).ReachableUnder StartsFresh s) :
    (threadMachine ClientTask).ReachableUnder RunsFresh s.tasksWorker := by
  refine h.invariant
    (I := fun s => (threadMachine ClientTask).ReachableUnder RunsFresh s.tasksWorker)
    (fun s hs => hs ▸ .init rfl) fun s a s' hi hc hstep => ?_
  obtain heq | ⟨b, hb, ht⟩ := (clients_of_step hstep).worker_step hc
  · rw [heq]
    exact hi
  · exact .step hi hb ht

/-- The destructor is that of the worker. -/
theorem exec_destroying {n : ℕ} {t : ThreadState ClientTask} (hpc : s.pc = .destroying)
    (hb : s.body ≠ .crashed)
    (h : (threadMachine ClientTask).exec s.tasksWorker (List.replicate n .control) = some t) :
    (clientMachine uuid).exec s (List.replicate n .control) = some { s with tasksWorker := t } := by
  induction n generalizing s with
  | zero => exact congrArg (fun t => some { s with tasksWorker := t }) (Option.some.inj h)
  | succ n ih =>
    rw [List.replicate_succ, System.exec_cons] at h ⊢
    obtain ⟨r, hr, hrest⟩ := Option.bind_eq_some_iff.mp h
    have halive : s.alive = true := by
      have hctl : s.tasksWorker.control ≠ .terminated := by
        intro hctl
        have hnone : (threadMachine ClientTask).step s.tasksWorker .control = none := by
          simp [threadMachine, ThreadState.controlStep, hctl]
        exact absurd (hnone.symm.trans hr) (by simp)
      simp [ClientState.alive, hb, hctl]
    have hstep : (clientMachine uuid).step s .control = some { s with tasksWorker := r } := by
      simp [clientMachine, clientStep, halive, ClientState.controlStep, hpc, ClientState.onWorker,
        hr]
    rw [hstep, Option.bind_some]
    exact ih (s := { s with tasksWorker := r }) hpc hb hrest

/-- A process that takes a step has used no null `stub`. -/
theorem body_of_step (h : (clientMachine uuid).step s a = some s') : s.body ≠ .crashed := by
  obtain ⟨halive, -⟩ := Option.ite_none_right_eq_some.mp h
  simp only [ClientState.alive, decide_eq_true_eq] at halive
  exact halive.1

/-- A second `Run` by `Start` terminates the program. -/
theorem terminates_of_running (hpc : s.pc = .running) (hb : s.body ≠ .crashed)
    (hm : s.tasksWorker.misused = true) : (clientMachine uuid).step s .control =
      some { s with tasksWorker := { s.tasksWorker with control := .terminated } } := by
  have hstep := Worker.step_of_misused hm
  have hidle : s.tasksWorker.control ≠ .idle := fun hc => by
    simp [ThreadState.misused, hc] at hm
  have hctl : s.tasksWorker.control ≠ .terminated := fun hc => by
    simp [ThreadState.misused, hc] at hm
  have halive : s.alive = true := by simp [ClientState.alive, hb, hctl]
  simp [clientMachine, clientStep, halive, ClientState.controlStep, hpc, hidle,
    ClientState.onWorker, hstep]

/-- **A client started badly** terminates the program. -/
theorem terminates_of_startUnfresh (h : (clientMachine uuid).Reachable s)
    (hstep : (clientMachine uuid).step s a = some s') (hc : ¬ StartsFresh s a) :
    ∃ t, (clientMachine uuid).Leads s' t ∧ t.tasksWorker.control = .terminated := by
  have hbody := body_of_step hstep
  have hsteps := clients_of_step hstep
  cases a with
  | control =>
    obtain ⟨hpc, hc⟩ := Classical.not_imp.mp hc
    cases hsteps with
    | runWorker _ ht =>
      exact ⟨_, .single (terminates_of_running rfl hbody (Worker.misused_of_run ht hc)), rfl⟩
    | started hpc' => cases hpc.symm.trans hpc'
    | stopWorker hpc' => cases hpc.symm.trans hpc'
    | stopped hpc' => cases hpc.symm.trans hpc'
    | control hpc' => simp [hpc] at hpc'
  | destroy =>
    cases hsteps with
    | destroy _ ht =>
      obtain ⟨n, t, hexec, hterm⟩ :=
        Worker.terminates_of_unfresh (worker_of_reachable h) ht hc
      exact ⟨_, ⟨_, exec_destroying rfl hbody hexec⟩, hterm⟩
  | _ => exact absurd trivial hc

/-- **When the threads are made once and joined once.** In every run in which
`Run` is called first with no thread made, or again with the flag up, and the
destructor after a `Run`, no joinable member is assigned and no other one is
joined; the same holds of a client whose `Start` and destructor do so. And
any other call, in any run, leads to the end of the program. -/
theorem lifecycle_iff (τ : Type u) [DecidableEq τ] (uuid : String) :
    ((∀ s, (threadMachine τ).ReachableUnder RunsFresh s →
        s.misused = false ∧ s.control ≠ .terminated) ∧
      ∀ s s' a, (threadMachine τ).Reachable s → (threadMachine τ).step s a = some s' →
        ¬ RunsFresh s a → ∃ t, (threadMachine τ).Leads s' t ∧ t.control = .terminated) ∧
    (∀ s, (clientMachine uuid).ReachableUnder StartsFresh s →
        s.tasksWorker.misused = false ∧ s.tasksWorker.control ≠ .terminated) ∧
      ∀ s s' a, (clientMachine uuid).Reachable s → (clientMachine uuid).step s a = some s' →
        ¬ StartsFresh s a →
        ∃ t, (clientMachine uuid).Leads s' t ∧ t.tasksWorker.control = .terminated := by
  refine ⟨⟨fun s h => ?_, fun s s' a h hstep hc => ?_⟩, fun s h => ?_,
    fun s s' a h hstep hc => terminates_of_startUnfresh h hstep hc⟩
  · have hi := Worker.joinable_of_reachable h
    exact ⟨hi.misused, hi.alive⟩
  · obtain ⟨n, t, hexec, hterm⟩ := Worker.terminates_of_unfresh h hstep hc
    exact ⟨t, ⟨_, hexec⟩, hterm⟩
  · have hi := Worker.joinable_of_reachable (worker_of_reachableUnder h)
    exact ⟨hi.misused, hi.alive⟩

/-- `Start`, `Stop` and the destructor, at which the worker is joined. -/
def startStopDestroy : List ClientAction :=
  [.start, .control, .control, .control, .control, .work, .stop, .control, .control, .control,
    .control, .destroy, .control, .control]

theorem startStopDestroy_joins :
    ∃ s, (clientMachine "a").ReachableUnder StartsFresh s ∧
      s.tasksWorker.control = .joinWork ∧ s.tasksWorker.misused = false := by
  have hrun : (((clientMachine "a").restrict StartsFresh).exec .new startStopDestroy).map
      (fun s => s.tasksWorker.control) = some .joinWork := by decide
  obtain ⟨s, hs, hctl⟩ := Option.map_eq_some_iff.mp hrun
  have hreach : (clientMachine "a").ReachableUnder StartsFresh s :=
    System.reachableUnder_of_exec _ rfl hs
  exact ⟨s, hreach, hctl, ((lifecycle_iff ℕ "a").2.1 s hreach).1⟩

/-- `Start`, `Stop` and `Start` again. -/
def startStopStart : List ClientAction :=
  [.start, .control, .control, .control, .control, .work, .stop, .control, .control, .control,
    .control, .start, .control]

/-- **A second `Start`** assigns to a thread that is still joinable. -/
theorem startStopStart_misused : ¬ ∀ s, (clientMachine "a").Reachable s →
    s.tasksWorker.control = .makeWork → s.tasksWorker.workThr = false := by
  intro h
  have hrun : ((clientMachine "a").exec .new startStopStart).map
      (fun s => (s.tasksWorker.control, s.tasksWorker.workThr)) =
      some (.makeWork, true) := by decide
  obtain ⟨s, hs, hview⟩ := Option.map_eq_some_iff.mp hrun
  obtain ⟨hctl, hthr⟩ := Prod.mk.inj hview
  have hnone := h s (System.reachable_of_exec _ rfl hs) hctl
  rw [hthr] at hnone
  cases hnone

end Steps

end Client

end VerAI
