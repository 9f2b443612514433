import VerAI.Worker.Thread
/-!
# How long the handler lives, and whether `Stop` is final

`Run` makes two threads over a flag that is down. `Work` puts it up in its
first step; the handler takes a flag that is down for the end, and so does
not live where it tests it first. `Stop` puts the flag down, and has stopped
nothing where the first step of `Work` comes later. Both hang on one store,
and either law holds in exactly the runs that keep to one side of it.
-/

namespace VerAI

namespace Worker

open Transition (System)

universe u

variable {τ : Type u}

/-! ## The handler lives as long as the worker -/

section Handler

variable [DecidableEq τ] {s s' : ThreadState τ} {a : ThreadAction τ}

/-- Once `Work` has stored the flag, the handler has not returned before
`Stop` is called. -/
def HandlerLives (s : ThreadState τ) : Prop :=
  s.main.pc ≠ .start → s.stopCalled = false → s.deffered.pc ≠ .returned

/-- The handler does not test the flag before `Work` has stored it, unless
`Stop` was called. -/
def TestsAfterStart (s : ThreadState τ) : ThreadAction τ → Prop
  | .deffered .whileRunning => s.main.pc ≠ .start ∨ s.stopCalled = true
  | _ => True

instance (s : ThreadState τ) (a : ThreadAction τ) : Decidable (TestsAfterStart s a) := by
  unfold TestsAfterStart
  split <;> infer_instance

/-- Such a handler returns only after `Stop` was called. -/
theorem Threads.returned (h : Threads s a s') (hi : ThreadInv s) (hc : TestsAfterStart s a)
    (hs : s.deffered.pc = .returned → s.stopCalled = true) :
    s'.deffered.pc = .returned → s'.stopCalled = true := by
  cases h with
  | stop | destroy => exact fun _ => rfl
  | @deffered a d _ he hd =>
    intro hret
    obtain hret | ⟨rfl, hoff⟩ := (handlerFrame_of_step (ne_store_of_enabled he) hd).returned hret
    · exact hs hret
    · rcases hc with hpc | hstop
      · by_contra hnot
        have hup := hi.isRunning hpc (Bool.eq_false_iff.mpr hnot)
        rw [← hi.synced, hoff] at hup
        cases hup
      · exact hstop
  | _ => exact hs

/-- **When the deferred tasks are still examined.** In every run in which the
handler tests the flag only after `Work` has stored it, or after a call of
`Stop`, the handler lives as long as the worker. And where it is about to
test the flag earlier, some continuation has a worker without a handler. -/
theorem handlerLives_iff (τ : Type u) [DecidableEq τ] :
    (∀ s, (threadMachine τ).ReachableUnder TestsAfterStart s → HandlerLives s) ∧
    (∀ s s' a, (threadMachine τ).Reachable s → (threadMachine τ).step s a = some s' →
      ¬ TestsAfterStart s a → ∃ t, (threadMachine τ).Leads s' t ∧ ¬ HandlerLives t) := by
  refine ⟨fun s h => ?_, fun s s' a h hstep hnot => ?_⟩
  · have hinv : ThreadInv s ∧ (s.deffered.pc = .returned → s.stopCalled = true) := by
      refine h.invariant
        (I := fun s => ThreadInv s ∧ (s.deffered.pc = .returned → s.stopCalled = true))
        (fun s hs => ?_) fun s a s' hi hc hstep => ?_
      · exact hs ▸ ⟨threadInv_new, fun hpc => by cases hpc⟩
      · have hsteps := threads_of_step hstep
        exact ⟨hi.1.step hsteps, hsteps.returned hi.1 hc hi.2⟩
    exact fun _ hs hpc => absurd (hinv.2 hpc) (by simp [hs])
  · have hi := threadInv_of_reachable h
    unfold TestsAfterStart at hnot
    split at hnot
    case h_2 => exact absurd trivial hnot
    case h_1 =>
      rw [not_or, not_not, Bool.not_eq_true] at hnot
      obtain ⟨hpc, hcalled⟩ := hnot
      obtain ⟨hoff, -, -⟩ := hi.unstarted hpc
      cases threads_of_step hstep with
      | @deffered _ d hl he hd =>
        obtain ⟨hthr, -⟩ : s.defferedTasksThr = true ∧ _ := by
          simpa [ThreadState.defferedEnabled] using he
        have hwork : s.workThr = true := (hi.paired hthr).resolve_right (by simp [hcalled])
        obtain ⟨-, hd⟩ := Option.ite_none_right_eq_some.mp hd
        -- the handler returns, and the worker goes on to store the flag
        have hret : d.pc = .returned := by
          rw [← Option.some.inj hd]
          simp [hi.synced, hoff]
        exact ⟨_, .single (step_workStart hl hwork hpc), fun hlives =>
          hlives (by simp) hcalled hret⟩

/-- `Run`, and the worker is scheduled first. -/
def workerFirst : List (ThreadAction ℕ) :=
  [.run, .control, .main .work, .control, .deffered .lock, .deffered .whileRunning]

theorem workerFirst_lives :
    ∃ s, (threadMachine ℕ).ReachableUnder TestsAfterStart s ∧ s.deffered.pc = .waiting 0 ∧
      HandlerLives s := by
  have hrun : (((threadMachine ℕ).restrict TestsAfterStart).exec .new workerFirst).map
      (fun s => s.deffered.pc) = some (.waiting 0) := by decide
  obtain ⟨s, hs, hpc⟩ := Option.map_eq_some_iff.mp hrun
  have hreach : (threadMachine ℕ).ReachableUnder TestsAfterStart s :=
    System.reachableUnder_of_exec _ rfl hs
  exact ⟨s, hreach, hpc, (handlerLives_iff ℕ).1 s hreach⟩

/-- `Run`, and the handler is scheduled first. -/
def handlerFirst : List (ThreadAction ℕ) :=
  [.run, .control, .control, .deffered .lock, .deffered .whileRunning, .main .work]

/-- **A worker without a handler.** -/
theorem handlerFirst_returned :
    ¬ ∀ s, (threadMachine ℕ).Reachable s → s.main.pc ≠ .start → s.stopCalled = false →
      s.deffered.pc ≠ .returned := by
  intro h
  have hrun : ((threadMachine ℕ).exec .new handlerFirst).map
      (fun s => (s.main.pc, s.stopCalled, s.deffered.pc)) =
      some (.whileRunning, false, .returned) := by decide
  obtain ⟨s, hs, hview⟩ := Option.map_eq_some_iff.mp hrun
  simp only [Prod.mk.injEq] at hview
  obtain ⟨hpc, hstop, hret⟩ := hview
  exact h s (System.reachable_of_exec _ rfl hs) (by simp [hpc]) hstop hret

end Handler

/-! ## `Stop` is final -/

section Final

variable [DecidableEq τ] {s s' : ThreadState τ} {a : ThreadAction τ}

/-- Once `Stop` has returned, the flag is down until `Run` is called. -/
def StopFinal (s : ThreadState τ) : Prop := s.stopReturned = true → s.main.isRunning = false

/-- `Stop`, or the destructor, is not called on a thread that was made and
has not stored the flag yet. -/
def StopsAfterStart (s : ThreadState τ) : ThreadAction τ → Prop
  | .stop => s.workThr = true → s.main.pc ≠ .start
  | .destroy => s.workThr = true → s.main.pc ≠ .start
  | _ => True

instance (s : ThreadState τ) (a : ThreadAction τ) : Decidable (StopsAfterStart s a) := by
  unfold StopsAfterStart
  split <;> infer_instance

/-- From the store of `Stop` on, until `Run` is called, the flag is down and
no thread is left that will put it up. -/
structure Stopped (s : ThreadState τ) : Prop where
  isRunning : s.main.isRunning = false
  started : s.workThr = true → s.main.pc ≠ .start

/-- A `Stop` is under way, or has returned with no `Run` since. -/
def ThreadState.stoppedNow (s : ThreadState τ) : Bool := s.stopReturned || s.control.inStop

/-- **A thread that was stopped stays stopped.** -/
theorem Threads.stopped (h : Threads s a s') (hi : ThreadInv s) (hafter : StopsAfterStart s a)
    (hs : s.stoppedNow = true → Stopped s) : s'.stoppedNow = true → Stopped s' := by
  have hstopped : s.control.inStop = true → Stopped s :=
    fun hin => hs (by simp [ThreadState.stoppedNow, hin])
  cases h with
  | stop | destroy => exact fun _ => ⟨rfl, hafter⟩
  | runAlready hc | run hc =>
    intro hnow
    simp [ThreadState.stoppedNow, ControlPc.inStop, hc] at hnow
  | makeWork hc | makeDeffered hc =>
    intro hnow
    have hrun := hi.inRun (by rw [hc]; rfl)
    simp [ThreadState.stoppedNow, ControlPc.inStop, hrun] at hnow
  | stopPush hc hm =>
    obtain ⟨-, hm⟩ := Option.ite_none_right_eq_some.mp hm
    obtain rfl := Option.some.inj hm
    have h := hstopped (by rw [hc]; rfl)
    exact fun _ => ⟨h.isRunning, h.started⟩
  | stopClear hc | stopNoHandler hc | joinDeffered hc =>
    have h := hstopped (by rw [hc]; rfl)
    exact fun _ => ⟨h.isRunning, h.started⟩
  | joinWork hc =>
    have h := hstopped (by rw [hc]; rfl)
    exact fun _ => ⟨h.isRunning, fun ht => by cases ht⟩
  | terminate =>
    intro hnow
    have h := hs (by simpa [ThreadState.stoppedNow, ControlPc.inStop] using Or.inl hnow)
    exact ⟨h.isRunning, h.started⟩
  | deliver => exact fun hnow => ⟨(hs hnow).isRunning, (hs hnow).started⟩
  | deffered => exact fun hnow => ⟨(hs hnow).isRunning, (hs hnow).started⟩
  | main _ he hm =>
    intro hnow
    have h := hs hnow
    obtain ⟨hpc, hrun⟩ | ⟨rfl, hw⟩ := mainStep_flag hm
    · refine ⟨Bool.eq_false_iff.mpr fun hr => ?_, fun ht => hpc ▸ h.started ht⟩
      exact Bool.eq_false_iff.mp h.isRunning (hrun hr)
    · refine ⟨Bool.eq_false_iff.mpr fun hr => ?_, fun _ => hw.flag.1⟩
      exact Bool.eq_false_iff.mp h.isRunning (hw.flag.2 (h.started he) hr)

/-- The end of `Stop` in a thread that has no handler. -/
theorem step_stopNoHandler {d : Bool} (hc : s.control = .stopClear d)
    (ht : s.defferedTasksThr = false) : (threadMachine τ).step s .control =
      some { s with control := ThreadState.afterStop d, stopReturned := true } := by
  simp [threadMachine, ThreadState.controlStep, hc, ht]

/-- The last critical section of `Stop`, where the handler does not hold the
mutex. -/
theorem step_stopClear {d : Bool} (hc : s.control = .stopClear d)
    (hpc : s.defferedTasksThr = true → s.deffered.pc ≠ .whileRunning) :
    ∃ t, (threadMachine τ).step s .control = some t ∧ t.stopReturned = true ∧ t.live = true ∧
      t.main = s.main ∧ t.workThr = s.workThr := by
  cases ht : s.defferedTasksThr with
  | true =>
    have hstep : (threadMachine τ).step s .control = some { s with
        deffered := { s.deffered with defferedTasksList := [] }
        control := ThreadState.afterStop d
        stopReturned := true } := by
      simp [threadMachine, ThreadState.controlStep, hc, ht, hpc ht]
    exact ⟨_, hstep, rfl, live_afterStop rfl, rfl, rfl⟩
  | false =>
    exact ⟨_, step_stopNoHandler hc ht, rfl, live_afterStop rfl, rfl, rfl⟩

/-- A handler that finds the flag down returns and lets the mutex go. -/
theorem step_handlerReturns (hl : s.live = true) (ht : s.defferedTasksThr = true)
    (hd : s.delivered = s.deffered.moved.length) (hpc : s.deffered.pc = .whileRunning)
    (hoff : s.deffered.isRunning = false) :
    (threadMachine τ).step s (.deffered .whileRunning) =
      some { s with deffered := { s.deffered with pc := .returned } } := by
  have hstep : (defferedMachine (Option τ)).step s.deffered .whileRunning =
      some { s.deffered with pc := .returned } := by
    simp [defferedMachine, hpc, hoff]
  simp only [threadMachine, hl, ThreadState.defferedEnabled, ht, hd, hstep]
  rfl

/-- **`Stop` can return before `Work` has taken its first step.** -/
theorem leads_stopReturns {d : Bool} (hi : ThreadInv s) (hc : s.control = .stopClear d)
    (hpc : s.main.pc = .start) :
    ∃ t, (threadMachine τ).Leads s t ∧ t.stopReturned = true ∧ t.live = true ∧
      t.main = s.main ∧ t.workThr = s.workThr := by
  have hl : s.live = true := live_of_control hc (by simp) (by simp)
  by_cases hheld : s.defferedTasksThr = true ∧ s.deffered.pc = .whileRunning
  · obtain ⟨ht, hw⟩ := hheld
    obtain ⟨hoff, -, hmoved⟩ := hi.unstarted hpc
    have hd : s.delivered = s.deffered.moved.length := by
      have hle := hi.delivered
      rw [hmoved] at hle ⊢
      exact Nat.eq_zero_of_le_zero hle
    have hret := step_handlerReturns hl ht hd hw (hi.synced.trans hoff)
    obtain ⟨t, hstep, hrest⟩ := step_stopClear
      (s := { s with deffered := { s.deffered with pc := .returned } }) hc (by simp)
    exact ⟨t, (System.Leads.single hret).trans (.single hstep), hrest⟩
  · rw [not_and] at hheld
    obtain ⟨t, hstep, hrest⟩ := step_stopClear hc hheld
    exact ⟨t, .single hstep, hrest⟩

/-- The queue after a call of `Stop` has pushed the null pointer. -/
def State.stopPushed (s : State τ) : State τ :=
  { Worker.stop s with taskQueue := s.taskQueue.push none, stopping := s.stopping }

/-- A call of `Stop` can push at once. -/
theorem step_callStop (s : ThreadState τ) (d : Bool) :
    (threadMachine τ).step (s.callStop d) .control =
      some { (s.callStop d).setMain s.main.stopPushed with control := .stopClear d } := by
  have hm : Worker.stopPush (s.callStop d).main = some s.main.stopPushed := by
    simp [Worker.stopPush, ThreadState.callStop, Worker.stop, State.stopPushed]
  simp only [threadMachine, ThreadState.controlStep]
  rw [show (s.callStop d).control = .stopPush d from rfl]
  simp only [hm, Option.map_some]

/-- A `Stop` called too early is undone by the worker's first step. -/
theorem not_final_of_early {d : Bool} (h : (threadMachine τ).Reachable (s.callStop d))
    (ht : s.workThr = true) (hpc : s.main.pc = .start) :
    ∃ t, (threadMachine τ).Leads (s.callStop d) t ∧ ¬ StopFinal t := by
  have hpush := step_callStop s d
  obtain ⟨t, hlead, hret, hl, hmain, hthr⟩ :=
    leads_stopReturns (threadInv_of_reachable (h.next hpush)) rfl hpc
  have hstart : t.main.pc = .start := by rw [hmain]; exact hpc
  refine ⟨_, (System.Leads.single hpush).trans (hlead.trans
    (.single (step_workStart hl (hthr.trans ht) hstart))), fun hfinal => ?_⟩
  cases hfinal hret

/-- **When `Stop` is final.** In every run in which `Stop` and the destructor
are called only before the worker is made or after it has stored the flag,
the flag stays down from the return of `Stop` to the next `Run`. And where
one is called in between, some continuation puts it up again. -/
theorem stopFinal_iff (τ : Type u) [DecidableEq τ] :
    (∀ s, (threadMachine τ).ReachableUnder StopsAfterStart s → StopFinal s) ∧
    (∀ s s' a, (threadMachine τ).Reachable s → (threadMachine τ).step s a = some s' →
      ¬ StopsAfterStart s a → ∃ t, (threadMachine τ).Leads s' t ∧ ¬ StopFinal t) := by
  refine ⟨fun s h => ?_, fun s s' a h hstep hnot => ?_⟩
  · have hinv : ThreadInv s ∧ (s.stoppedNow = true → Stopped s) := by
      refine h.invariant (I := fun s => ThreadInv s ∧ (s.stoppedNow = true → Stopped s))
        (fun s hs => ?_) fun s a s' hi hc hstep => ?_
      · exact hs ▸ ⟨threadInv_new, fun hnow => by cases hnow⟩
      · have hsteps := threads_of_step hstep
        exact ⟨hi.1.step hsteps, hsteps.stopped hi.1 hc hi.2⟩
    exact fun hret => (hinv.2 (by simp [ThreadState.stoppedNow, hret])).isRunning
  · have hnext := h.next hstep
    unfold StopsAfterStart at hnot
    split at hnot
    case h_1 =>
      obtain ⟨ht, hpc⟩ := Classical.not_imp.mp hnot
      cases threads_of_step hstep with
      | stop => exact not_final_of_early hnext ht (not_not.mp hpc)
    case h_2 =>
      obtain ⟨ht, hpc⟩ := Classical.not_imp.mp hnot
      cases threads_of_step hstep with
      | destroy => exact not_final_of_early hnext ht (not_not.mp hpc)
    case h_3 => exact absurd trivial hnot

/-- `Run` and, with both threads at work, `Stop`. -/
def stopAtWork : List (ThreadAction ℕ) :=
  [.run, .control, .control, .main .work, .main .work, .stop, .control, .control, .main .work]

theorem stopAtWork_final :
    ∃ s, (threadMachine ℕ).ReachableUnder StopsAfterStart s ∧ s.stopReturned = true ∧
      StopFinal s := by
  have hrun : (((threadMachine ℕ).restrict StopsAfterStart).exec .new stopAtWork).map
      (fun s => s.stopReturned) = some true := by decide
  obtain ⟨s, hs, hret⟩ := Option.map_eq_some_iff.mp hrun
  have hreach : (threadMachine ℕ).ReachableUnder StopsAfterStart s :=
    System.reachableUnder_of_exec _ rfl hs
  exact ⟨s, hreach, hret, (stopFinal_iff ℕ).1 s hreach⟩

/-- `Run` and `Stop`, and then the worker is scheduled. -/
def stopBeforeWork : List (ThreadAction ℕ) :=
  [.run, .control, .control, .stop, .control, .control, .main .work]

/-- **A thread that runs after `Stop` has returned.** -/
theorem stopBeforeWork_runs :
    ¬ ∀ s, (threadMachine ℕ).Reachable s → s.stopReturned = true → s.main.isRunning = false := by
  intro h
  have hrun : ((threadMachine ℕ).exec .new stopBeforeWork).map
      (fun s => (s.stopReturned, s.main.isRunning)) = some (true, true) := by decide
  obtain ⟨s, hs, hview⟩ := Option.map_eq_some_iff.mp hrun
  obtain ⟨hret, hup⟩ := Prod.mk.inj hview
  have hdown := h s (System.reachable_of_exec _ rfl hs) hret
  rw [hup] at hdown
  cases hdown

end Final

end Worker

end VerAI
