import VerAI.Worker.Work
import VerAI.Worker.Deffered
/-!
# The life of a working thread

A `WorkingThread` is two threads over one flag: `Work` with the main queue,
`DefferedTasksHandler` with its list. One controlling thread calls `Run`,
`Stop` and the destructor, one after another; each load and store of
`isRunning`, each assignment of a thread, each critical section and each
join is one step, and any thread may enqueue in between.

The two machines run side by side here. Each keeps the flag as its own field,
and a step of the first that stores it is a `store` of the second
(`ThreadState.setMain`). The tasks of a pass go to the main queue one at a
time (`deliver`), with the mutex held until the last of them is there.
-/

namespace VerAI

namespace Worker

open Transition (System)

universe u

/-- Where the controlling thread stands. `destroying` is a `Stop` called by
the destructor. -/
inductive ControlPc
  /-- In no call. -/
  | idle
  /-- In `Run`, before `workThr` is assigned. -/
  | makeWork
  /-- In `Run`, before `defferedTasksThr` is assigned. -/
  | makeDeffered
  /-- In `Stop`, before the null pointer is pushed. -/
  | stopPush (destroying : Bool)
  /-- In `Stop`, at `if(defferedTasksThr.joinable())`. -/
  | stopClear (destroying : Bool)
  /-- In `workThr.join()`. -/
  | joinWork
  /-- In `defferedTasksThr.join()`. -/
  | joinDeffered
  | destroyed
  /-- After `std::terminate`. -/
  | terminated
  deriving DecidableEq, Repr

/-- The controlling thread is in `Stop` or past the destructor's. -/
def ControlPc.inStop : ControlPc → Bool
  | stopPush _ => true
  | stopClear _ => true
  | joinWork => true
  | joinDeffered => true
  | destroyed => true
  | _ => false

/-- The controlling thread is in `Run`. -/
def ControlPc.inRun : ControlPc → Bool
  | makeWork => true
  | makeDeffered => true
  | _ => false

/-- The object, its two threads and the controlling one. `workThr` and
`defferedTasksThr` say whether the members are joinable, `delivered` counts
the moved tasks that are in the main queue already. No variable of the code
are `stopCalled`, set by the first store of `Stop`, and `stopReturned`: a
`Stop` has returned and no `Run` was called since. -/
structure ThreadState (τ : Type u) where
  main : State τ
  deffered : DefferedState (Option τ)
  delivered : ℕ
  workThr : Bool
  defferedTasksThr : Bool
  control : ControlPc
  stopCalled : Bool
  stopReturned : Bool
  deriving DecidableEq, Repr

/-- A call or the next step of the controlling thread, the next push of a
pass, or a step of one of the two machines. -/
inductive ThreadAction (τ : Type u)
  | run
  | stop
  | destroy
  | control
  | deliver
  | main (a : Action τ)
  | deffered (a : DefferedAction (Option τ))

variable {τ : Type u}

namespace ThreadState

/-- A new `WorkingThread`. -/
def new : ThreadState τ where
  main := started
  deffered := ⟨0, false, [], .start, updateDefferedTasksMS, true, []⟩
  delivered := 0
  workThr := false
  defferedTasksThr := false
  control := .idle
  stopCalled := false
  stopReturned := false

/-- The main queue's part of a step, the flag stored in both machines. -/
def setMain (s : ThreadState τ) (main : State τ) : ThreadState τ :=
  { s with main := main, deffered := { s.deffered with isRunning := main.isRunning } }

@[simp] theorem setMain_main (s : ThreadState τ) (m : State τ) : (s.setMain m).main = m := rfl

@[simp] theorem setMain_delivered (s : ThreadState τ) (m : State τ) :
    (s.setMain m).delivered = s.delivered := rfl

@[simp] theorem setMain_control (s : ThreadState τ) (m : State τ) :
    (s.setMain m).control = s.control := rfl

@[simp] theorem setMain_pc (s : ThreadState τ) (m : State τ) :
    (s.setMain m).deffered.pc = s.deffered.pc := rfl

@[simp] theorem setMain_moved (s : ThreadState τ) (m : State τ) :
    (s.setMain m).deffered.moved = s.deffered.moved := rfl

/-- The object exists. -/
def live (s : ThreadState τ) : Bool := s.control ≠ .destroyed ∧ s.control ≠ .terminated

/-- The steps of the main queue's machine that need no call of their own. -/
def mainEnabled (s : ThreadState τ) : Action τ → Bool
  | .enqueueTask _ => true
  | .enqueueTaskFront _ => true
  | .stop => false
  | .stopPush => false
  | .work => s.workThr

/-- The same of the deferred tasks. The handler goes on after a pass when
all the tasks it moves are delivered. -/
def defferedEnabled (s : ThreadState τ) : DefferedAction (Option τ) → Bool
  | .tick _ => true
  | .store _ => false
  | .enqueueTaskAfterTimeOut _ _ => true
  | .clear => false
  | .lock => s.defferedTasksThr
  | .whileRunning => s.defferedTasksThr ∧ s.delivered = s.deffered.moved.length
  | .wake _ => s.defferedTasksThr

/-- The first step of `Stop`. -/
def callStop (s : ThreadState τ) (destroying : Bool) : ThreadState τ :=
  { s.setMain (Worker.stop s.main) with control := .stopPush destroying, stopCalled := true }

/-- `EnqueueTask((*it).taskToRun)` in a pass. -/
def deliver (s : ThreadState τ) : Option (ThreadState τ) :=
  match s.deffered.moved[s.delivered]? with
  | some (r, _) =>
    some { s.setMain (enqueueTask s.main r.task) with delivered := s.delivered + 1 }
  | none => none

/-- Where `Stop` returns to. -/
def afterStop (destroying : Bool) : ControlPc := if destroying then .joinWork else .idle

/-- The next step of the call under way. Assigning to a joinable thread and
joining one that is not terminate the program. -/
def controlStep [DecidableEq τ] (s : ThreadState τ) : Option (ThreadState τ) :=
  match s.control with
  | .idle => none
  | .makeWork =>
    some (if s.workThr then { s with control := .terminated }
      else { s with workThr := true, control := .makeDeffered })
  | .makeDeffered =>
    some (if s.defferedTasksThr then { s with control := .terminated }
      else { s with defferedTasksThr := true, control := .idle })
  | .stopPush destroying =>
    (Worker.stopPush s.main).map fun m => { s.setMain m with control := .stopClear destroying }
  | .stopClear destroying =>
    if s.defferedTasksThr then
      if s.deffered.pc = .whileRunning then none
      else
        some { s with
          deffered := { s.deffered with defferedTasksList := [] }
          control := afterStop destroying
          stopReturned := true }
    else some { s with control := afterStop destroying, stopReturned := true }
  | .joinWork =>
    if s.workThr then
      if s.main.pc = .returned then some { s with workThr := false, control := .joinDeffered }
      else none
    else some { s with control := .terminated }
  | .joinDeffered =>
    if s.defferedTasksThr then
      if s.deffered.pc = .returned then
        some { s with defferedTasksThr := false, control := .destroyed }
      else none
    else some { s with control := .terminated }
  | .destroyed => none
  | .terminated => none

end ThreadState

/-- **The machine of a working thread.** -/
def threadMachine (τ : Type u) [DecidableEq τ] : System (ThreadState τ) (ThreadAction τ) where
  init s := s = .new
  step s
    | .run =>
      if s.control = .idle then
        some { s with
          control := if s.main.isRunning then .idle else .makeWork
          stopReturned := false }
      else none
    | .stop => if s.control = .idle then some (s.callStop false) else none
    | .destroy => if s.control = .idle then some (s.callStop true) else none
    | .control => s.controlStep
    | .deliver => if s.live ∧ s.defferedTasksThr then s.deliver else none
    | .main a =>
      if s.live ∧ s.mainEnabled a then ((queueMachine τ).step s.main a).map s.setMain else none
    | .deffered a =>
      if s.live ∧ s.defferedEnabled a then
        ((defferedMachine (Option τ)).step s.deffered a).map fun d => { s with deffered := d }
      else none

/-! ## The steps -/

section Steps

theorem ne_store_of_enabled {s : ThreadState τ} {a : DefferedAction (Option τ)}
    (h : s.defferedEnabled a = true) (b : Bool) : a ≠ .store b := by
  rintro rfl
  cases h

theorem live_of_control {s : ThreadState τ} {c : ControlPc} (h : s.control = c)
    (hd : c ≠ .destroyed) (ht : c ≠ .terminated) : s.live = true := by
  simp [ThreadState.live, h, hd, ht]

theorem live_afterStop {s : ThreadState τ} {d : Bool} (h : s.control = ThreadState.afterStop d) :
    s.live = true := by
  cases d
  · exact live_of_control h (by simp [ThreadState.afterStop]) (by simp [ThreadState.afterStop])
  · exact live_of_control h (by simp [ThreadState.afterStop]) (by simp [ThreadState.afterStop])

variable [DecidableEq τ] {s s' : ThreadState τ} {a : ThreadAction τ}

/-- The steps one by one, each with what it found. -/
inductive Threads (s : ThreadState τ) : ThreadAction τ → ThreadState τ → Prop
  | runAlready : s.control = .idle → s.main.isRunning = true →
      Threads s .run { s with stopReturned := false }
  | run : s.control = .idle → s.main.isRunning = false →
      Threads s .run { s with control := .makeWork, stopReturned := false }
  | stop : s.control = .idle → Threads s .stop (s.callStop false)
  | destroy : s.control = .idle → Threads s .destroy (s.callStop true)
  | makeWork : s.control = .makeWork → s.workThr = false →
      Threads s .control { s with workThr := true, control := .makeDeffered }
  | makeDeffered : s.control = .makeDeffered → s.defferedTasksThr = false →
      Threads s .control { s with defferedTasksThr := true, control := .idle }
  | stopPush {d : Bool} {m : State τ} : s.control = .stopPush d → Worker.stopPush s.main = some m →
      Threads s .control { s.setMain m with control := .stopClear d }
  | stopClear {d : Bool} : s.control = .stopClear d → s.defferedTasksThr = true →
      s.deffered.pc ≠ .whileRunning →
      Threads s .control { s with
        deffered := { s.deffered with defferedTasksList := [] }
        control := ThreadState.afterStop d
        stopReturned := true }
  | stopNoHandler {d : Bool} : s.control = .stopClear d → s.defferedTasksThr = false →
      Threads s .control { s with control := ThreadState.afterStop d, stopReturned := true }
  | joinWork : s.control = .joinWork → s.workThr = true → s.main.pc = .returned →
      Threads s .control { s with workThr := false, control := .joinDeffered }
  | joinDeffered : s.control = .joinDeffered → s.defferedTasksThr = true →
      s.deffered.pc = .returned →
      Threads s .control { s with defferedTasksThr := false, control := .destroyed }
  | terminate : s.live = true → Threads s .control { s with control := .terminated }
  | deliver {r : Request (Option τ)} {t : ℕ} : s.live = true → s.defferedTasksThr = true →
      s.deffered.moved[s.delivered]? = some (r, t) →
      Threads s .deliver
        { s.setMain (enqueueTask s.main r.task) with delivered := s.delivered + 1 }
  | main {a : Action τ} {m : State τ} : s.live = true → s.mainEnabled a = true →
      (queueMachine τ).step s.main a = some m → Threads s (.main a) (s.setMain m)
  | deffered {a : DefferedAction (Option τ)} {d : DefferedState (Option τ)} : s.live = true →
      s.defferedEnabled a = true → (defferedMachine (Option τ)).step s.deffered a = some d →
      Threads s (.deffered a) { s with deffered := d }

theorem threads_of_controlStep (h : s.controlStep = some s') : Threads s .control s' := by
  unfold ThreadState.controlStep at h
  split at h
  case h_1 => cases h
  case h_2 hc =>
    split at h
    · exact Option.some.inj h ▸ .terminate (live_of_control hc (by simp) (by simp))
    · exact Option.some.inj h ▸ .makeWork hc (Bool.eq_false_iff.mpr ‹_›)
  case h_3 hc =>
    split at h
    · exact Option.some.inj h ▸ .terminate (live_of_control hc (by simp) (by simp))
    · exact Option.some.inj h ▸ .makeDeffered hc (Bool.eq_false_iff.mpr ‹_›)
  case h_4 d hc =>
    obtain ⟨m, hm, rfl⟩ := Option.map_eq_some_iff.mp h
    exact .stopPush hc hm
  case h_5 d hc =>
    split at h
    · split at h
      · cases h
      · exact Option.some.inj h ▸ .stopClear hc ‹_› ‹_›
    · exact Option.some.inj h ▸ .stopNoHandler hc (Bool.eq_false_iff.mpr ‹_›)
  case h_6 hc =>
    split at h
    · split at h
      · exact Option.some.inj h ▸ .joinWork hc ‹_› ‹_›
      · cases h
    · exact Option.some.inj h ▸ .terminate (live_of_control hc (by simp) (by simp))
  case h_7 hc =>
    split at h
    · split at h
      · exact Option.some.inj h ▸ .joinDeffered hc ‹_› ‹_›
      · cases h
    · exact Option.some.inj h ▸ .terminate (live_of_control hc (by simp) (by simp))
  case h_8 => cases h
  case h_9 => cases h

/-- `Stop` comes to its end. -/
theorem control_of_stopClear {d : Bool} (hc : s.control = .stopClear d)
    (h : s.controlStep = some s') : s'.control = ThreadState.afterStop d := by
  simp only [ThreadState.controlStep, hc] at h
  split_ifs at h
  · exact Option.some.inj h ▸ rfl
  · exact Option.some.inj h ▸ rfl

theorem afterStop_ne_terminated {d : Bool} : ThreadState.afterStop d ≠ .terminated := by
  cases d <;> simp [ThreadState.afterStop]

/-- **What a step of a working thread can be.** -/
theorem threads_of_step (h : (threadMachine τ).step s a = some s') : Threads s a s' := by
  rcases a with _ | _ | _ | _ | _ | a | a
  · obtain ⟨hc, h⟩ := Option.ite_none_right_eq_some.mp h
    by_cases hr : s.main.isRunning = true
    · rw [if_pos hr, ← hc] at h
      exact Option.some.inj h ▸ .runAlready hc hr
    · rw [if_neg hr] at h
      exact Option.some.inj h ▸ .run hc (Bool.eq_false_iff.mpr hr)
  · obtain ⟨hc, h⟩ := Option.ite_none_right_eq_some.mp h
    exact Option.some.inj h ▸ .stop hc
  · obtain ⟨hc, h⟩ := Option.ite_none_right_eq_some.mp h
    exact Option.some.inj h ▸ .destroy hc
  · exact threads_of_controlStep h
  · obtain ⟨⟨hl, ht⟩, h⟩ := Option.ite_none_right_eq_some.mp h
    unfold ThreadState.deliver at h
    split at h
    · exact Option.some.inj h ▸ .deliver hl ht ‹_›
    · cases h
  · obtain ⟨⟨hl, he⟩, h⟩ := Option.ite_none_right_eq_some.mp h
    obtain ⟨m, hm, rfl⟩ := Option.map_eq_some_iff.mp h
    exact .main hl he hm
  · obtain ⟨⟨hl, he⟩, h⟩ := Option.ite_none_right_eq_some.mp h
    obtain ⟨d, hd, rfl⟩ := Option.map_eq_some_iff.mp h
    exact .deffered hl he hd

/-- Storing the flag is a step of the deferred tasks' machine. -/
theorem setMain_leads (s : ThreadState τ) (m : State τ) :
    (defferedMachine (Option τ)).Leads s.deffered (s.setMain m).deffered :=
  .single (a := .store m.isRunning) rfl

/-- **The main queue runs its own machine.** -/
theorem Threads.main_leads (h : Threads s a s') : (queueMachine τ).Leads s.main s'.main := by
  cases h with
  | stop | destroy => exact .single (a := .stop) rfl
  | stopPush _ hm => exact .single (a := .stopPush) hm
  | @deliver r => exact .single (a := .enqueueTask r.task) rfl
  | main _ _ hm => exact .single hm
  | _ => exact .refl _

/-- **So do the deferred tasks.** -/
theorem Threads.deffered_leads (h : Threads s a s') :
    (defferedMachine (Option τ)).Leads s.deffered s'.deffered := by
  cases h with
  | stop | destroy | stopPush | deliver | main => exact setMain_leads s _
  | stopClear _ _ hpc => exact .single (a := .clear) (if_neg hpc)
  | deffered _ _ hd => exact .single hd
  | _ => exact .refl _

/-- Both machines read the same flag. -/
theorem Threads.synced (h : Threads s a s') (hs : s.deffered.isRunning = s.main.isRunning) :
    s'.deffered.isRunning = s'.main.isRunning := by
  cases h with
  | stop | destroy | stopPush | deliver | main => rfl
  | deffered _ he hd => exact (handlerFrame_of_step (ne_store_of_enabled he) hd).isRunning.trans hs
  | _ => exact hs

/-- `stopCalled` is set by a call of `Stop` or of the destructor. -/
theorem Threads.stopCalled (h : Threads s a s') (hs : a ≠ .stop) (hd : a ≠ .destroy) :
    s'.stopCalled = s.stopCalled := by
  cases h with
  | stop => exact absurd rfl hs
  | destroy => exact absurd rfl hd
  | _ => rfl

end Steps

/-! ## Every run -/

section Runs

variable [DecidableEq τ] {s s' : ThreadState τ} {a : ThreadAction τ}

/-- What holds in every state of every run. -/
structure ThreadInv (s : ThreadState τ) : Prop where
  main : (queueMachine τ).Reachable s.main
  deffered : (defferedMachine (Option τ)).Reachable s.deffered
  synced : s.deffered.isRunning = s.main.isRunning
  delivered : s.delivered ≤ s.deffered.moved.length
  /-- Away from the head of its loop the handler has delivered all it moved. -/
  settled : s.deffered.pc ≠ .whileRunning → s.delivered = s.deffered.moved.length
  /-- Before `Work` has stored the flag, no wait has begun. -/
  unstarted : s.main.pc = .start → s.main.isRunning = false ∧ s.deffered.waitStart = none ∧
    s.deffered.moved = []
  /-- `Work` knows of no `Stop` that was not called. -/
  called : s.main.atStop ≠ none → s.stopCalled = true
  making : s.control = .makeDeffered → s.workThr = true
  inRun : s.control.inRun = true → s.stopReturned = false
  paired : s.defferedTasksThr = true → s.workThr = true ∨ s.stopCalled = true
  stopping : s.control.inStop = true → s.stopCalled = true
  /-- `Work` is past its start only in a thread that was made. -/
  made : s.main.pc ≠ .start → s.workThr = true ∨ s.stopCalled = true

theorem threadInv_new : ThreadInv (.new : ThreadState τ) where
  main := .init rfl
  deffered := .init rfl
  synced := rfl
  delivered := le_rfl
  settled _ := rfl
  unstarted _ := ⟨rfl, rfl, rfl⟩
  called h := absurd rfl h
  making h := by cases h
  inRun h := by cases h
  paired h := by cases h
  stopping h := by cases h
  made h := absurd rfl h

theorem ThreadInv.step (hi : ThreadInv s) (h : Threads s a s') : ThreadInv s' where
  main := hi.main.leads h.main_leads
  deffered := hi.deffered.leads h.deffered_leads
  synced := h.synced hi.synced
  delivered := by
    cases h with
    | deliver _ _ hr => exact (List.getElem?_eq_some_iff.mp hr).1
    | deffered _ he hd =>
      have hgrow := (handlerFrame_of_step (ne_store_of_enabled he) hd).moved.length_le
      exact hi.delivered.trans hgrow
    | _ => exact hi.delivered
  settled := by
    cases h with
    | deliver _ _ hr =>
      intro hpc
      have hlt := (List.getElem?_eq_some_iff.mp hr).1
      exact absurd (hi.settled hpc) (Nat.ne_of_lt hlt)
    | @deffered b d _ he hd =>
      intro hpc
      obtain ⟨hmoved, hold⟩ := (handlerFrame_of_step (ne_store_of_enabled he) hd).settled hpc
      show s.delivered = d.moved.length
      rw [hmoved]
      obtain hold | rfl := hold
      · exact hi.settled hold
      · simp only [ThreadState.defferedEnabled, decide_eq_true_eq] at he
        exact he.2
    | _ => exact hi.settled
  unstarted := by
    cases h with
    | stop | destroy => exact fun hpc => ⟨rfl, (hi.unstarted hpc).2⟩
    | stopPush _ hm =>
      obtain ⟨-, hm⟩ := Option.ite_none_right_eq_some.mp hm
      obtain rfl := Option.some.inj hm
      exact hi.unstarted
    | main _ _ hm =>
      intro hpc
      obtain ⟨hpc', hrun⟩ | ⟨-, hw⟩ := mainStep_flag hm
      · obtain ⟨hoff, hrest⟩ := hi.unstarted (hpc' ▸ hpc)
        exact ⟨Bool.eq_false_iff.mpr fun hr => Bool.eq_false_iff.mp hoff (hrun hr), hrest⟩
      · exact absurd hpc hw.flag.1
    | deffered _ he hd =>
      intro hpc
      obtain ⟨hoff, hwait, hmoved⟩ := hi.unstarted hpc
      obtain ⟨hwait', hmoved'⟩ := (handlerFrame_of_step (ne_store_of_enabled he) hd).unstarted
        hwait (hi.synced.trans hoff)
      exact ⟨hoff, hwait', hmoved'.trans hmoved⟩
    | _ => exact hi.unstarted
  called := by
    cases h with
    | stop | destroy => exact fun _ => rfl
    | stopPush _ hm =>
      exact fun hne => hi.called (atStop_of_step (a := .stopPush) hm (by simp) ▸ hne)
    | main _ he hm =>
      refine fun hne => hi.called (atStop_of_step hm ?_ ▸ hne)
      rintro rfl
      cases he
    | _ => exact hi.called
  making := by
    cases h with
    | makeWork => exact fun _ => rfl
    | stopClear | stopNoHandler =>
      intro hc
      simp only [ThreadState.afterStop] at hc
      split at hc <;> cases hc
    | runAlready | deliver | main | deffered => exact hi.making
    | _ => exact fun hc => by cases hc
  inRun := by
    cases h with
    | runAlready | run => exact fun _ => rfl
    | makeWork hc => exact fun _ => hi.inRun (by rw [hc]; rfl)
    | stopClear | stopNoHandler =>
      intro hc
      simp only [ThreadState.afterStop] at hc
      split at hc <;> cases hc
    | deliver | main | deffered => exact hi.inRun
    | _ => exact fun hc => by cases hc
  paired := by
    cases h with
    | makeWork => exact fun _ => .inl rfl
    | makeDeffered hc => exact fun _ => .inl (hi.making hc)
    | stop | destroy => exact fun _ => .inr rfl
    | joinWork hc => exact fun _ => .inr (hi.stopping (by rw [hc]; rfl))
    | joinDeffered => exact fun ht => by cases ht
    | _ => exact hi.paired
  stopping := by
    cases h with
    | stop | destroy => exact fun _ => rfl
    | stopPush hc | stopClear hc | stopNoHandler hc | joinWork hc | joinDeffered hc =>
      exact fun _ => hi.stopping (by rw [hc]; rfl)
    | runAlready | deliver | main | deffered => exact hi.stopping
    | _ => exact fun hc => by cases hc
  made := by
    cases h with
    | makeWork => exact fun _ => .inl rfl
    | stop | destroy => exact fun _ => .inr rfl
    | joinWork hc => exact fun _ => .inr (hi.stopping (by rw [hc]; rfl))
    | stopPush hc => exact fun _ => .inr (hi.stopping (by rw [hc]; rfl))
    | main _ he hm =>
      intro hpc
      obtain ⟨hpc', -⟩ | ⟨rfl, -⟩ := mainStep_flag hm
      · exact hi.made (hpc' ▸ hpc)
      · exact .inl he
    | _ => exact hi.made

/-- **The invariant holds along every run.** -/
theorem threadInv_of_reachable (h : (threadMachine τ).Reachable s) : ThreadInv s :=
  h.invariant (fun _ hs => hs ▸ threadInv_new) fun _ _ _ hi _ hs => hi.step (threads_of_step hs)

/-- The first step of `Work` in a thread that was made. -/
theorem step_workStart (hl : s.live = true) (ht : s.workThr = true) (hpc : s.main.pc = .start) :
    (threadMachine τ).step s (.main .work) =
      some (s.setMain { s.main with isRunning := true, pc := .whileRunning }) := by
  have hwork : (queueMachine τ).step s.main .work =
      some { s.main with isRunning := true, pc := .whileRunning } := by
    simp [queueMachine, work, hpc]
  simp only [threadMachine, hl, ThreadState.mainEnabled, ht, hwork]
  rfl

/-- `Work` keeps the flag up until `Stop` is called. -/
theorem ThreadInv.isRunning (hi : ThreadInv s) (hpc : s.main.pc ≠ .start)
    (hs : s.stopCalled = false) : s.main.isRunning = true := by
  by_contra hr
  rw [Bool.not_eq_true] at hr
  have hstop := hi.called ((inv_of_reachable hi.main).control.armed hpc hr)
  rw [hs] at hstop
  cases hstop

end Runs

end Worker

end VerAI
