import VerAI.Lib.Transition
import VerAI.Worker.MessageQueue
/-!
# The main task queue of a working thread

`Work` takes the queue in batches while `isRunning` holds and drains what is
left afterwards. Any number of threads push at both ends, and any of them may
call `Stop`, which stores the flag and pushes a null pointer as two steps.
The machine starts where `Run` has created the thread: the flag is false
until `Work` stores it.

Three fields belong to no variable of the code. `ran` and `pushed` list the
tasks run and the tasks pushed so far; `atStop` keeps what had been pushed
when `Stop` was first called on a thread that had set `isRunning`.

`flow` is the line the tasks stand in: run, running, in the batch, in the
queue. A step of `Work` moves the marks along that line and never the tasks,
which is the whole of conservation and order.
-/

namespace VerAI

namespace Worker

open Transition (System)

universe u

/-- The call that pushed a task. -/
inductive PushedBy
  | enqueueTask
  | enqueueTaskFront
  deriving DecidableEq, Repr

/-- A task in the queue and the call that pushed it. -/
structure Ticket (τ : Type u) where
  task : τ
  pushedBy : PushedBy
  deriving DecidableEq, Repr

/-- Pushed at the back. -/
def Ticket.isBack {τ : Type u} (t : Ticket τ) : Bool :=
  t.pushedBy = .enqueueTask

/-- Where `Work` stands. -/
inductive Pc (τ : Type u)
  /-- Before `isRunning.store(true)`. -/
  | start
  /-- `while (IsRunning())` -/
  | whileRunning
  /-- In `WaitAndReturnAll`. -/
  | wait
  /-- `while(!deq.empty())` -/
  | whileBatch
  /-- In `Run()` of a task of the batch. -/
  | runBatch (t : Ticket τ)
  /-- `while(!taskQueue.IsEmpty())` -/
  | whileQueue
  /-- At `Pop`, the queue having been seen nonempty. -/
  | pop
  /-- In `Run()` of a popped task. -/
  | runPopped (t : Ticket τ)
  /-- Before `isRunning.store(false)`. -/
  | finish
  | returned
  /-- An exception left `Work`. -/
  | terminated
  deriving DecidableEq, Repr

/-- The thread, its queue and the history of both. -/
structure State (τ : Type u) where
  isRunning : Bool
  taskQueue : MessageQueue (Option (Ticket τ))
  pc : Pc τ
  deq : List (Option (Ticket τ))
  /-- Calls of `Stop` that have stored the flag and not pushed yet. -/
  stopping : ℕ
  ran : List (Ticket τ)
  pushed : List (Ticket τ)
  atStop : Option (List (Ticket τ))
  deriving DecidableEq, Repr

/-- A call by some thread, or the next step of `Work`. -/
inductive Action (τ : Type u)
  | enqueueTask (task : Option τ)
  | enqueueTaskFront (task : Option τ)
  | stop
  | stopPush
  | work
  deriving DecidableEq, Repr

variable {τ : Type u}

/-- The next step of `Work`; `none` while it waits or has ended. -/
def work (s : State τ) : Option (State τ) :=
  match s.pc with
  | .start => some { s with isRunning := true, pc := .whileRunning }
  | .whileRunning => some { s with pc := if s.isRunning then .wait else .whileQueue }
  | .wait =>
    s.taskQueue.waitAndReturnAll.map fun r =>
      { s with deq := r.1, taskQueue := r.2, pc := .whileBatch }
  | .whileBatch =>
    match s.deq with
    | [] => some { s with pc := .whileRunning }
    | none :: rest => some { s with deq := rest }
    | some t :: rest => some { s with deq := rest, pc := .runBatch t }
  | .runBatch t => some { s with ran := s.ran ++ [t], pc := .whileBatch }
  | .whileQueue => some { s with pc := if s.taskQueue.isEmpty then .finish else .pop }
  | .pop =>
    match s.taskQueue.pop with
    | .error _ => some { s with pc := .terminated }
    | .ok (none, q) => some { s with taskQueue := q, pc := .whileQueue }
    | .ok (some t, q) => some { s with taskQueue := q, pc := .runPopped t }
  | .runPopped t => some { s with ran := s.ran ++ [t], pc := .whileQueue }
  | .finish => some { s with isRunning := false, pc := .returned }
  | .returned => none
  | .terminated => none

/-- `EnqueueTask`; a null pointer is no task. -/
def enqueueTask (s : State τ) (task : Option τ) : State τ :=
  let ticket := task.map fun x => ⟨x, .enqueueTask⟩
  { s with taskQueue := s.taskQueue.push ticket, pushed := s.pushed ++ ticket.toList }

/-- `EnqueueTaskFront`. -/
def enqueueTaskFront (s : State τ) (task : Option τ) : State τ :=
  let ticket := task.map fun x => ⟨x, .enqueueTaskFront⟩
  { s with taskQueue := s.taskQueue.pushFront ticket, pushed := s.pushed ++ ticket.toList }

/-- The first step of `Stop`. -/
def stop (s : State τ) : State τ :=
  { s with
    isRunning := false
    stopping := s.stopping + 1
    atStop := match s.pc with
      | .start => s.atStop
      | _ => s.atStop.or (some s.pushed) }

/-- The second step of `Stop`. -/
def stopPush (s : State τ) : Option (State τ) :=
  if 0 < s.stopping then
    some { s with taskQueue := s.taskQueue.push none, stopping := s.stopping - 1 }
  else none

/-- A working thread just created. -/
def started : State τ where
  isRunning := false
  taskQueue := ⟨[]⟩
  pc := .start
  deq := []
  stopping := 0
  ran := []
  pushed := []
  atStop := none

/-- **The machine of the main queue.** -/
def queueMachine (τ : Type u) : System (State τ) (Action τ) where
  init s := s = started
  step s
    | .enqueueTask task => some (enqueueTask s task)
    | .enqueueTaskFront task => some (enqueueTaskFront s task)
    | .stop => some (stop s)
    | .stopPush => stopPush s
    | .work => work s

/-! ## The line of tasks -/

/-- The task in `Run()`. -/
def Pc.running : Pc τ → List (Ticket τ)
  | .runBatch t => [t]
  | .runPopped t => [t]
  | _ => []

/-- `Work` is taking a batch apart. -/
def Pc.inBatch : Pc τ → Bool
  | .whileBatch => true
  | .runBatch _ => true
  | _ => false

/-- `Work` has left its main loop. -/
def Pc.draining : Pc τ → Bool
  | .whileQueue => true
  | .pop => true
  | .runPopped _ => true
  | .finish => true
  | .returned => true
  | _ => false

/-- `Work` has seen the queue empty and runs no task any more. -/
def Pc.drained : Pc τ → Bool
  | .finish => true
  | .returned => true
  | _ => false

/-- Run, running, in the batch, in the queue. -/
def State.flow (s : State τ) : List (Ticket τ) :=
  s.ran ++ s.pc.running ++ s.deq.reduceOption ++ s.taskQueue.tasks

/-- What the places `Work` stands at say about the rest of the state. -/
structure Control (s : State τ) : Prop where
  idle : s.pc.inBatch = false → s.deq = []
  pop : s.pc = .pop → s.taskQueue.queueMessages ≠ []
  alive : s.pc ≠ .terminated
  armed : s.pc ≠ .start → s.isRunning = false → s.atStop ≠ none
  draining : s.pc.draining = true → s.atStop ≠ none

variable {s s' : State τ}

/-- The steps of `Work` one by one, each with what it found. -/
inductive Works (s : State τ) : State τ → Prop
  | start : s.pc = .start → Works s { s with isRunning := true, pc := .whileRunning }
  | stay : s.pc = .whileRunning → s.isRunning = true → Works s { s with pc := .wait }
  | leave : s.pc = .whileRunning → s.isRunning = false → Works s { s with pc := .whileQueue }
  | take {q : MessageQueue (Option (Ticket τ))} : s.pc = .wait → q.queueMessages = [] →
      Works s { s with deq := s.taskQueue.queueMessages, taskQueue := q, pc := .whileBatch }
  | endBatch : s.pc = .whileBatch → s.deq = [] → Works s { s with pc := .whileRunning }
  | skip {rest : List (Option (Ticket τ))} : s.pc = .whileBatch → s.deq = none :: rest →
      Works s { s with deq := rest }
  | front {t : Ticket τ} {rest : List (Option (Ticket τ))} :
      s.pc = .whileBatch → s.deq = some t :: rest →
      Works s { s with deq := rest, pc := .runBatch t }
  | runBatch {t : Ticket τ} : s.pc = .runBatch t →
      Works s { s with ran := s.ran ++ [t], pc := .whileBatch }
  | seeEmpty : s.pc = .whileQueue → s.taskQueue.queueMessages = [] →
      Works s { s with pc := .finish }
  | seeMore : s.pc = .whileQueue → s.taskQueue.queueMessages ≠ [] →
      Works s { s with pc := .pop }
  | throw : s.pc = .pop → s.taskQueue.queueMessages = [] → Works s { s with pc := .terminated }
  | popNull {q : MessageQueue (Option (Ticket τ))} : s.pc = .pop →
      s.taskQueue.queueMessages = none :: q.queueMessages →
      Works s { s with taskQueue := q, pc := .whileQueue }
  | popTask {t : Ticket τ} {q : MessageQueue (Option (Ticket τ))} : s.pc = .pop →
      s.taskQueue.queueMessages = some t :: q.queueMessages →
      Works s { s with taskQueue := q, pc := .runPopped t }
  | runPopped {t : Ticket τ} : s.pc = .runPopped t →
      Works s { s with ran := s.ran ++ [t], pc := .whileQueue }
  | finish : s.pc = .finish → Works s { s with isRunning := false, pc := .returned }

/-- **What a step of `Work` can be.** -/
theorem works_of_work (h : work s = some s') : Works s s' := by
  unfold work at h
  split at h
  case h_1 hpc => exact Option.some.inj h ▸ .start hpc
  case h_2 hpc =>
    by_cases hr : s.isRunning = true
    · rw [if_pos hr] at h
      exact Option.some.inj h ▸ .stay hpc hr
    · rw [if_neg hr] at h
      exact Option.some.inj h ▸ .leave hpc (Bool.eq_false_iff.mpr hr)
  case h_3 hpc =>
    obtain ⟨⟨deq, q⟩, hr, rfl⟩ := Option.map_eq_some_iff.mp h
    obtain ⟨-, rfl, hq⟩ := MessageQueue.waitAndReturnAll_eq_some_iff.mp hr
    exact .take hpc hq
  case h_4 hpc =>
    split at h
    case h_1 hdeq => exact Option.some.inj h ▸ .endBatch hpc hdeq
    case h_2 hdeq => exact Option.some.inj h ▸ .skip hpc hdeq
    case h_3 hdeq => exact Option.some.inj h ▸ .front hpc hdeq
  case h_5 hpc => exact Option.some.inj h ▸ .runBatch hpc
  case h_6 hpc =>
    by_cases hq : s.taskQueue.isEmpty = true
    · rw [if_pos hq] at h
      exact Option.some.inj h ▸ .seeEmpty hpc (MessageQueue.isEmpty_iff.mp hq)
    · rw [if_neg hq] at h
      exact Option.some.inj h ▸ .seeMore hpc (mt MessageQueue.isEmpty_iff.mpr hq)
  case h_7 hpc =>
    split at h
    case h_1 hp => exact Option.some.inj h ▸ .throw hpc (MessageQueue.pop_error_iff.mp hp).1
    case h_2 hp => exact Option.some.inj h ▸ .popNull hpc (MessageQueue.pop_ok_iff.mp hp)
    case h_3 hp => exact Option.some.inj h ▸ .popTask hpc (MessageQueue.pop_ok_iff.mp hp)
  case h_8 hpc => exact Option.some.inj h ▸ .runPopped hpc
  case h_9 hpc => exact Option.some.inj h ▸ .finish hpc
  case h_10 => exact absurd h (by simp)
  case h_11 => exact absurd h (by simp)

/-- `Work` pushes nothing and does not call `Stop`. -/
theorem Works.frame (h : Works s s') : s'.pushed = s.pushed ∧ s'.atStop = s.atStop := by
  cases h <;> exact ⟨rfl, rfl⟩

/-- `Work` stores `true` in its first step and never again. -/
theorem Works.flag (h : Works s s') :
    s'.pc ≠ .start ∧ (s.pc ≠ .start → s'.isRunning = true → s.isRunning = true) := by
  cases h with
  | start hpc => exact ⟨nofun, fun hne => absurd hpc hne⟩
  | skip hpc => exact ⟨fun h => by simp [hpc] at h, fun _ hr => hr⟩
  | finish => exact ⟨nofun, fun _ hr => by cases hr⟩
  | _ => exact ⟨nofun, fun _ hr => hr⟩

/-- What a step does to the place of `Work` and the flag, where it is no
store of `Stop`. -/
theorem mainStep_flag {a : Action τ} (h : (queueMachine τ).step s a = some s') :
    (s'.pc = s.pc ∧ (s'.isRunning = true → s.isRunning = true)) ∨ (a = .work ∧ Works s s') := by
  rcases a with task | task | _ | _ | _
  · exact .inl (Option.some.inj h ▸ ⟨rfl, id⟩)
  · exact .inl (Option.some.inj h ▸ ⟨rfl, id⟩)
  · exact .inl (Option.some.inj h ▸ ⟨rfl, fun hr => by cases hr⟩)
  · obtain ⟨-, h⟩ := Option.ite_none_right_eq_some.mp h
    exact .inl (Option.some.inj h ▸ ⟨rfl, id⟩)
  · exact .inr ⟨rfl, works_of_work h⟩

theorem atStop_of_step {a : Action τ} (h : (queueMachine τ).step s a = some s')
    (ha : a ≠ .stop) : s'.atStop = s.atStop := by
  rcases a with task | task | _ | _ | _
  · exact Option.some.inj h ▸ rfl
  · exact Option.some.inj h ▸ rfl
  · exact absurd rfl ha
  · obtain ⟨-, h⟩ := Option.ite_none_right_eq_some.mp h
    exact Option.some.inj h ▸ rfl
  · exact (works_of_work h).frame.2

/-- **A step of `Work` leaves the line as it is.** -/
theorem Works.flow (h : Works s s') (hc : Control s) : s'.flow = s.flow := by
  -- outside the batch loop `deq` is empty, so the drain runs from the queue alone
  have hidle : s.pc.inBatch = false → s.deq = [] := hc.idle
  cases h with
  | take hpc hq =>
    have hdeq : s.deq = [] := hidle (by rw [hpc]; rfl)
    simp [State.flow, MessageQueue.tasks, Pc.running, hpc, hdeq, hq]
  | popNull hpc hq =>
    have hdeq : s.deq = [] := hidle (by rw [hpc]; rfl)
    simp [State.flow, MessageQueue.tasks, Pc.running, hpc, hdeq, hq]
  | popTask hpc hq =>
    have hdeq : s.deq = [] := hidle (by rw [hpc]; rfl)
    simp [State.flow, MessageQueue.tasks, Pc.running, hpc, hdeq, hq]
  | runPopped hpc =>
    have hdeq : s.deq = [] := hidle (by rw [hpc]; rfl)
    simp [State.flow, Pc.running, hpc, hdeq]
  | skip hpc hdeq => simp [State.flow, Pc.running, hpc, hdeq]
  | front hpc hdeq => simp [State.flow, Pc.running, hpc, hdeq]
  | _ => simp_all [State.flow, Pc.running]

theorem Works.control (h : Works s s') (hc : Control s) : Control s' := by
  obtain ⟨hidle, hpop, halive, harmed, hdrain⟩ := hc
  cases h with
  | start hpc =>
    exact ⟨fun _ => hidle (by rw [hpc]; rfl), nofun, nofun, nofun, nofun⟩
  | stay hpc hr =>
    exact ⟨fun _ => hidle (by rw [hpc]; rfl), nofun, nofun, fun _ h => by simp_all, nofun⟩
  | leave hpc hr =>
    have hstop : s.atStop ≠ none := harmed (by simp [hpc]) hr
    exact ⟨fun _ => hidle (by rw [hpc]; rfl), nofun, nofun, fun _ _ => hstop, fun _ => hstop⟩
  | take hpc hq => exact ⟨nofun, nofun, nofun, fun _ => harmed (by simp [hpc]), nofun⟩
  | endBatch hpc hdeq => exact ⟨fun _ => hdeq, nofun, nofun, fun _ => harmed (by simp [hpc]), nofun⟩
  | skip hpc hdeq =>
    refine ⟨fun hb => ?_, hpop, halive, harmed, hdrain⟩
    rw [hpc] at hb
    cases hb
  | front hpc hdeq => exact ⟨nofun, nofun, nofun, fun _ => harmed (by simp [hpc]), nofun⟩
  | runBatch hpc => exact ⟨nofun, nofun, nofun, fun _ => harmed (by simp [hpc]), nofun⟩
  -- `Pop` comes right after `IsEmpty` said no, and only this thread pops
  | throw hpc hq => exact absurd hq (hpop hpc)
  | seeMore hpc hq =>
    have hstop : s.atStop ≠ none := hdrain (by rw [hpc]; rfl)
    exact ⟨fun _ => hidle (by rw [hpc]; rfl), fun _ => hq, nofun, fun _ _ => hstop, fun _ => hstop⟩
  | seeEmpty hpc =>
    have hstop : s.atStop ≠ none := hdrain (by rw [hpc]; rfl)
    exact ⟨fun _ => hidle (by rw [hpc]; rfl), nofun, nofun, fun _ _ => hstop, fun _ => hstop⟩
  | popNull hpc | popTask hpc | runPopped hpc | finish hpc =>
    have hstop : s.atStop ≠ none := hdrain (by rw [hpc]; rfl)
    exact ⟨fun _ => hidle (by rw [hpc]; rfl), nofun, nofun, fun _ _ => hstop, fun _ => hstop⟩

/-! ## The invariant -/

/-- The line holds the tasks pushed, those pushed at the back in their order. -/
structure Conserved (s : State τ) : Prop where
  perm : s.flow.Perm s.pushed
  back : s.flow.filter Ticket.isBack = s.pushed.filter Ticket.isBack

/-- What had been pushed at the first `Stop` is a beginning of what is pushed,
and all of it is run once `Work` has seen the queue empty. -/
structure Drains (s : State τ) : Prop where
  snapshot : ∀ l, s.atStop = some l → l <+: s.pushed
  drained : s.pc.drained = true → ∀ l, s.atStop = some l → l.Subperm s.ran

/-- **What a step of `Work` keeps.** -/
theorem Works.conserved (h : Works s s') (hc : Control s) (hs : Conserved s) : Conserved s' where
  perm := by rw [h.flow hc, h.frame.1]; exact hs.perm
  back := by rw [h.flow hc, h.frame.1]; exact hs.back

theorem Works.drains (h : Works s s') (hc : Control s) (hs : Conserved s) (hd : Drains s) :
    Drains s' where
  snapshot := by rw [h.frame.1, h.frame.2]; exact hd.snapshot
  drained := by
    intro hpc' l hl
    have hl' : s.atStop = some l := h.frame.2 ▸ hl
    have hsnap : l.Subperm s.pushed := (hd.snapshot l hl').sublist.subperm
    cases h with
    | seeEmpty hpc hq =>
      -- nothing is left behind the tasks already run
      have hdeq : s.deq = [] := hc.idle (by rw [hpc]; rfl)
      have hflow : s.flow = s.ran := by
        simp [State.flow, MessageQueue.tasks, Pc.running, hpc, hdeq, hq]
      have hran : s.ran.Perm s.pushed := hflow ▸ hs.perm
      exact hsnap.trans hran.symm.subperm
    | finish hpc => exact hd.drained (by rw [hpc]; rfl) l hl'
    | skip hpc => exact absurd hpc' (by simp [hpc, Pc.drained])
    | _ => cases hpc'

/-- The invariant of the main queue. -/
structure Inv (s : State τ) : Prop where
  control : Control s
  conserved : Conserved s
  drains : Drains s

theorem inv_started : Inv (started : State τ) where
  control := ⟨fun _ => rfl, nofun, nofun, nofun, nofun⟩
  conserved := ⟨.nil, rfl⟩
  drains := ⟨nofun, nofun⟩

theorem Works.inv (h : Works s s') (hi : Inv s) : Inv s' where
  control := h.control hi.control
  conserved := h.conserved hi.control hi.conserved
  drains := h.drains hi.control hi.conserved hi.drains

/-- `EnqueueTask` puts the task at the end of the line. -/
theorem flow_enqueueTask (task : Option τ) : (enqueueTask s task).flow =
    s.flow ++ (task.map fun x => ⟨x, .enqueueTask⟩).toList := by
  cases task <;> simp [enqueueTask, State.flow]

/-- `EnqueueTaskFront` puts it before the tasks still in the queue. -/
theorem flow_enqueueTaskFront (task : Option τ) : (enqueueTaskFront s task).flow =
    s.ran ++ s.pc.running ++ s.deq.reduceOption ++
      ((task.map fun x => ⟨x, .enqueueTaskFront⟩).toList ++ s.taskQueue.tasks) := by
  cases task <;> simp [enqueueTaskFront, State.flow]

theorem inv_enqueueTask (hi : Inv s) (task : Option τ) : Inv (enqueueTask s task) := by
  obtain ⟨⟨hidle, hpop, halive, harmed, hdrain⟩, ⟨hperm, hback⟩, ⟨hsnap, hdone⟩⟩ := hi
  refine ⟨⟨hidle, fun hpc => ?_, halive, harmed, hdrain⟩, ⟨?_, ?_⟩, ⟨fun l hl => ?_, hdone⟩⟩
  · exact List.append_ne_nil_of_left_ne_nil (hpop hpc) _
  · rw [flow_enqueueTask]
    exact hperm.append_right _
  · rw [flow_enqueueTask, List.filter_append, hback]
    exact (List.filter_append ..).symm
  · exact (hsnap l hl).trans (List.prefix_append ..)

theorem inv_enqueueTaskFront (hi : Inv s) (task : Option τ) : Inv (enqueueTaskFront s task) := by
  obtain ⟨⟨hidle, hpop, halive, harmed, hdrain⟩, ⟨hperm, hback⟩, ⟨hsnap, hdone⟩⟩ := hi
  refine ⟨⟨hidle, fun _ => ?_, halive, harmed, hdrain⟩, ⟨?_, ?_⟩, ⟨fun l hl => ?_, hdone⟩⟩
  · exact List.cons_ne_nil _ _
  · rw [flow_enqueueTaskFront]
    refine .trans ?_ (hperm.append_right _)
    simpa only [State.flow, List.append_assoc] using
      (List.perm_append_comm.append_left (s.ran ++ s.pc.running ++ s.deq.reduceOption))
  · have hfront : (task.map fun x => (⟨x, .enqueueTaskFront⟩ : Ticket τ)).toList.filter
        Ticket.isBack = [] := by cases task <;> rfl
    have hpushed : (enqueueTaskFront s task).pushed.filter Ticket.isBack =
        s.pushed.filter Ticket.isBack := by
      simp only [enqueueTaskFront, List.filter_append, hfront, List.append_nil]
    rw [flow_enqueueTaskFront, hpushed, ← hback]
    simp only [State.flow, List.filter_append, hfront, List.nil_append]
  · exact (hsnap l hl).trans (List.prefix_append ..)

theorem inv_stop (hi : Inv s) : Inv (stop s) := by
  obtain ⟨⟨hidle, hpop, halive, harmed, hdrain⟩, ⟨hperm, hback⟩, ⟨hsnap, hdone⟩⟩ := hi
  have hkeep : s.atStop ≠ none → (stop s).atStop = s.atStop := by
    intro h
    obtain ⟨l, hl⟩ := Option.ne_none_iff_exists'.mp h
    simp only [stop, hl, Option.some_or]
    split <;> rfl
  -- the worker was past its start: this `Stop` counts, unless an earlier one did
  have hset : s.pc ≠ .start → (stop s).atStop ≠ none := by
    intro hpc
    simp [stop]
  refine ⟨⟨hidle, hpop, halive, fun hpc _ => hset hpc, fun hd => ?_⟩, ⟨hperm, hback⟩,
    ⟨fun l hl => ?_, fun hd l hl => ?_⟩⟩
  · exact hkeep (hdrain hd) ▸ hdrain hd
  · rcases Option.eq_none_or_eq_some s.atStop with hnone | ⟨l', hl'⟩
    · simp only [stop, hnone] at hl
      split at hl
      · cases hl
      · exact Option.some.inj hl ▸ List.prefix_rfl
    · rw [hkeep (by simp [hl'])] at hl
      exact hsnap l hl
  · have hne : s.atStop ≠ none := hdrain (by
      revert hd
      simp only [stop]
      rcases s.pc <;> simp [Pc.drained, Pc.draining])
    rw [hkeep hne] at hl
    exact hdone hd l hl

theorem inv_stopPush (h : stopPush s = some s') (hi : Inv s) : Inv s' := by
  obtain ⟨⟨hidle, hpop, halive, harmed, hdrain⟩, ⟨hperm, hback⟩, ⟨hsnap, hdone⟩⟩ := hi
  unfold stopPush at h
  split at h
  · obtain rfl := Option.some.inj h
    have hflow : ({ s with taskQueue := s.taskQueue.push none, stopping := s.stopping - 1 } :
        State τ).flow = s.flow := by simp [State.flow]
    exact ⟨⟨hidle, fun hpc => List.append_ne_nil_of_left_ne_nil (hpop hpc) _, halive, harmed,
      hdrain⟩, ⟨hflow ▸ hperm, hflow ▸ hback⟩, ⟨hsnap, hdone⟩⟩
  · cases h

/-- **The invariant holds along every run.** -/
theorem inv_of_reachable (h : (queueMachine τ).Reachable s) : Inv s := by
  refine h.invariant (fun s hs => hs ▸ inv_started) fun s a s' hi _ hs => ?_
  rcases a with task | task | _ | _ | _
  · exact Option.some.inj hs ▸ inv_enqueueTask hi task
  · exact Option.some.inj hs ▸ inv_enqueueTaskFront hi task
  · exact Option.some.inj hs ▸ inv_stop hi
  · exact inv_stopPush hs hi
  · exact (works_of_work hs).inv hi

/-- **The main queue loses nothing, duplicates nothing and drains on `Stop`.**
The tasks run, running, left in the batch and in the queue are the tasks
pushed; those pushed by `EnqueueTask` are run in push order; `Pop` never
meets an empty queue; and `Work` returns only with every task run that was
pushed before the first `Stop` of a thread that had set `isRunning`. -/
theorem mainQueue_accounted (h : (queueMachine τ).Reachable s) :
    (s.ran ++ s.pc.running ++ s.deq.reduceOption ++ s.taskQueue.tasks).Perm s.pushed ∧
    (s.ran ++ s.pc.running).filter Ticket.isBack <+: s.pushed.filter Ticket.isBack ∧
    ((s.pc = .pop → s.taskQueue.queueMessages ≠ []) ∧ s.pc ≠ .terminated) ∧
    (s.pc = .returned → ∃ l, s.atStop = some l ∧ l.Subperm s.ran) := by
  have hi : Inv s := inv_of_reachable h
  have hback := hi.conserved.back
  refine ⟨hi.conserved.perm, ?_, ⟨hi.control.pop, hi.control.alive⟩, fun hpc => ?_⟩
  · rw [← hback, State.flow, List.append_assoc _ _ s.taskQueue.tasks, List.filter_append _ (_ ++ _)]
    exact List.prefix_append ..
  · have hstop : s.atStop ≠ none := hi.control.draining (by rw [hpc]; rfl)
    obtain ⟨l, hl⟩ := Option.ne_none_iff_exists'.mp hstop
    exact ⟨l, hl, hi.drains.drained (by rw [hpc]; rfl) l hl⟩

/-- A task from each end, run around a call of `Stop`. -/
def stoppedRun : List (Action ℕ) :=
  [.work, .work, .enqueueTask (some 1), .work, .work, .enqueueTask (some 2), .stop,
    .enqueueTaskFront (some 3), .work, .work, .work, .work, .work, .work, .work, .work, .work,
    .stopPush, .work, .work, .work, .work]

/-- Where that run ends. -/
def stoppedEnd : State ℕ where
  isRunning := false
  taskQueue := ⟨[]⟩
  pc := .returned
  deq := []
  stopping := 0
  ran := [⟨1, .enqueueTask⟩, ⟨3, .enqueueTaskFront⟩, ⟨2, .enqueueTask⟩]
  pushed := [⟨1, .enqueueTask⟩, ⟨2, .enqueueTask⟩, ⟨3, .enqueueTaskFront⟩]
  atStop := some [⟨1, .enqueueTask⟩, ⟨2, .enqueueTask⟩]

theorem stoppedRun_accounted :
    (stoppedEnd.ran ++ stoppedEnd.pc.running ++ stoppedEnd.deq.reduceOption ++
        stoppedEnd.taskQueue.tasks).Perm stoppedEnd.pushed ∧
    (stoppedEnd.ran ++ stoppedEnd.pc.running).filter Ticket.isBack <+:
        stoppedEnd.pushed.filter Ticket.isBack ∧
    ((stoppedEnd.pc = .pop → stoppedEnd.taskQueue.queueMessages ≠ []) ∧
        stoppedEnd.pc ≠ .terminated) ∧
    (stoppedEnd.pc = .returned → ∃ l, stoppedEnd.atStop = some l ∧ l.Subperm stoppedEnd.ran) :=
  mainQueue_accounted (System.reachable_of_exec stoppedRun rfl (by decide))

end Worker

end VerAI
