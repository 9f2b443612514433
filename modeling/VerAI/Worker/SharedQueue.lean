import VerAI.Worker.MessageQueue
import VerAI.Lib.Monitor
import Mathlib.Data.Multiset.AddSub
/-!
# The message queue among its threads

`MessageQueue` as it is written: each method takes the mutex, the two that wait
test the deque again whenever they wake, and the two that add an element notify
under the mutex. Any number of threads call it. A wait with a time limit is one
that may wake by itself, as every wait may.

The elements are taken and left as by the atomic operations that the working
thread is made of.
-/

namespace VerAI

namespace Worker

open Transition (System)
open Transition.Monitors (Event Exec Methods MonitorState AtomicState Stage Implements Next Stuck
  machine atomicMachine exists_simulates acc_of_reachable)

universe u v

/-- The calls of a queue, the ones with a pointer to fill saying whether they
give one. -/
inductive QueueCall (α : Type u)
  | push (item : α)
  | pushFront (item : α)
  | isEmpty
  | pop (given : Bool)
  | wait (given : Bool)
  | waitAndReturnAll (given : Bool)
  | clear
  deriving DecidableEq, Repr

/-- What a call ends with. -/
inductive QueueReturn (α : Type u)
  | returned
  | isEmpty (b : Bool)
  | item (item : α)
  | deq (deq : List α)
  | invalidArgument (what : String)
  | threw (e : QueueExn)
  deriving DecidableEq, Repr

/-- The statements under the mutex. -/
inductive QueueOp (α : Type u)
  | pushBack (item : α)
  | pushFront (item : α)
  | empty
  /-- The test of `Pop`. -/
  | ifEmpty
  /-- The loop that waits. -/
  | whileEmpty
  | front
  | popFront
  | throw
  | clearDeq
  | swap
  | clear
  deriving DecidableEq, Repr

variable {α : Type u}

/-- What a statement does to the deque and to what is to be returned. -/
def QueueOp.exec : Exec (QueueOp α) (MessageQueue α) (QueueReturn α)
  | .pushBack item, q, v => (⟨q.queueMessages ++ [item]⟩, v, [])
  | .pushFront item, q, v => (⟨item :: q.queueMessages⟩, v, [])
  | .empty, q, _ => (q, .isEmpty q.queueMessages.isEmpty, [])
  | .ifEmpty, q, v =>
    (q, v, if !q.queueMessages.isEmpty then [.op .front, .op .popFront] else [.op .throw])
  | .whileEmpty, q, v => (q, v, if q.queueMessages.isEmpty then [.wait, .op .whileEmpty] else [])
  | .front, q, v => (q, q.queueMessages.head?.elim v .item, [])
  | .popFront, q, v => (⟨q.queueMessages.tail⟩, v, [])
  | .throw, q, _ => (q, .threw (.runtimeError "Can't pop queue"), [])
  | .clearDeq, q, _ => (q, .deq [], [])
  | .swap, q, .deq deq => (⟨deq⟩, .deq q.queueMessages, [])
  | .swap, q, v => (q, v, [])
  | .clear, _, v => (⟨[]⟩, v, [])

/-- The methods of `message_queue.h`. -/
def queueMethods (α : Type u) : Methods (QueueOp α) (QueueReturn α) (QueueCall α) where
  program
    | .push item => [.lock, .op (.pushBack item), .notifyAll, .unlock, .ret]
    | .pushFront item => [.lock, .op (.pushFront item), .notifyAll, .unlock, .ret]
    | .isEmpty => [.lock, .op .empty, .unlock, .ret]
    | .pop true => [.lock, .op .ifEmpty, .unlock, .ret]
    | .wait true => [.lock, .op .whileEmpty, .op .front, .op .popFront, .unlock, .ret]
    | .waitAndReturnAll true => [.lock, .op .whileEmpty, .op .clearDeq, .op .swap, .unlock, .ret]
    | .clear => [.lock, .op .clear, .unlock, .ret]
    | .pop false => [.ret]
    | .wait false => [.ret]
    | .waitAndReturnAll false => [.ret]
  start
    | .pop false => .invalidArgument "Argument can't be NULL"
    | .wait false => .invalidArgument "Argument can't be NULL"
    | .waitAndReturnAll false => .invalidArgument "Argument can't be NULL"
    | _ => .returned

/-- The calls as operations on a `MessageQueue`. -/
def QueueCall.atomic : QueueCall α → MessageQueue α → Option (MessageQueue α × QueueReturn α)
  | .push item, q => some (q.push item, .returned)
  | .pushFront item, q => some (q.pushFront item, .returned)
  | .isEmpty, q => some (q, .isEmpty q.isEmpty)
  | .pop true, q =>
    match q.pop with
    | .ok (item, q') => some (q', .item item)
    | .error e => some (q, .threw e)
  | .wait true, q => q.wait.map fun (item, q') => (q', .item item)
  | .waitAndReturnAll true, q => q.waitAndReturnAll.map fun (deq, q') => (q', .deq deq)
  | .clear, q => some (q.clear, .returned)
  | .pop false, q => some (q, .invalidArgument "Argument can't be NULL")
  | .wait false, q => some (q, .invalidArgument "Argument can't be NULL")
  | .waitAndReturnAll false, q => some (q, .invalidArgument "Argument can't be NULL")

section Machine

variable (α) (θ : Type v) [DecidableEq θ]

/-- **The queue**, each statement a step. -/
abbrev queueMonitor :
    System (MonitorState θ (QueueOp α) (MessageQueue α) (QueueReturn α) (QueueCall α))
      (Transition.Monitors.Action θ (QueueCall α)) :=
  machine QueueOp.exec (queueMethods α) ⟨[]⟩

/-- The queue, each call a step. -/
abbrev atomicQueue : System (AtomicState θ (MessageQueue α) (QueueReturn α) (QueueCall α))
    (Transition.Monitors.AtomicAction θ (QueueCall α)) :=
  atomicMachine QueueCall.atomic ⟨[]⟩

end Machine

/-- A call waits on the empty queue only. -/
theorem eq_empty_of_atomic {r : QueueCall α} {q : MessageQueue α} (h : r.atomic q = none) :
    q = ⟨[]⟩ := by
  obtain ⟨_ | ⟨item, rest⟩⟩ := q
  · rfl
  · cases r with
    | push _ => cases h
    | pushFront _ => cases h
    | isEmpty => cases h
    | clear => cases h
    | pop given => cases given <;> cases h
    | wait given => cases given <;> cases h
    | waitAndReturnAll given => cases given <;> cases h

/-- Nothing is enabled by a call that leaves an empty queue empty. -/
theorem quiet_of_empty {q q' : MessageQueue α} (hq : q = ⟨[]⟩ → q' = ⟨[]⟩) (r : QueueCall α)
    (h : r.atomic q = none) : r.atomic q' = none := by
  have hempty := eq_empty_of_atomic h
  rw [hq hempty, ← hempty]
  exact h

/-- **Each method is its operation**, made of single statements. -/
theorem queueMethods_implement (r : QueueCall α) :
    Implements QueueOp.exec (queueMethods α) QueueCall.atomic r := by
  cases r with
  | push item =>
    refine .guarded _ rfl (fun _ h => by cases h) fun d d' v h => ?_
    cases h
    exact ⟨1, 4, .op (.notifyAll .unlock), nofun⟩
  | pushFront item =>
    refine .guarded _ rfl (fun _ h => by cases h) fun d d' v h => ?_
    cases h
    exact ⟨1, 4, .op (.notifyAll .unlock), nofun⟩
  | isEmpty =>
    refine .guarded _ rfl (fun _ h => by cases h) fun d d' v h => ?_
    cases h
    exact ⟨0, 3, .op .unlock, fun _ _ h => h⟩
  | clear =>
    refine .guarded _ rfl (fun _ h => by cases h) fun d d' v h => ?_
    cases h
    exact ⟨0, 3, .op .unlock, fun _ => quiet_of_empty fun _ => rfl⟩
  | pop given =>
    cases given with
    | false => exact .direct rfl fun _ => rfl
    | true =>
      refine .guarded _ rfl (fun d h => ?_) fun d d' v h => ?_
      all_goals obtain ⟨_ | ⟨item, rest⟩⟩ := d; all_goals cases h
      -- `Pop` of an empty queue throws under the lock, which the guard gives back
      · exact ⟨0, 4, .op (.op .unlock), fun _ _ h => h⟩
      · exact ⟨0, 5, .op (.op (.op .unlock)), fun _ => quiet_of_empty nofun⟩
  | wait given =>
    cases given with
    | false => exact .direct rfl fun _ => rfl
    | true =>
      refine .guarded _ rfl (fun d h => ?_) fun d d' v h => ?_
      all_goals obtain ⟨_ | ⟨item, rest⟩⟩ := d; all_goals cases h
      -- `while(empty) wait` on an empty queue comes to the wait, and then to `lock` again
      · exact ⟨2, .op .wait⟩
      · exact ⟨0, 5, .op (.op (.op .unlock)), fun _ => quiet_of_empty nofun⟩
  | waitAndReturnAll given =>
    cases given with
    | false => exact .direct rfl fun _ => rfl
    | true =>
      refine .guarded _ rfl (fun d h => ?_) fun d d' v h => ?_
      all_goals obtain ⟨_ | ⟨item, rest⟩⟩ := d; all_goals cases h
      · exact ⟨2, .op .wait⟩
      · exact ⟨0, 5, .op (.op (.op .unlock)), fun _ => quiet_of_empty nofun⟩

section Runs

variable {θ : Type v} [DecidableEq θ]
  {s : MonitorState θ (QueueOp α) (MessageQueue α) (QueueReturn α) (QueueCall α)}

/-- **The queue is linearizable.** What its threads call and are returned in any
run, in this order, is what they could be if each call took effect at once. -/
theorem queue_linearizable (h : (queueMonitor α θ).Reachable s) :
    ∃ a, (atomicQueue α θ).Reachable a ∧ a.history = s.history ∧
      (s.holder = none → a.data = s.data) := by
  obtain ⟨a, n, k, ha, hsim⟩ := exists_simulates queueMethods_implement h
  exact ⟨a, ha, hsim.history, fun hfree => (hsim.free hfree).1.symm⟩

/-- **The threads come to rest and no wake-up is lost.** Left to themselves they
stop, and those whose call has not returned then wait on an empty queue. -/
theorem queue_rests (h : (queueMonitor α θ).Reachable s) :
    Acc (Next QueueOp.exec) s ∧ (Stuck QueueOp.exec s → ∀ t, s.code t = [] ∨
      (s.code t).head? = some .asleep ∧ s.data = ⟨[]⟩) := by
  refine ⟨acc_of_reachable queueMethods_implement h, fun hstuck t => ?_⟩
  obtain ⟨a, n, k, -, hsim⟩ := exists_simulates queueMethods_implement h
  exact (hsim.of_stuck hstuck).imp id fun ⟨hasleep, _, _, hnone⟩ =>
    ⟨hasleep, eq_empty_of_atomic hnone⟩

/-! ## No element is lost or taken twice -/

/-- The elements a call adds. -/
@[simp] def QueueCall.adds : QueueCall α → List α
  | .push item => [item]
  | .pushFront item => [item]
  | _ => []

/-- The elements a return gives away. -/
@[simp] def QueueReturn.takes : QueueReturn α → List α
  | .item a => [a]
  | .deq l => l
  | _ => []

/-- What has been added in a history. -/
def added (history : List (Event θ (QueueCall α) (QueueReturn α))) : Multiset α :=
  (history.flatMap fun
    | .called _ r => r.adds
    | .returned _ _ => [] : List α)

/-- What has been taken. -/
def taken (history : List (Event θ (QueueCall α) (QueueReturn α))) : Multiset α :=
  (history.flatMap fun
    | .called _ _ => []
    | .returned _ v => v.takes : List α)

/-- What is between a thread and the queue. -/
@[simp] def between : Stage (QueueCall α) (QueueReturn α) → Multiset α
  | .idle => 0
  | .called r => (r.adds : List α)
  | .answered v => (v.takes : List α)

omit [DecidableEq θ] in
@[simp] theorem added_append (l l' : List (Event θ (QueueCall α) (QueueReturn α))) :
    added (l ++ l') = added l + added l' := by
  simp [added]

omit [DecidableEq θ] in
@[simp] theorem taken_append (l l' : List (Event θ (QueueCall α) (QueueReturn α))) :
    taken (l ++ l') = taken l + taken l' := by
  simp [taken]

omit [DecidableEq θ] in
theorem added_called (t : θ) (r : QueueCall α) : added [.called t r] = r.adds := by
  simp [added]

omit [DecidableEq θ] in
theorem added_returned (t : θ) (v : QueueReturn α) : added [.returned t v] = 0 := rfl

omit [DecidableEq θ] in
theorem taken_called (t : θ) (r : QueueCall α) : taken [.called t r] = 0 := rfl

omit [DecidableEq θ] in
theorem taken_returned (t : θ) (v : QueueReturn α) : taken [.returned t v] = v.takes := by
  simp [taken]

theorem coe_cons (a : α) (l : List α) : (↑(a :: l) : Multiset α) = l + {a} := by
  rw [← Multiset.cons_coe, ← Multiset.singleton_add, add_comm]

/-- An operation moves elements between its thread and the queue. Only `Clear`
makes some disappear. -/
theorem atomic_balance {r : QueueCall α} {q q' : MessageQueue α} {v : QueueReturn α}
    (h : r.atomic q = some (q', v)) : ∃ cleared : Multiset α, (cleared ≠ 0 → r = .clear) ∧
      (q.queueMessages + r.adds : Multiset α) = q'.queueMessages + v.takes + cleared := by
  obtain ⟨messages⟩ := q
  cases r with
  | push item =>
    cases h
    exact ⟨0, nofun, by simp [MessageQueue.push, ← Multiset.coe_add]⟩
  | pushFront item =>
    cases h
    exact ⟨0, nofun, by simp [MessageQueue.pushFront, coe_cons]⟩
  | isEmpty =>
    cases h
    exact ⟨0, nofun, by simp⟩
  | clear =>
    cases h
    exact ⟨messages, fun _ => rfl, by simp [MessageQueue.clear]⟩
  | pop given =>
    refine ⟨0, nofun, ?_⟩
    cases given with
    | false => cases h; simp
    | true => rcases messages with _ | ⟨item, rest⟩ <;> cases h <;> simp [coe_cons]
  | wait given =>
    refine ⟨0, nofun, ?_⟩
    cases given with
    | false => cases h; simp
    | true => rcases messages with _ | ⟨item, rest⟩ <;> cases h; simp [coe_cons]
  | waitAndReturnAll given =>
    refine ⟨0, nofun, ?_⟩
    cases given with
    | false => cases h; simp
    | true => rcases messages with _ | ⟨item, rest⟩ <;> cases h; simp

/-- **The balance of the elements**, `T` being the threads that have called and
`cleared` what has disappeared. -/
structure Balanced (a : AtomicState θ (MessageQueue α) (QueueReturn α) (QueueCall α)) (T : Finset θ)
    (cleared : Multiset α) : Prop where
  idle : ∀ t, t ∉ T → a.stage t = .idle
  asked : ∀ t r, a.stage t = .called r → .called t r ∈ a.history
  clears : cleared ≠ 0 → ∃ t, .called t .clear ∈ a.history
  balance : added a.history =
    taken a.history + a.data.queueMessages + ∑ t ∈ T, between (a.stage t) + cleared

section Balanced

variable {a a' : AtomicState θ (MessageQueue α) (QueueReturn α) (QueueCall α)} {T : Finset θ}
  {t : θ} {cleared cleared' : Multiset α}

theorem Balanced.insert (hb : Balanced a T cleared) (t : θ) : Balanced a (insert t T) cleared where
  idle t' ht' := hb.idle t' fun h => ht' (Finset.mem_insert_of_mem h)
  asked := hb.asked
  clears := hb.clears
  balance := by
    by_cases ht : t ∈ T
    · rw [Finset.insert_eq_of_mem ht]
      exact hb.balance
    · rw [Finset.sum_insert_zero (by rw [hb.idle t ht]; rfl)]
      exact hb.balance

/-- The balance after a step of one thread. -/
theorem Balanced.of_thread (hb : Balanced a T cleared) (ht : t ∈ T)
    {st : Stage (QueueCall α) (QueueReturn α)} (hstage : a'.stage = Function.update a.stage t st)
    (hmore : ∀ e ∈ a.history, e ∈ a'.history) (hasked : ∀ r, st = .called r →
      .called t r ∈ a'.history) (hclears : cleared' ≠ 0 → ∃ t, .called t .clear ∈ a'.history)
    (hbalance : ∀ others, added a.history =
        taken a.history + a.data.queueMessages + others + cleared →
      added a'.history + between (a.stage t) =
        taken a'.history + a'.data.queueMessages + (others + between st) + cleared') :
    Balanced a' T cleared' where
  idle t' ht' := by
    rw [hstage, Function.update_of_ne (ne_of_mem_of_not_mem ht ht').symm]
    exact hb.idle t' ht'
  asked t' r h := by
    rw [hstage] at h
    by_cases hne : t' = t
    · subst hne
      rw [Function.update_self] at h
      exact hasked r h
    · rw [Function.update_of_ne hne] at h
      exact hmore _ (hb.asked t' r h)
  clears := hclears
  balance := by
    have hsum : ∑ t' ∈ T, between (a'.stage t') + between (a.stage t) =
        ∑ t' ∈ T, between (a.stage t') + between st := by
      rw [hstage]
      exact Transition.Monitors.sum_update ht between rfl rfl
    refine add_right_cancel (b := between (a.stage t)) ?_
    rw [hbalance _ hb.balance, ← hsum]
    abel

theorem exists_balanced (h : (atomicQueue α θ).Reachable a) :
    ∃ T cleared, Balanced a T cleared := by
  refine System.ReachableUnder.invariant (I := fun a => ∃ T cleared, Balanced a T cleared) h ?_ ?_
  · rintro a rfl
    exact ⟨∅, 0, fun _ _ => rfl, fun _ _ h => (by cases h),
      fun hne => absurd rfl hne, rfl⟩
  · rintro a act a' ⟨T, cleared, hb⟩ - hs
    simp only [atomicMachine] at hs
    cases act with
    | call t r =>
      simp only at hs
      split at hs
      · rename_i hst
        obtain rfl := Option.some.inj hs
        refine ⟨_, cleared, (hb.insert t).of_thread (Finset.mem_insert_self t T) rfl
          (fun e he => List.mem_append_left _ he) (fun r' h => by simp [Stage.called.inj h])
          (fun hne => ?_) fun others h => ?_⟩
        · obtain ⟨t', ht'⟩ := hb.clears hne
          exact ⟨t', List.mem_append_left _ ht'⟩
        · simp only [added_append, taken_append, added_called, taken_called, h, hst, between]
          abel
      · cases hs
    -- what a call adds is added when it is called, and what it takes is taken when it
    -- returns; in between stands the effect, which puts the one in and takes the other out
    | effect t =>
      simp only at hs
      split at hs
      · rename_i r hst
        obtain ⟨⟨q, v⟩, ha, hs⟩ := Option.map_eq_some_iff.mp hs
        obtain rfl := hs
        obtain ⟨more, hclear, hbalance⟩ := atomic_balance ha
        refine ⟨_, cleared + more, (hb.insert t).of_thread (Finset.mem_insert_self t T) rfl
          (fun _ => id) (fun _ h => by cases h) (fun hne => ?_) fun others h => ?_⟩
        · by_cases hmore : more = 0
          · exact hb.clears (by simpa [hmore] using hne)
          · exact ⟨t, hclear hmore ▸ hb.asked t r hst⟩
        · calc added a.history + between (a.stage t)
            _ = taken a.history + others + cleared + (a.data.queueMessages + r.adds) := by
              rw [h, hst, between]
              abel
            _ = taken a.history + others + cleared + (q.queueMessages + v.takes + more) := by
              rw [hbalance]
            _ = taken a.history + q.queueMessages + (others + between (.answered v)) +
                (cleared + more) := by
              rw [between]
              abel
      · cases hs
    | ret t =>
      simp only at hs
      split at hs
      · rename_i v hst
        obtain rfl := Option.some.inj hs
        refine ⟨_, cleared, (hb.insert t).of_thread (Finset.mem_insert_self t T) rfl
          (fun e he => List.mem_append_left _ he) (fun _ h => by cases h) (fun hne => ?_)
          fun others h => ?_⟩
        · obtain ⟨t', ht'⟩ := hb.clears hne
          exact ⟨t', List.mem_append_left _ ht'⟩
        · simp only [added_append, taken_append, added_returned, taken_returned, h, hst, between]
          abel
      · cases hs

end Balanced

/-- **No element is taken twice, and none is lost.** What is taken has been
added, as often; and where every call has returned and none has cleared the
queue, what has been added and not taken is in it. -/
theorem queue_conserves (h : (queueMonitor α θ).Reachable s) :
    taken s.history ≤ added s.history ∧ ((∀ t, s.code t = []) →
      (∀ t, .called t .clear ∉ s.history) →
        added s.history = taken s.history + s.data.queueMessages) := by
  obtain ⟨a, n, k, ha, hsim⟩ := exists_simulates queueMethods_implement h
  obtain ⟨T, cleared, hb⟩ := exists_balanced ha
  have hbalance := hb.balance
  rw [hsim.history] at hbalance
  refine ⟨?_, fun hidle hclear => ?_⟩
  · rw [hbalance, add_assoc, add_assoc]
    exact Multiset.le_add_right _ _
  · have hstage : ∀ t, s.holder ≠ some t ∧ a.stage t = .idle := fun t =>
      hsim.stage_of_nil (hidle t)
    have hfree : s.holder = none := Option.eq_none_iff_forall_ne_some.mpr fun t => (hstage t).1
    -- with every call returned nothing is under way
    have hcleared : cleared = 0 := by
      by_contra hne
      obtain ⟨t, ht⟩ := hb.clears hne
      exact hclear t (hsim.history ▸ ht)
    have hsum : ∑ t ∈ T, between (a.stage t) = 0 :=
      Finset.sum_eq_zero fun t _ => by rw [(hstage t).2]; rfl
    rw [hbalance, hsum, hcleared, (hsim.free hfree).1, add_zero, add_zero]

end Runs

/-! ## One thread waits, another adds -/

/-- A queue without elements and two threads without calls. -/
def emptyQueue : MonitorState Bool (QueueOp ℕ) (MessageQueue ℕ) (QueueReturn ℕ) (QueueCall ℕ) :=
  ⟨fun _ => [], fun _ => .returned, none, ⟨[]⟩, []⟩

/-- A call, as far as these many steps. -/
def callFor (t : Bool) (r : QueueCall ℕ) (steps : ℕ) :
    List (Transition.Monitors.Action Bool (QueueCall ℕ)) :=
  .call t r :: List.replicate steps (.advance t)

/-- One thread waits, and takes what the other one adds. -/
def waitAndPush : List (Transition.Monitors.Action Bool (QueueCall ℕ)) :=
  callFor true (.wait true) 3 ++ callFor false (.push 7) 5 ++ List.replicate 6 (.advance true)

theorem exec_waitAndPush : ((queueMonitor ℕ Bool).exec emptyQueue waitAndPush).map (fun s =>
    (s.history, s.code true, s.code false, s.data.queueMessages)) =
      some ([.called true (.wait true), .called false (.push 7), .returned false .returned,
        .returned true (.item 7)], [], [], []) := rfl

theorem waitAndPush_linearizable : ∃ a, (atomicQueue ℕ Bool).Reachable a ∧ a.history =
    [.called true (.wait true), .called false (.push 7), .returned false .returned,
      .returned true (.item 7)] := by
  obtain ⟨s, hs, hend⟩ := Option.map_eq_some_iff.mp exec_waitAndPush
  obtain ⟨a, ha, hhistory, -⟩ := queue_linearizable
    (System.reachable_of_exec waitAndPush ⟨fun _ => rfl, rfl, rfl, rfl⟩ hs)
  exact ⟨a, ha, hhistory.trans (Prod.mk.inj hend).1⟩

/-- A thread waits, and nobody adds anything. -/
theorem wait_rests : ∃ s, (queueMonitor ℕ Bool).Reachable s ∧ Stuck QueueOp.exec s ∧
    s.code true ≠ [] ∧ s.data = ⟨[]⟩ := by
  obtain ⟨s, hs⟩ := Option.isSome_iff_exists.mp (show ((queueMonitor ℕ Bool).exec emptyQueue
    (callFor true (.wait true) 3)).isSome by decide)
  have hr : (queueMonitor ℕ Bool).Reachable s :=
    System.reachable_of_exec _ ⟨fun _ => rfl, rfl, rfl, rfl⟩ hs
  have hstuck : Stuck QueueOp.exec s := by
    obtain rfl := Option.some.inj hs
    intro t
    cases t <;> rfl
  have hcode : s.code true ≠ [] := by
    obtain rfl := Option.some.inj hs
    exact List.cons_ne_nil _ _
  exact ⟨s, hr, hstuck, hcode, (((queue_rests hr).2 hstuck true).resolve_left hcode).2⟩

theorem waitAndPush_conserves : ∃ s, (queueMonitor ℕ Bool).Reachable s ∧
    added s.history = {7} ∧ added s.history = taken s.history + s.data.queueMessages := by
  obtain ⟨s, hs, hend⟩ := Option.map_eq_some_iff.mp exec_waitAndPush
  obtain ⟨hhistory, htrue, hfalse, -⟩ := by simpa only [Prod.mk.injEq] using hend
  have hr : (queueMonitor ℕ Bool).Reachable s :=
    System.reachable_of_exec _ ⟨fun _ => rfl, rfl, rfl, rfl⟩ hs
  refine ⟨s, hr, by rw [hhistory]; rfl, (queue_conserves hr).2 (fun t => ?_) fun t => ?_⟩
  · cases t
    · exact hfalse
    · exact htrue
  · rw [hhistory]
    cases t <;> decide

end Worker

end VerAI
