import Mathlib.Data.List.ReduceOption
import Mathlib.Data.List.Perm.Subperm
/-!
# The message queue of the daemon

`MessageQueue` guards a deque with one mutex, so each of its operations is
one step on the list of its elements. The queue of a working thread holds
pointers to tasks; what the queue carries is read off with `tasks`, which
skips the null pointers.
-/

namespace VerAI

namespace Worker

universe u

/-- What `Pop` throws. -/
inductive QueueExn
  | runtimeError (what : String)
  deriving DecidableEq, Repr

/-- `MessageQueue<T>`: the front of the deque is the head of the list. -/
structure MessageQueue (α : Type u) where
  queueMessages : List α
  deriving DecidableEq, Repr

namespace MessageQueue

variable {α : Type u}

/-- `MessageQueue::Push`. -/
def push (q : MessageQueue α) (item : α) : MessageQueue α :=
  ⟨q.queueMessages ++ [item]⟩

/-- `MessageQueue::PushFront`. -/
def pushFront (q : MessageQueue α) (item : α) : MessageQueue α :=
  ⟨item :: q.queueMessages⟩

/-- `MessageQueue::IsEmpty`. -/
def isEmpty (q : MessageQueue α) : Bool :=
  q.queueMessages.isEmpty

/-- `MessageQueue::Pop`, the element and the queue left. -/
def pop (q : MessageQueue α) : Except QueueExn (α × MessageQueue α) :=
  match q.queueMessages with
  | item :: rest => .ok (item, ⟨rest⟩)
  | [] => .error (.runtimeError "Can't pop queue")

/-- `MessageQueue::Wait`, the element and the queue left; `none` where the loop
goes back to wait. -/
def wait (q : MessageQueue α) : Option (α × MessageQueue α) :=
  match q.queueMessages with
  | item :: rest => some (item, ⟨rest⟩)
  | [] => none

/-- `MessageQueue::WaitAndReturnAll`, the deque swapped out and the queue
left; `none` where the loop goes back to wait, whatever woke it. -/
def waitAndReturnAll (q : MessageQueue α) : Option (List α × MessageQueue α) :=
  match q.queueMessages with
  | [] => none
  | deq => some (deq, ⟨[]⟩)

/-- `MessageQueue::Clear`. -/
def clear (_ : MessageQueue α) : MessageQueue α :=
  ⟨[]⟩

theorem isEmpty_iff {q : MessageQueue α} : q.isEmpty = true ↔ q.queueMessages = [] :=
  List.isEmpty_iff

/-- **`Pop` throws on an empty queue and on no other.** -/
theorem pop_ok_iff {q q' : MessageQueue α} {item : α} :
    q.pop = .ok (item, q') ↔ q.queueMessages = item :: q'.queueMessages := by
  unfold pop
  obtain ⟨messages⟩ := q'
  rcases q.queueMessages with _ | ⟨a, rest⟩ <;> simp

theorem pop_error_iff {q : MessageQueue α} {e : QueueExn} :
    q.pop = .error e ↔ q.queueMessages = [] ∧ e = .runtimeError "Can't pop queue" := by
  unfold pop
  rcases q.queueMessages with _ | ⟨a, rest⟩ <;> simp [eq_comm]

/-- A batch is the whole queue, and is never empty. -/
theorem waitAndReturnAll_eq_some_iff {q q' : MessageQueue α} {deq : List α} :
    q.waitAndReturnAll = some (deq, q') ↔
      q.queueMessages ≠ [] ∧ deq = q.queueMessages ∧ q'.queueMessages = [] := by
  unfold waitAndReturnAll
  obtain ⟨messages⟩ := q'
  rcases q.queueMessages with _ | ⟨a, rest⟩ <;> simp [eq_comm]

/-- The tasks among the pointers a queue holds. -/
def tasks (q : MessageQueue (Option α)) : List α :=
  q.queueMessages.reduceOption

variable {q : MessageQueue (Option α)}

@[simp] theorem tasks_push_some (t : α) : (q.push (some t)).tasks = q.tasks ++ [t] := by
  simp [tasks, push, List.reduceOption_append]

@[simp] theorem tasks_push_none : (q.push none).tasks = q.tasks := by
  simp [tasks, push, List.reduceOption_append]

@[simp] theorem tasks_pushFront_some (t : α) : (q.pushFront (some t)).tasks = t :: q.tasks :=
  List.reduceOption_cons_of_some t _

@[simp] theorem tasks_pushFront_none : (q.pushFront none).tasks = q.tasks :=
  List.reduceOption_cons_of_none _

end MessageQueue

end Worker

end VerAI
