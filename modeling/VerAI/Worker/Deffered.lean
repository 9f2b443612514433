import VerAI.Lib.Transition
import VerAI.Lib.Comparator
import Mathlib.Data.List.Perm.Basic
import Mathlib.Tactic.Linarith
import Mathlib.Tactic.ByContra
/-!
# The deferred tasks of a working thread

`DefferedTasksHandler` keeps with each task the milliseconds still to wait.
After a wait it charges the length of that wait to every entry of the list,
those added while it waited included: such a task is charged for time before
it was added and can be moved early. A task is on time as long as no pass
charges it for more than the time since it was added.

Times are in the ticks of the clock, nanoseconds. `defferedTasksMtx` is held
by the handler except while it waits, so the other calls step only there;
the clock may advance anywhere. The pass and the waits are separate steps,
the clock being read in both. A wakeup is always enabled, which covers the
timeout, the notifications and the spurious ones.
-/

namespace VerAI

namespace Worker

open Transition (System)

universe u

/-- `WorkingThread::DefferedTask`. -/
structure DefferedTask (α : Type u) where
  taskToRun : α
  ms : BitVec 32
  deriving DecidableEq, Repr

/-- A call of `EnqueueTaskAfterTimeOut`: what was asked for, and when. -/
structure Request (τ : Type u) where
  task : τ
  addedAt : ℕ
  delay : BitVec 32
  deriving DecidableEq, Repr

/-- Where `DefferedTasksHandler` stands. -/
inductive HandlerPc
  /-- Before it takes the mutex. -/
  | start
  /-- At `while(IsRunning())`, holding the mutex. -/
  | whileRunning
  /-- In `wait_for`, `t1` having been read. -/
  | waiting (t1 : ℕ)
  | returned
  deriving DecidableEq, Repr

/-- The handler, its list and the clock. `moved` lists the tasks moved to the
main queue, each with the time of its move. -/
structure DefferedState (τ : Type u) where
  now : ℕ
  isRunning : Bool
  defferedTasksList : List (DefferedTask (Request τ))
  pc : HandlerPc
  nextWait : BitVec 32
  isFirstWait : Bool
  moved : List (Request τ × ℕ)
  deriving DecidableEq, Repr

/-- A call by some thread, the clock, or a step of the handler. -/
inductive DefferedAction (τ : Type u)
  | tick (n : ℕ)
  /-- A store to `isRunning`, by `Work` or `Stop`. -/
  | store (isRunning : Bool)
  | enqueueTaskAfterTimeOut (task : τ) (ms : BitVec 32)
  /-- The critical section of `Stop`. -/
  | clear
  | lock
  | whileRunning
  /-- The wakeup, with the order `qsort` leaves the list in. -/
  | wake (order : List (DefferedTask (Request τ)))

/-- Clock ticks in a millisecond. -/
def nsPerMs : ℕ := 1000000

/-- `updateDefferedTasksMS` -/
def updateDefferedTasksMS : BitVec 32 := 500

variable {α τ : Type u}

/-- The comparator of `qsort`: an unsigned difference returned as an `int`. -/
def compareMs (a b : DefferedTask α) : ℤ :=
  (a.ms - b.ms).toInt

/-- What `qsort` may leave: a permutation, in the order of the comparator
where the comparator is an order at all. -/
def Qsorted (list order : List (DefferedTask α)) : Prop :=
  order.Perm list ∧
    ((∀ a ∈ list, ∀ b ∈ list, a.ms.toNat < b.ms.toNat + 2 ^ 31) →
      order.Pairwise fun a b => compareMs a b ≤ 0)

instance [DecidableEq α] (list order : List (DefferedTask α)) : Decidable (Qsorted list order) :=
  inferInstanceAs (Decidable (_ ∧ _))

/-- `((*it).ms - curWait.count()) <= 0`, in the 64 bits of the count. -/
def isDue (curWait : ℕ) (it : DefferedTask α) : Bool :=
  (it.ms.toNat : ℤ) - curWait ≤ 0

/-- `(*it).ms -= curWait.count()` -/
def charge (curWait : ℕ) (it : DefferedTask α) : DefferedTask α :=
  { it with ms := BitVec.ofInt 32 (it.ms.toNat - curWait) }

/-- The loop over the list: the tasks enqueued and the list left. -/
def pass (curWait : ℕ) : List (DefferedTask α) → List α × List (DefferedTask α)
  | [] => ([], [])
  | it :: rest =>
    let (due, kept) := pass curWait rest
    if isDue curWait it then (it.taskToRun :: due, kept) else (due, charge curWait it :: kept)

/-- `curWait`, the wait from `t1` to now in whole milliseconds. -/
def curWait (s : DefferedState τ) (t1 : ℕ) : ℕ :=
  (s.now - t1) / nsPerMs

/-- The first wait only starts the count, the others are charged. -/
def afterWait (s : DefferedState τ) (t1 : ℕ) : DefferedState τ :=
  if s.isFirstWait then { s with isFirstWait := false }
  else
    let (due, kept) := pass (curWait s t1) s.defferedTasksList
    { s with defferedTasksList := kept, moved := s.moved ++ due.map fun r => (r, s.now) }

/-- The choice of `nextWait` at the end of the loop's body. -/
def chooseNextWait (s : DefferedState τ) : DefferedState τ :=
  match s.defferedTasksList with
  | first :: _ => { s with nextWait := first.ms, pc := .whileRunning }
  | [] => { s with isFirstWait := true, nextWait := updateDefferedTasksMS, pc := .whileRunning }

/-- The body of the loop from the wakeup on. -/
def wake [DecidableEq τ] (s : DefferedState τ) (order : List (DefferedTask (Request τ))) :
    Option (DefferedState τ) :=
  match s.pc with
  | .waiting t1 =>
    if s.defferedTasksList.isEmpty then some { s with pc := .whileRunning }
    else if Qsorted s.defferedTasksList order then
      some (chooseNextWait (afterWait { s with defferedTasksList := order } t1))
    else none
  | _ => none

/-- `EnqueueTaskAfterTimeOut` -/
def enqueueTaskAfterTimeOut (s : DefferedState τ) (task : τ) (ms : BitVec 32) :
    Option (DefferedState τ) :=
  if s.pc = .whileRunning then none
  else
    let entry : DefferedTask (Request τ) := ⟨⟨task, s.now, ms⟩, ms⟩
    some { s with defferedTasksList := s.defferedTasksList ++ [entry] }

/-- **The machine of the deferred tasks.** -/
def defferedMachine (τ : Type u) [DecidableEq τ] : System (DefferedState τ) (DefferedAction τ) where
  init s := s = ⟨0, false, [], .start, updateDefferedTasksMS, true, []⟩
  step s
    | .tick n => some { s with now := s.now + n }
    | .store isRunning => some { s with isRunning := isRunning }
    | .enqueueTaskAfterTimeOut task ms => enqueueTaskAfterTimeOut s task ms
    | .clear => if s.pc = .whileRunning then none else some { s with defferedTasksList := [] }
    | .lock => if s.pc = .start then some { s with pc := .whileRunning } else none
    | .whileRunning =>
      if s.pc = .whileRunning then
        some { s with pc := if s.isRunning then .waiting s.now else .returned }
      else none
    | .wake order => wake s order

/-! ## The pass -/

/-- A task is due where it has no more than the time charged to wait. -/
theorem isDue_iff {c : ℕ} {it : DefferedTask α} : isDue c it = true ↔ it.ms.toNat ≤ c := by
  simp [isDue]

/-- Else it waits the rest. -/
theorem charge_toNat {c : ℕ} {it : DefferedTask α} (h : isDue c it = false) :
    (charge c it).ms.toNat + c = it.ms.toNat := by
  have hlt : c < it.ms.toNat := by
    have hnot : ¬ it.ms.toNat ≤ c := fun hle => by simp [isDue_iff.mpr hle] at h
    omega
  have hbound : it.ms.toNat < 2 ^ 32 := it.ms.isLt
  have hmod : ((it.ms.toNat : ℤ) - c) % 2 ^ 32 = it.ms.toNat - c :=
    Int.emod_eq_of_lt (by omega) (by omega)
  simp only [charge, BitVec.toNat_ofInt]
  omega

/-- **What a pass does**: the tasks due are enqueued in list order, the others
are charged. -/
theorem pass_eq (c : ℕ) (list : List (DefferedTask α)) : pass c list =
    ((list.filter (isDue c)).map DefferedTask.taskToRun,
      (list.filter fun it => !isDue c it).map (charge c)) := by
  induction list with
  | nil => rfl
  | cons it rest ih =>
    rw [pass, ih]
    by_cases h : isDue c it = true
    · simp [h]
    · simp [Bool.eq_false_iff.mpr h]

/-! ## On time -/

/-- The earliest time a task may be moved at. -/
def Request.dueAt (r : Request τ) : ℕ :=
  r.addedAt + r.delay.toNat * nsPerMs

/-- No task was moved early. -/
def OnTime (s : DefferedState τ) : Prop :=
  ∀ p ∈ s.moved, p.1.dueAt ≤ p.2

/-- The start of the wait under way. -/
def DefferedState.waitStart (s : DefferedState τ) : Option ℕ :=
  match s.pc with
  | .waiting t1 => some t1
  | _ => none

/-- The time up to which the list has been charged. -/
def DefferedState.chargedUpTo (s : DefferedState τ) : ℕ :=
  s.waitStart.getD s.now

/-- A wakeup, at which a pass may follow. -/
def DefferedAction.isWake : DefferedAction τ → Bool
  | .wake _ => true
  | _ => false

/-- A pass finds no task added after the start of the wait it charges, but
for the part of a millisecond it does not charge, unless its time has come. -/
def ChargesListedTime (s : DefferedState τ) (a : DefferedAction τ) : Prop :=
  a.isWake = true → s.isFirstWait = false → ∀ t1 ∈ s.waitStart, ∀ it ∈ s.defferedTasksList,
    it.taskToRun.addedAt ≤ t1 + (s.now - t1) % nsPerMs ∨ it.taskToRun.dueAt ≤ s.now

instance (s : DefferedState τ) (a : DefferedAction τ) : Decidable (ChargesListedTime s a) :=
  inferInstanceAs (Decidable (_ → _ → _))

/-- What is known of an entry in any run: it has been charged nothing, or it
was there when the last wait began. -/
def Listed (s : DefferedState τ) (it : DefferedTask (Request τ)) : Prop :=
  it.taskToRun.addedAt ≤ s.now ∧
    (it.ms = it.taskToRun.delay ∨ it.taskToRun.addedAt ≤ s.chargedUpTo)

/-- An entry that has been charged for no more than the time since it was added. -/
def Timely (s : DefferedState τ) (it : DefferedTask (Request τ)) : Prop :=
  it.ms = it.taskToRun.delay ∨ it.taskToRun.dueAt ≤ s.chargedUpTo + it.ms.toNat * nsPerMs

/-- The invariant of any run. -/
structure WellTimed (s : DefferedState τ) : Prop where
  waitStart : ∀ t1 ∈ s.waitStart, t1 ≤ s.now
  listed : ∀ it ∈ s.defferedTasksList, Listed s it

/-- What has been charged is over. -/
theorem chargedUpTo_le {s : DefferedState τ} (h : ∀ t1 ∈ s.waitStart, t1 ≤ s.now) :
    s.chargedUpTo ≤ s.now := by
  unfold DefferedState.chargedUpTo
  rcases hw : s.waitStart with _ | t1
  · exact le_rfl
  · exact h t1 hw

/-! ## The steps of the handler -/

section Steps

variable {s s' : DefferedState τ}

/-- To choose the next wait moves no task. -/
theorem chooseNextWait_frame (s : DefferedState τ) :
    (chooseNextWait s).now = s.now ∧ (chooseNextWait s).isRunning = s.isRunning ∧
    (chooseNextWait s).defferedTasksList = s.defferedTasksList ∧
    (chooseNextWait s).moved = s.moved ∧ (chooseNextWait s).pc = .whileRunning ∧
    (s.defferedTasksList ≠ [] → (chooseNextWait s).isFirstWait = s.isFirstWait) := by
  unfold chooseNextWait
  rcases s.defferedTasksList with _ | ⟨it, rest⟩ <;> simp

/-- A pass over the list moves tasks and takes none back. -/
theorem afterWait_frame (s : DefferedState τ) (t1 : ℕ) :
    (afterWait s t1).isRunning = s.isRunning ∧ s.moved <+: (afterWait s t1).moved := by
  unfold afterWait
  split
  · exact ⟨rfl, List.prefix_rfl⟩
  · exact ⟨rfl, List.prefix_append ..⟩

/-- A wakeup that charges nothing: the list is empty or the wait the first. -/
structure Resumes (s s' : DefferedState τ) : Prop where
  uncharged : s.defferedTasksList = [] ∨ s.isFirstWait = true
  pc : s'.pc = .whileRunning
  now : s'.now = s.now
  list : s'.defferedTasksList.Perm s.defferedTasksList
  moved : s'.moved = s.moved

/-- A wakeup that charges the wait from `t1`. -/
structure Charges (s s' : DefferedState τ) (t1 : ℕ) : Prop where
  pc : s'.pc = .whileRunning
  now : s'.now = s.now
  isRunning : s'.isRunning = s.isRunning
  firstWait : s.isFirstWait = false
  mem_list : ∀ it', it' ∈ s'.defferedTasksList ↔
    ∃ it ∈ s.defferedTasksList, isDue (curWait s t1) it = false ∧ charge (curWait s t1) it = it'
  mem_moved : ∀ p, p ∈ s'.moved ↔ p ∈ s.moved ∨
    ∃ it ∈ s.defferedTasksList, isDue (curWait s t1) it = true ∧ (it.taskToRun, s.now) = p
  again : s'.defferedTasksList ≠ [] → s'.isFirstWait = false

variable [DecidableEq τ]

/-- What a wakeup computes: an empty list is left alone, any other goes through
the order `qsort` gives it. -/
theorem wake_eq_some {order : List (DefferedTask (Request τ))} (h : wake s order = some s') :
    ∃ t1, s.pc = .waiting t1 ∧
      (s.defferedTasksList = [] ∧ s' = { s with pc := .whileRunning } ∨
        Qsorted s.defferedTasksList order ∧
          s' = chooseNextWait (afterWait { s with defferedTasksList := order } t1)) := by
  unfold wake at h
  split at h
  case h_2 => cases h
  case h_1 t1 hpc =>
    refine ⟨t1, hpc, ?_⟩
    split at h
    case isTrue hnil => exact .inl ⟨List.isEmpty_iff.mp hnil, (Option.some.inj h).symm⟩
    case isFalse =>
      obtain ⟨hq, h⟩ := Option.ite_none_right_eq_some.mp h
      exact .inr ⟨hq, (Option.some.inj h).symm⟩

/-- **What a wakeup does.** -/
theorem wake_cases {order : List (DefferedTask (Request τ))} (h : wake s order = some s') :
    ∃ t1, s.waitStart = some t1 ∧ (Resumes s s' ∨ Charges s s' t1) := by
  obtain ⟨t1, hpc, ⟨hnil, rfl⟩ | ⟨hq, rfl⟩⟩ := wake_eq_some h
  · exact ⟨t1, by simp [DefferedState.waitStart, hpc], .inl ⟨.inl hnil, rfl, rfl, .refl _, rfl⟩⟩
  · refine ⟨t1, by simp [DefferedState.waitStart, hpc], ?_⟩
    obtain ⟨hnow, hrun, hlist, hmoved, hpc', hfirst⟩ :=
      chooseNextWait_frame (afterWait { s with defferedTasksList := order } t1)
    by_cases hf : s.isFirstWait = true
    · left
      rw [afterWait, if_pos hf] at hnow hlist hmoved hpc'
      rw [afterWait, if_pos hf]
      exact ⟨.inr hf, hpc', hnow, by rw [hlist]; exact hq.1, hmoved⟩
    · right
      rw [afterWait, if_neg hf, pass_eq] at hnow hrun hlist hmoved hpc' hfirst
      rw [afterWait, if_neg hf, pass_eq]
      have hcur : curWait { s with defferedTasksList := order } t1 = curWait s t1 := rfl
      rw [hcur] at hlist hmoved
      refine ⟨hpc', hnow, hrun, Bool.eq_false_iff.mpr hf, fun it' => ?_, fun p => ?_,
        fun hne => ?_⟩
      · rw [hcur, hlist]
        simp [hq.1.mem_iff, and_assoc]
      · rw [hcur, hmoved]
        simp [hq.1.mem_iff, and_assoc]
      · rw [hfirst (hlist ▸ hne)]
        exact Bool.eq_false_iff.mpr hf

/-- A wakeup ends at the head of the loop, the flag as it was, and only
moves more tasks. -/
theorem wake_frame {order : List (DefferedTask (Request τ))} (h : wake s order = some s') :
    s'.isRunning = s.isRunning ∧ s.moved <+: s'.moved ∧ s'.pc = .whileRunning := by
  obtain ⟨t1, -, ⟨-, rfl⟩ | ⟨-, rfl⟩⟩ := wake_eq_some h
  · exact ⟨rfl, List.prefix_rfl, rfl⟩
  · obtain ⟨-, hrun, -, hmoved, hpc', -⟩ :=
      chooseNextWait_frame (afterWait { s with defferedTasksList := order } t1)
    obtain ⟨hrun', hmoved'⟩ := afterWait_frame { s with defferedTasksList := order } t1
    exact ⟨hrun.trans hrun', hmoved ▸ hmoved', hpc'⟩

/-- **What a step that stores no flag does to the handler.** It returns
where its test finds the flag down, it waits only where it finds it up, and
it leaves the head of the loop by that test alone. -/
structure HandlerFrame (s s' : DefferedState τ) (a : DefferedAction τ) : Prop where
  isRunning : s'.isRunning = s.isRunning
  moved : s.moved <+: s'.moved
  returned : s'.pc = .returned → s.pc = .returned ∨ (a = .whileRunning ∧ s.isRunning = false)
  unstarted : s.waitStart = none → s.isRunning = false → s'.waitStart = none ∧ s'.moved = s.moved
  settled : s'.pc ≠ .whileRunning →
    s'.moved = s.moved ∧ (s.pc ≠ .whileRunning ∨ a = .whileRunning)
  ended : s.pc = .returned → s'.pc = .returned

/-- **What a step of the handler leaves alone.** -/
theorem handlerFrame_of_step {a : DefferedAction τ} (ha : ∀ b, a ≠ .store b)
    (h : (defferedMachine τ).step s a = some s') : HandlerFrame s s' a := by
  rcases a with n | b | ⟨task, ms⟩ | _ | _ | _ | order
  · obtain rfl := Option.some.inj h
    exact ⟨rfl, List.prefix_rfl, .inl, fun hw _ => ⟨hw, rfl⟩, fun hpc => ⟨rfl, .inl hpc⟩, id⟩
  · exact absurd rfl (ha b)
  · obtain ⟨-, h⟩ := Option.ite_none_left_eq_some.mp h
    obtain rfl := Option.some.inj h
    exact ⟨rfl, List.prefix_rfl, .inl, fun hw _ => ⟨hw, rfl⟩, fun hpc => ⟨rfl, .inl hpc⟩, id⟩
  · obtain ⟨-, h⟩ := Option.ite_none_left_eq_some.mp h
    obtain rfl := Option.some.inj h
    exact ⟨rfl, List.prefix_rfl, .inl, fun hw _ => ⟨hw, rfl⟩, fun hpc => ⟨rfl, .inl hpc⟩, id⟩
  · obtain ⟨hstart, h⟩ := Option.ite_none_right_eq_some.mp h
    obtain rfl := Option.some.inj h
    exact ⟨rfl, List.prefix_rfl, fun hpc => by simp at hpc, fun _ _ => ⟨rfl, rfl⟩,
      fun hpc => absurd rfl hpc, fun hret => by simp [hstart] at hret⟩
  · obtain ⟨hhead, h⟩ := Option.ite_none_right_eq_some.mp h
    obtain rfl := Option.some.inj h
    refine ⟨rfl, List.prefix_rfl, fun hpc => .inr ⟨rfl, ?_⟩, fun _ hr => ⟨?_, rfl⟩,
      fun _ => ⟨rfl, .inr rfl⟩, fun hret => by simp [hhead] at hret⟩
    · by_contra hne
      rw [Bool.not_eq_false] at hne
      simp [hne] at hpc
    · simp [DefferedState.waitStart, hr]
  · obtain ⟨hrun, hmoved, hpc⟩ := wake_frame h
    obtain ⟨t1, hw, -⟩ := wake_cases h
    refine ⟨hrun, hmoved, fun hret => ?_, fun hnone _ => ?_, fun hne => absurd hpc hne,
      fun hret => ?_⟩
    · rw [hpc] at hret
      cases hret
    · rw [hnone] at hw
      cases hw
    · simp [DefferedState.waitStart, hret] at hw

/-- A step that is no wakeup: the clock may advance, a wait may begin, and
only a task just added joins the list. -/
structure Quiet (s s' : DefferedState τ) : Prop where
  now : s.now ≤ s'.now
  charged : s.chargedUpTo ≤ s'.chargedUpTo
  moved : s'.moved = s.moved
  list : ∀ it ∈ s'.defferedTasksList,
    it ∈ s.defferedTasksList ∨ (it.ms = it.taskToRun.delay ∧ it.taskToRun.addedAt = s'.now)
  waitStart : ∀ t1 ∈ s'.waitStart, t1 ∈ s.waitStart ∨ t1 = s'.now

/-- Only a wake of the handler charges time. -/
theorem quiet_of_step {a : DefferedAction τ} (ha : a.isWake = false)
    (h : (defferedMachine τ).step s a = some s') : Quiet s s' := by
  rcases a with n | b | ⟨task, ms⟩ | _ | _ | _ | order
  · obtain rfl := Option.some.inj h
    refine ⟨Nat.le_add_right _ _, ?_, rfl, fun it hit => .inl hit, fun t1 ht1 => .inl ht1⟩
    simp only [DefferedState.chargedUpTo, DefferedState.waitStart]
    rcases s.pc <;> simp
  · obtain rfl := Option.some.inj h
    exact ⟨le_rfl, le_rfl, rfl, fun it hit => .inl hit, fun t1 ht1 => .inl ht1⟩
  · simp only [defferedMachine, enqueueTaskAfterTimeOut, Option.ite_none_left_eq_some] at h
    obtain rfl := Option.some.inj h.2
    refine ⟨le_rfl, le_rfl, rfl, fun it hit => ?_, fun t1 ht1 => .inl ht1⟩
    rcases List.mem_append.mp hit with hold | hnew
    · exact .inl hold
    · obtain rfl := List.mem_singleton.mp hnew
      exact .inr ⟨rfl, rfl⟩
  · simp only [defferedMachine, Option.ite_none_left_eq_some] at h
    obtain rfl := Option.some.inj h.2
    exact ⟨le_rfl, le_rfl, rfl, nofun, fun t1 ht1 => .inl ht1⟩
  · simp only [defferedMachine, Option.ite_none_right_eq_some] at h
    obtain rfl := Option.some.inj h.2
    refine ⟨le_rfl, ?_, rfl, fun it hit => .inl hit, nofun⟩
    simp [DefferedState.chargedUpTo, DefferedState.waitStart, h.1]
  · simp only [defferedMachine, Option.ite_none_right_eq_some] at h
    obtain rfl := Option.some.inj h.2
    refine ⟨le_rfl, ?_, rfl, fun it hit => .inl hit, fun t1 ht1 => .inr ?_⟩
    · simp only [DefferedState.chargedUpTo, DefferedState.waitStart, h.1]
      rcases s.isRunning <;> simp
    · simp only [DefferedState.waitStart] at ht1
      rcases hr : s.isRunning with _ | _ <;> simp [hr] at ht1
      exact ht1.symm
  · cases ha

end Steps

/-! ## Every run -/

section Runs

variable {s s' : DefferedState τ} {a : DefferedAction τ}

/-- Between two waits none has begun. -/
theorem waitStart_eq_none (h : s.pc = .whileRunning) : s.waitStart = none := by
  simp [DefferedState.waitStart, h]

/-- A step that charges no time keeps the tasks well timed. -/
theorem Quiet.wellTimed (h : Quiet s s') (hs : WellTimed s) : WellTimed s' where
  waitStart t1 ht1 := by
    rcases h.waitStart t1 ht1 with hold | rfl
    · exact (hs.waitStart t1 hold).trans h.now
    · exact le_rfl
  listed it hit := by
    rcases h.list it hit with hold | ⟨hms, hadd⟩
    · obtain ⟨hnow, hfresh⟩ := hs.listed it hold
      exact ⟨hnow.trans h.now, hfresh.imp_right fun hle => hle.trans h.charged⟩
    · exact ⟨hadd.le, .inl hms⟩

/-- A wake comes with the order it sorts into. -/
theorem DefferedAction.exists_order (h : a.isWake = true) : ∃ order, a = .wake order := by
  rcases a with _ | _ | _ | _ | _ | _ | order
  case wake => exact ⟨order, rfl⟩
  all_goals cases h

/-- The invariant of the runs whose passes charge only listed time. -/
structure Punctual (s : DefferedState τ) : Prop where
  wellTimed : WellTimed s
  timely : ∀ it ∈ s.defferedTasksList, Timely s it
  onTime : OnTime s

/-- A wait is charged in whole milliseconds; the rest is left over. -/
theorem curWait_add_mod (s : DefferedState τ) {t1 : ℕ} (h : t1 ≤ s.now) :
    t1 + (s.now - t1) % nsPerMs + curWait s t1 * nsPerMs = s.now := by
  have hdiv := Nat.mod_add_div' (s.now - t1) nsPerMs
  unfold curWait
  omega

/-- A timely entry that is not late is due at the earliest when its remaining
milliseconds have passed since the charged part of the wait. -/
theorem dueAt_le_of_timely {it : DefferedTask (Request τ)} {t1 r : ℕ}
    (hw : s.waitStart = some t1) (ht : Timely s it) (hadd : it.taskToRun.addedAt ≤ t1 + r) :
    it.taskToRun.dueAt ≤ t1 + r + it.ms.toNat * nsPerMs := by
  rcases ht with hfresh | hle
  · unfold Request.dueAt
    rw [← hfresh]
    omega
  · rw [DefferedState.chargedUpTo, hw, Option.getD_some] at hle
    omega

/-- A step that charges no time makes no task early. -/
theorem Quiet.punctual (h : Quiet s s') (hs : Punctual s) : Punctual s' where
  wellTimed := h.wellTimed hs.wellTimed
  timely it hit := by
    rcases h.list it hit with hold | ⟨hms, -⟩
    · exact (hs.timely it hold).imp_right fun hle =>
        hle.trans (Nat.add_le_add_right h.charged _)
    · exact .inl hms
  onTime := by
    unfold OnTime
    rw [h.moved]
    exact hs.onTime

/-- After the first wait nothing is charged, and no time has passed. -/
theorem Resumes.wellTimed (hr : Resumes s s') (hs : WellTimed s) : WellTimed s' := by
  have hnone : s'.waitStart = none := waitStart_eq_none hr.pc
  refine ⟨by simp [hnone], fun it hit => ?_⟩
  have hadd := (hs.listed it (hr.list.mem_iff.mp hit)).1
  rw [← hr.now] at hadd
  exact ⟨hadd, .inr (by rwa [DefferedState.chargedUpTo, hnone])⟩

/-- So does a pass that charges a wait. -/
theorem Charges.wellTimed {t1 : ℕ} (hc : Charges s s' t1) (hs : WellTimed s) : WellTimed s' := by
  have hnone : s'.waitStart = none := waitStart_eq_none hc.pc
  refine ⟨by simp [hnone], fun it' hit' => ?_⟩
  obtain ⟨it, hit, -, rfl⟩ := (hc.mem_list it').mp hit'
  have hadd := (hs.listed it hit).1
  rw [← hc.now] at hadd
  exact ⟨hadd, .inr (by rwa [DefferedState.chargedUpTo, hnone])⟩

/-- Nor does a handler that goes on without a charge. -/
theorem Resumes.punctual (hr : Resumes s s') (hs : Punctual s) : Punctual s' where
  wellTimed := hr.wellTimed hs.wellTimed
  timely it hit := by
    have hup : s'.chargedUpTo = s.now := by
      rw [DefferedState.chargedUpTo, waitStart_eq_none hr.pc, Option.getD_none, hr.now]
    have hle : s.chargedUpTo ≤ s'.chargedUpTo := hup ▸ chargedUpTo_le hs.wellTimed.waitStart
    exact (hs.timely it (hr.list.mem_iff.mp hit)).imp_right fun h =>
      h.trans (Nat.add_le_add_right hle _)
  onTime := by
    unfold OnTime
    rw [hr.moved]
    exact hs.onTime

/-- **A pass is punctual** where every task of the list was added before the
charged part of the wait, or its time has come. -/
theorem Charges.punctual {t1 : ℕ} (hc : Charges s s' t1) (hw : s.waitStart = some t1)
    (hs : Punctual s) (hlisted : ∀ it ∈ s.defferedTasksList,
      it.taskToRun.addedAt ≤ t1 + (s.now - t1) % nsPerMs ∨ it.taskToRun.dueAt ≤ s.now) :
    Punctual s' := by
  have hup : s'.chargedUpTo = s.now := by
    rw [DefferedState.chargedUpTo, waitStart_eq_none hc.pc, Option.getD_none, hc.now]
  have hsplit := curWait_add_mod s (hs.wellTimed.waitStart t1 hw)
  have hkey : ∀ it ∈ s.defferedTasksList, it.taskToRun.dueAt ≤ s.now ∨
      it.taskToRun.dueAt ≤ t1 + (s.now - t1) % nsPerMs + it.ms.toNat * nsPerMs := by
    intro it hit
    rcases hlisted it hit with hadd | hdue
    · exact .inr (dueAt_le_of_timely hw (hs.timely it hit) hadd)
    · exact .inl hdue
  refine ⟨hc.wellTimed hs.wellTimed, fun it' hit' => .inr ?_, fun p hp => ?_⟩
  · -- what stays is charged in full milliseconds, and the rest of them is left
    obtain ⟨it, hit, hnot, rfl⟩ := (hc.mem_list it').mp hit'
    have hms := charge_toNat hnot
    have hmul : (charge (curWait s t1) it).ms.toNat * nsPerMs + curWait s t1 * nsPerMs =
        it.ms.toNat * nsPerMs := by rw [← Nat.add_mul, hms]
    have := hkey it hit
    rw [hup]
    show it.taskToRun.dueAt ≤ _
    omega
  · -- what is moved had no more left than the pass charges
    rcases (hc.mem_moved p).mp hp with hold | ⟨it, hit, hdue, rfl⟩
    · exact hs.onTime p hold
    · have hmul : it.ms.toNat * nsPerMs ≤ curWait s t1 * nsPerMs :=
        Nat.mul_le_mul_right _ (isDue_iff.mp hdue)
      have := hkey it hit
      show it.taskToRun.dueAt ≤ s.now
      omega

variable [DecidableEq τ]

/-- Every step keeps the tasks well timed. -/
theorem step_wellTimed (hs : WellTimed s) (h : (defferedMachine τ).step s a = some s') :
    WellTimed s' := by
  by_cases ha : a.isWake = true
  case neg => exact (quiet_of_step (Bool.eq_false_iff.mpr ha) h).wellTimed hs
  case pos =>
    obtain ⟨order, rfl⟩ := a.exists_order ha
    obtain ⟨t1, -, hr | hc⟩ := wake_cases h
    · exact hr.wellTimed hs
    · exact hc.wellTimed hs

/-- So they are in every run. -/
theorem wellTimed_of_reachable (h : (defferedMachine τ).Reachable s) : WellTimed s := by
  refine h.invariant (fun s hs => ?_) fun s a s' hi _ hs => step_wellTimed hi hs
  obtain rfl := hs
  exact ⟨nofun, nofun⟩

/-- **One step**, where a pass charges listed time only. -/
theorem step_punctual (hs : Punctual s) (hc : ChargesListedTime s a)
    (h : (defferedMachine τ).step s a = some s') : Punctual s' := by
  by_cases ha : a.isWake = true
  case neg => exact (quiet_of_step (Bool.eq_false_iff.mpr ha) h).punctual hs
  case pos =>
    obtain ⟨order, rfl⟩ := a.exists_order ha
    obtain ⟨t1, hw, hr | hcharge⟩ := wake_cases h
    · exact hr.punctual hs
    · exact hcharge.punctual hw hs (hc ha hcharge.firstWait t1 hw)

/-- No task is early in a run of such steps. -/
theorem punctual_of_reachableUnder
    (h : (defferedMachine τ).ReachableUnder ChargesListedTime s) : Punctual s := by
  refine h.invariant (fun s hs => ?_) fun s a s' hi hc hs => step_punctual hi hc hs
  obtain rfl := hs
  exact ⟨⟨nofun, nofun⟩, nofun, nofun⟩

end Runs

/-! ## A late task is moved early -/

/-- The comparator is right for delays that are near enough. -/
theorem compareMs_nonpos {a b : DefferedTask α} (hle : a.ms.toNat ≤ b.ms.toNat)
    (hlt : b.ms.toNat < a.ms.toNat + 2 ^ 31) : compareMs a b ≤ 0 := by
  rw [compareMs, Comparator.toInt_sub_of_near (by omega) (by omega)]
  omega

/-- There is always an order to sort into. -/
theorem exists_qsorted (list : List (DefferedTask α)) : ∃ order, Qsorted list order := by
  by_cases hspan : ∀ a ∈ list, ∀ b ∈ list, a.ms.toNat < b.ms.toNat + 2 ^ 31
  case neg => exact ⟨list, .refl list, fun h => absurd h hspan⟩
  case pos =>
    let le (a b : DefferedTask α) : Bool := decide (a.ms.toNat ≤ b.ms.toNat)
    have hperm := List.mergeSort_perm list le
    refine ⟨_, hperm, fun _ => ?_⟩
    have htrans : ∀ a b c, le a b → le b c → le a c := fun a b c => by
      simp only [le, decide_eq_true_eq]
      omega
    have htotal : ∀ a b, (le a b || le b a) = true := fun a b => by
      simp only [le, Bool.or_eq_true, decide_eq_true_eq]
      omega
    have hsorted := List.pairwise_mergeSort htrans htotal list
    refine hsorted.imp_of_mem fun ha hb hle => ?_
    exact compareMs_nonpos (of_decide_eq_true hle)
      (hspan _ (hperm.mem_iff.mp hb) _ (hperm.mem_iff.mp ha))

section Early

variable [DecidableEq τ] {s s' : DefferedState τ}

/-- Where a wait is charged to a nonempty list, some wakeup is enabled. -/
theorem exists_wake {t1 : ℕ} (hpc : s.pc = .waiting t1) (hf : s.isFirstWait = false)
    (hne : s.defferedTasksList ≠ []) :
    ∃ order s', (defferedMachine τ).step s (.wake order) = some s' ∧ Charges s s' t1 := by
  obtain ⟨order, ho⟩ := exists_qsorted s.defferedTasksList
  have hstep : wake s order =
      some (chooseNextWait (afterWait { s with defferedTasksList := order } t1)) := by
    simp [wake, hpc, hne, ho]
  obtain ⟨t1', hw, hr | hc⟩ := wake_cases hstep
  · rcases hr.uncharged with hnil | hfirst
    · exact absurd hnil hne
    · exact absurd hfirst (by simp [hf])
  · obtain rfl : t1 = t1' := by simpa [DefferedState.waitStart, hpc] using hw
    exact ⟨order, _, hstep, hc⟩

/-- **A pass that charges unlisted time moves a task early, at once or after
the next wait.** -/
theorem early_of_late {it : DefferedTask (Request τ)} {t1 : ℕ} (hwt : WellTimed s)
    (hrun : s.isRunning = true) (hpc : s.pc = .waiting t1) (hf : s.isFirstWait = false)
    (hit : it ∈ s.defferedTasksList) (hlate : t1 + (s.now - t1) % nsPerMs < it.taskToRun.addedAt)
    (hdue : s.now < it.taskToRun.dueAt) :
    ∃ s', (defferedMachine τ).Leads s s' ∧ ¬ OnTime s' := by
  have hw : s.waitStart = some t1 := by simp [DefferedState.waitStart, hpc]
  have hms : it.ms = it.taskToRun.delay := by
    rcases (hwt.listed it hit).2 with hfresh | hold
    · exact hfresh
    · rw [DefferedState.chargedUpTo, hw, Option.getD_some] at hold
      omega
  obtain ⟨order, s1, hstep, hc⟩ := exists_wake hpc hf (List.ne_nil_of_mem hit)
  by_cases hd : isDue (curWait s t1) it = true
  case pos =>
    refine ⟨s1, .single hstep, fun h => ?_⟩
    have := h _ ((hc.mem_moved _).mpr (.inr ⟨it, hit, hd, rfl⟩))
    exact absurd this (not_le.mpr hdue)
  case neg =>
    have hnot : isDue (curWait s t1) it = false := Bool.eq_false_iff.mpr hd
    have hmem : charge (curWait s t1) it ∈ s1.defferedTasksList :=
      (hc.mem_list _).mpr ⟨it, hit, hnot, rfl⟩
    -- the next wait lasts exactly what is left of the delay
    set left := charge (curWait s t1) it with hleft
    let s2 : DefferedState τ := { s1 with pc := .waiting s1.now }
    let s3 : DefferedState τ := { s2 with now := s1.now + left.ms.toNat * nsPerMs }
    have h2 : (defferedMachine τ).step s1 .whileRunning = some s2 := by
      simp [defferedMachine, s2, hc.pc, hc.isRunning, hrun]
    have h3 : (defferedMachine τ).step s2 (.tick (left.ms.toNat * nsPerMs)) = some s3 := rfl
    obtain ⟨order', s4, h4, hc4⟩ := exists_wake (s := s3) rfl
      (hc.again (List.ne_nil_of_mem hmem)) (List.ne_nil_of_mem hmem)
    have hcur : curWait s3 s1.now = left.ms.toNat := by
      simp [curWait, s3, nsPerMs]
    have hmoved : (it.taskToRun, s3.now) ∈ s4.moved :=
      (hc4.mem_moved _).mpr (.inr ⟨left, hmem, by simp [hcur, isDue], rfl⟩)
    refine ⟨s4, (System.Leads.single hstep).trans ((System.Leads.single h2).trans
      ((System.Leads.single h3).trans (.single h4))), fun h => ?_⟩
    have hsplit := curWait_add_mod s (hwt.waitStart t1 hw)
    have hsum : left.ms.toNat * nsPerMs + curWait s t1 * nsPerMs = it.ms.toNat * nsPerMs := by
      rw [← Nat.add_mul, hleft, charge_toNat hnot]
    have hle : it.taskToRun.addedAt + it.taskToRun.delay.toNat * nsPerMs ≤
        s1.now + left.ms.toNat * nsPerMs := h _ hmoved
    rw [hc.now, ← hms] at hle
    omega

end Early

/-! ## On every run -/

/-- **When no deferred task is moved early.** In every run whose passes find
only tasks added by the start of the wait they charge, or due by then, no
task is moved before its time. And where a running handler is about to make
any other pass, some continuation moves a task early. -/
theorem deffered_onTime_iff (τ : Type u) [DecidableEq τ] :
    (∀ s, (defferedMachine τ).ReachableUnder ChargesListedTime s → OnTime s) ∧
    (∀ s a, (defferedMachine τ).Reachable s → s.isRunning = true → ¬ ChargesListedTime s a →
      ∃ s', (defferedMachine τ).Leads s s' ∧ ¬ OnTime s') := by
  refine ⟨fun s h => (punctual_of_reachableUnder h).onTime, fun s a h hrun hnot => ?_⟩
  simp only [ChargesListedTime] at hnot
  push Not at hnot
  obtain ⟨-, hf, t1, hw, it, hit, hlate, hdue⟩ := hnot
  have hpc : s.pc = .waiting t1 := by
    unfold DefferedState.waitStart at hw
    split at hw
    · rename_i hpc
      rwa [← Option.some.inj hw]
    · cases hw
  exact early_of_late (wellTimed_of_reachable h) hrun hpc hf hit hlate hdue

/-- Two tasks added in the first wait, the shorter moved after the second. -/
def listedAdds : List (DefferedAction String) :=
  [.store true, .lock, .whileRunning, .enqueueTaskAfterTimeOut "first" 1000,
    .enqueueTaskAfterTimeOut "second" 100,
    .wake [⟨⟨"second", 0, 100⟩, 100⟩, ⟨⟨"first", 0, 1000⟩, 1000⟩], .whileRunning,
    .tick (100 * nsPerMs), .wake [⟨⟨"second", 0, 100⟩, 100⟩, ⟨⟨"first", 0, 1000⟩, 1000⟩]]

/-- A task added between two waits is not early. -/
theorem listedAdds_onTime :
    ∃ s, (defferedMachine String).ReachableUnder ChargesListedTime s ∧
      s.moved = [(⟨"second", 0, 100⟩, 100 * nsPerMs)] ∧ OnTime s := by
  have hrun : (((defferedMachine String).restrict ChargesListedTime).exec
      ⟨0, false, [], .start, 500, true, []⟩ listedAdds).map DefferedState.moved =
      some [(⟨"second", 0, 100⟩, 100 * nsPerMs)] := by decide
  obtain ⟨s, hs, hmoved⟩ := Option.map_eq_some_iff.mp hrun
  have hreach : (defferedMachine String).ReachableUnder ChargesListedTime s :=
    System.reachableUnder_of_exec _ rfl hs
  exact ⟨s, hreach, hmoved, (deffered_onTime_iff String).1 s hreach⟩

/-- A second of delay, and during its wait a tenth of a second more. -/
def lateAdd : List (DefferedAction String) :=
  [.store true, .lock, .whileRunning, .enqueueTaskAfterTimeOut "first" 1000,
    .wake [⟨⟨"first", 0, 1000⟩, 1000⟩], .whileRunning, .tick (900 * nsPerMs),
    .enqueueTaskAfterTimeOut "second" 100,
    .wake [⟨⟨"second", 900 * nsPerMs, 100⟩, 100⟩, ⟨⟨"first", 0, 1000⟩, 1000⟩]]

/-- **A task moved the moment it was added.** -/
theorem lateAdd_early :
    ¬ ∀ s, (defferedMachine String).Reachable s → ∀ p ∈ s.moved,
      p.1.addedAt + p.1.delay.toNat * nsPerMs ≤ p.2 := by
  intro h
  have hrun : ((defferedMachine String).exec ⟨0, false, [], .start, 500, true, []⟩ lateAdd).map
      DefferedState.moved = some [(⟨"second", 900000000, 100⟩, 900000000)] := by decide
  obtain ⟨s, hs, hmoved⟩ := Option.map_eq_some_iff.mp hrun
  have := h s (System.reachable_of_exec _ rfl hs) _ (hmoved ▸ List.mem_singleton_self _)
  exact absurd this (by decide)

end Worker

end VerAI
