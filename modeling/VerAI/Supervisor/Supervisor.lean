import VerAI.Lib.Transition
import VerAI.Lib.Splits
import Mathlib.Data.Int.Notation
import Mathlib.Data.List.Perm.Subperm
/-!
# The supervisor of the worker process

`VerAIDaemonProc` forks a worker, waits for a signal and either reaps the
worker, which it then starts again unless it is to terminate, or kills it and
returns. The machine is the parent's loop; each system call is one step
together with the tests that follow it, and a worker may exit at any time
with any status. A call of `sigwaitinfo` that fails leaves `siginfo` as it
was, at first undetermined. `wait` returns when it has reaped a child.

The log of the system calls, the latest first, is no variable of the code.
What children there are to reap is read off it (`unreaped`).
-/

namespace VerAI

namespace Supervisor

open Transition (System)
open Splits (forall_split_cons)

/-- The signals of `sigset`. -/
inductive Signal
  | sigquit
  | sigint
  | sigterm
  | sigchld
  deriving DecidableEq, Repr

/-- `eDaemonStatus::NeedToTerminate` -/
def needToTerminate : ℕ := 1

/-- `WEXITSTATUS` -/
def wexitstatus (status : ℕ) : ℕ := status / 256 % 256

/-- What `WorkProc` returns on each of its paths. -/
def workProc : ℕ := needToTerminate

/-- A system call of the parent that has returned, with what it returned. -/
inductive SysCall
  | fork (pid : ℤ)
  | sigwaitinfo (signo : Option Signal)
  | wait (pid : ℤ) (status : ℕ)
  | kill (pid : ℤ) (signo : Signal)
  deriving DecidableEq, Repr

def SysCall.isFork : SysCall → Bool
  | fork _ => true
  | _ => false

/-- A call after which no worker is started: it returned a terminating
signal, or reaped a worker that is to terminate. -/
def SysCall.terminates : SysCall → Bool
  | sigwaitinfo (some signo) => signo ≠ .sigchld
  | wait _ status => wexitstatus status = needToTerminate
  | _ => false

/-- The children forked and not reaped. -/
def unreaped : List SysCall → List ℤ
  | [] => []
  | .fork pid :: earlier => if pid = -1 then unreaped earlier else pid :: unreaped earlier
  | .wait pid _ :: earlier => (unreaped earlier).erase pid
  | _ :: earlier => unreaped earlier

/-- Where `VerAIDaemonProc` stands. -/
inductive SupervisorPc
  /-- At the head of `for (;;)`. -/
  | loop
  /-- In the branch of the child. -/
  | workProc
  | sigwaitinfo
  | wait
  /-- Before `kill(pid, SIGTERM)`. -/
  | kill
  | returned (status : ℕ)
  deriving DecidableEq, Repr

/-- The variables of `VerAIDaemonProc`, the children that have exited and the
system calls made. -/
structure SupervisorState where
  pid : ℤ
  needStart : Bool
  siginfo : Option Signal
  pc : SupervisorPc
  exited : List (ℤ × ℕ)
  log : List SysCall
  deriving DecidableEq, Repr

/-- The return of a system call, a round that forks nothing, the end of the
child's branch, or the exit of a worker. -/
inductive SupervisorAction
  | fork (pid : ℤ)
  | noFork
  | exit
  | sigwaitinfo (signo : Option Signal)
  | wait (pid : ℤ) (status : ℕ)
  | kill
  | workerExits (pid : ℤ) (status : ℕ)
  deriving DecidableEq, Repr

/-- What `fork` returns in the parent: -1, or a pid no child has. -/
def forkReturns (s : SupervisorState) (pid : ℤ) : Bool :=
  pid = -1 ∨ (0 < pid ∧ pid ∉ unreaped s.log)

/-- The tests after the fork. -/
def afterFork (s : SupervisorState) : SupervisorState :=
  { s with
    needStart := true
    pc := if s.pid = -1 then .loop else if s.pid = 0 then .workProc else .sigwaitinfo }

/-- The test after `sigwaitinfo`. -/
def afterSignal (s : SupervisorState) : SupervisorState :=
  { s with pc := if s.siginfo = some .sigchld then .wait else .kill }

/-- The tests after `wait`. -/
def afterWait (s : SupervisorState) (status : ℕ) : SupervisorState :=
  { s with pc := if status = needToTerminate then .returned status else .loop }

/-- **The machine of the supervisor.** -/
def supervisor : System SupervisorState SupervisorAction where
  init s := s.needStart = true ∧ s.pc = .loop ∧ s.exited = [] ∧ s.log = []
  step s
    | .fork pid =>
      if s.pc = .loop ∧ s.needStart = true ∧ forkReturns s pid = true then
        some (afterFork { s with pid := pid, log := .fork pid :: s.log })
      else none
    | .noFork => if s.pc = .loop ∧ s.needStart = false then some (afterFork s) else none
    | .exit => if s.pc = .workProc then some { s with pc := .returned workProc } else none
    | .sigwaitinfo signo =>
      if s.pc = .sigwaitinfo then
        some (afterSignal
          { s with siginfo := signo.or s.siginfo, log := .sigwaitinfo signo :: s.log })
      else none
    | .wait pid status =>
      if s.pc = .wait ∧ (pid, status) ∈ s.exited then
        some (afterWait
          { s with
            exited := s.exited.erase (pid, status)
            log := .wait pid status :: s.log } (wexitstatus status))
      else none
    | .kill =>
      if s.pc = .kill then
        some { s with pc := .returned 0, log := .kill s.pid .sigterm :: s.log }
      else none
    | .workerExits pid status =>
      if pid ∈ unreaped s.log ∧ pid ∉ s.exited.map Prod.fst then
        some { s with exited := s.exited ++ [(pid, status)] }
      else none

/-! ## The steps -/

section Steps

variable {s s' : SupervisorState} {a : SupervisorAction}

/-- The steps one by one, each with what it found. -/
inductive Supervises (s : SupervisorState) : SupervisorAction → SupervisorState → Prop
  | forkFailed : s.pc = .loop → Supervises s (.fork (-1))
      { s with pid := -1, needStart := true, log := .fork (-1) :: s.log }
  | forked {pid : ℤ} : s.pc = .loop → 0 < pid → pid ∉ unreaped s.log →
      Supervises s (.fork pid)
        { s with pid := pid, needStart := true, pc := .sigwaitinfo, log := .fork pid :: s.log }
  | noFork : s.pc = .loop → s.needStart = false → Supervises s .noFork (afterFork s)
  | exit : s.pc = .workProc → Supervises s .exit { s with pc := .returned workProc }
  | child {signo : Option Signal} : s.pc = .sigwaitinfo → signo.or s.siginfo = some .sigchld →
      Supervises s (.sigwaitinfo signo)
        { s with siginfo := some .sigchld, pc := .wait, log := .sigwaitinfo signo :: s.log }
  | signal {signo : Option Signal} : s.pc = .sigwaitinfo → signo.or s.siginfo ≠ some .sigchld →
      Supervises s (.sigwaitinfo signo)
        { s with
          siginfo := signo.or s.siginfo
          pc := .kill
          log := .sigwaitinfo signo :: s.log }
  | stopped {pid : ℤ} {status : ℕ} : s.pc = .wait → (pid, status) ∈ s.exited →
      wexitstatus status = needToTerminate →
      Supervises s (.wait pid status)
        { s with
          pc := .returned (wexitstatus status)
          exited := s.exited.erase (pid, status)
          log := .wait pid status :: s.log }
  | restart {pid : ℤ} {status : ℕ} : s.pc = .wait → (pid, status) ∈ s.exited →
      wexitstatus status ≠ needToTerminate →
      Supervises s (.wait pid status)
        { s with
          pc := .loop
          exited := s.exited.erase (pid, status)
          log := .wait pid status :: s.log }
  | kill : s.pc = .kill → Supervises s .kill
      { s with pc := .returned 0, log := .kill s.pid .sigterm :: s.log }
  | workerExits {pid : ℤ} {status : ℕ} : pid ∈ unreaped s.log → pid ∉ s.exited.map Prod.fst →
      Supervises s (.workerExits pid status) { s with exited := s.exited ++ [(pid, status)] }

/-- **What a step of the supervisor can be.** -/
theorem supervises_of_step (h : supervisor.step s a = some s') : Supervises s a s' := by
  rcases a with pid | _ | _ | signo | ⟨pid, status⟩ | _ | ⟨pid, status⟩
  · obtain ⟨⟨hpc, -, hret⟩, h⟩ := Option.ite_none_right_eq_some.mp h
    obtain rfl := Option.some.inj h
    have hcases : pid = -1 ∨ (0 < pid ∧ pid ∉ unreaped s.log) := of_decide_eq_true hret
    obtain rfl | ⟨hpos, hfresh⟩ := hcases
    · have heq : afterFork { s with pid := -1, log := .fork (-1) :: s.log } =
          { s with pid := -1, needStart := true, log := .fork (-1) :: s.log } := by
        simp [afterFork, hpc]
      exact heq ▸ .forkFailed hpc
    · have heq : afterFork { s with pid := pid, log := .fork pid :: s.log } =
          { s with
            pid := pid
            needStart := true
            pc := .sigwaitinfo
            log := .fork pid :: s.log } := by
        have h1 : pid ≠ -1 := by omega
        have h0 : pid ≠ 0 := by omega
        simp [afterFork, h1, h0]
      exact heq ▸ .forked hpc hpos hfresh
  · obtain ⟨⟨hpc, hneed⟩, h⟩ := Option.ite_none_right_eq_some.mp h
    exact Option.some.inj h ▸ .noFork hpc hneed
  · obtain ⟨hpc, h⟩ := Option.ite_none_right_eq_some.mp h
    exact Option.some.inj h ▸ .exit hpc
  · obtain ⟨hpc, h⟩ := Option.ite_none_right_eq_some.mp h
    obtain rfl := Option.some.inj h
    by_cases hchld : signo.or s.siginfo = some .sigchld
    · simp only [afterSignal, hchld, if_true]
      exact .child hpc hchld
    · simp only [afterSignal, if_neg hchld]
      exact .signal hpc hchld
  · obtain ⟨⟨hpc, hmem⟩, h⟩ := Option.ite_none_right_eq_some.mp h
    obtain rfl := Option.some.inj h
    by_cases hterm : wexitstatus status = needToTerminate
    · simp only [afterWait, if_pos hterm]
      exact .stopped hpc hmem hterm
    · simp only [afterWait, if_neg hterm]
      exact .restart hpc hmem hterm
  · obtain ⟨hpc, h⟩ := Option.ite_none_right_eq_some.mp h
    exact Option.some.inj h ▸ .kill hpc
  · obtain ⟨⟨hmem, hnew⟩, h⟩ := Option.ite_none_right_eq_some.mp h
    exact Option.some.inj h ▸ .workerExits hmem hnew

/-- A call is made where it may be: no `fork` after a call that terminates,
and `kill` with the pid of the one child there is to reap. -/
structure Lawful (earlier : List SysCall) (c : SysCall) : Prop where
  fork : c.isFork = true → ∀ d ∈ earlier, d.terminates = false
  kill : ∀ pid signo, c = .kill pid signo → unreaped earlier = [pid] ∧ 0 < pid

/-- The other calls are lawful anywhere. -/
theorem lawful_of_other {earlier : List SysCall} {c : SysCall} (hf : c.isFork = false)
    (hk : ∀ pid signo, c ≠ .kill pid signo) : Lawful earlier c where
  fork h := absurd (hf.symm.trans h) Bool.false_ne_true
  kill pid signo h := absurd h (hk pid signo)

/-- What there is to reap at each place, and what has been done. -/
structure OneWorker (s : SupervisorState) : Prop where
  needStart : s.needStart = true
  parent : s.pc ≠ .workProc
  loop : s.pc = .loop → unreaped s.log = []
  watches : s.pc = .sigwaitinfo ∨ s.pc = .wait ∨ s.pc = .kill →
    unreaped s.log = [s.pid] ∧ 0 < s.pid
  atMostOne : (unreaped s.log).length ≤ 1
  exited : ∀ p ∈ s.exited, p.1 ∈ unreaped s.log
  /-- A worker exits once. -/
  once : (s.exited.map Prod.fst).Nodup
  /-- A call that terminates ends the loop. -/
  goesOn : s.pc = .loop ∨ s.pc = .sigwaitinfo ∨ s.pc = .wait →
    ∀ c ∈ s.log, c.terminates = false
  lawful : ∀ later c earlier, s.log = later ++ c :: earlier → Lawful earlier c

/-- **The child that `wait` reaps is the worker**, and no other is left. -/
theorem OneWorker.wait (hi : OneWorker s) {pid : ℤ} {status : ℕ} (hpc : s.pc = .wait)
    (hmem : (pid, status) ∈ s.exited) :
    unreaped (.wait pid status :: s.log) = [] ∧ s.exited.erase (pid, status) = [] := by
  obtain ⟨hone, -⟩ := hi.watches (.inr (.inl hpc))
  have hpid : pid = s.pid := by simpa [hone] using hi.exited _ hmem
  have hsub : s.exited.map Prod.fst ⊆ [s.pid] := by
    intro p hp
    obtain ⟨e, he, rfl⟩ := List.mem_map.mp hp
    exact hone ▸ hi.exited e he
  have hlen : s.exited.length ≤ 1 := by
    simpa using (hi.once.subperm hsub).length_le
  obtain ⟨e, he⟩ := List.length_eq_one_iff.mp
    (Nat.le_antisymm hlen (List.length_pos_of_mem hmem))
  have heq : (pid, status) = e := by simpa [he] using hmem
  exact ⟨by simp [unreaped, hone, hpid], by simp [he, heq]⟩

theorem oneWorker_init (h : supervisor.init s) : OneWorker s := by
  obtain ⟨hneed, hpc, hex, hlog⟩ := h
  exact ⟨hneed, by simp [hpc], by simp [hlog, unreaped], by simp [hpc], by simp [hlog, unreaped],
    by simp [hex], by simp [hex], by simp [hlog], by simp [hlog]⟩

theorem OneWorker.step (hi : OneWorker s) (h : Supervises s a s') : OneWorker s' := by
  cases h with
  | forkFailed hpc =>
    have hnone := hi.loop hpc
    have hall := hi.goesOn (.inl hpc)
    exact ⟨rfl, hi.parent, fun _ => hnone, fun h => by simp [hpc] at h, hi.atMostOne, hi.exited,
      hi.once, fun _ => List.forall_mem_cons.mpr ⟨rfl, hall⟩,
      forall_split_cons hi.lawful ⟨fun _ => hall, fun _ _ h => by cases h⟩⟩
  | @forked pid hpc hpos hfresh =>
    have hone : unreaped (.fork pid :: s.log) = [pid] := by
      have hne : pid ≠ -1 := by omega
      simp [unreaped, hne, hi.loop hpc]
    have hall := hi.goesOn (.inl hpc)
    have hexited : s.exited = [] := by
      refine List.eq_nil_iff_forall_not_mem.mpr fun p hp => ?_
      simpa [hi.loop hpc] using hi.exited p hp
    exact ⟨rfl, by simp, by simp, fun _ => ⟨hone, hpos⟩, by simp [hone], by simp [hexited], hi.once,
      fun _ => List.forall_mem_cons.mpr ⟨rfl, hall⟩,
      forall_split_cons hi.lawful ⟨fun _ => hall, fun _ _ h => by cases h⟩⟩
  | noFork _ hneed => exact absurd (hi.needStart.symm.trans hneed) (by decide)
  | exit hpc => exact absurd hpc hi.parent
  | @child signo hpc hchld =>
    have hone := hi.watches (.inl hpc)
    have hall := hi.goesOn (.inr (.inl hpc))
    have hterm : (SysCall.sigwaitinfo signo).terminates = false := by
      cases signo with
      | none => rfl
      | some signo =>
        obtain rfl : signo = .sigchld := by simpa using hchld
        rfl
    exact ⟨hi.needStart, by simp, by simp, fun _ => hone, hi.atMostOne, hi.exited, hi.once,
      fun _ => List.forall_mem_cons.mpr ⟨hterm, hall⟩,
      forall_split_cons hi.lawful (lawful_of_other rfl (by simp))⟩
  | signal hpc =>
    have hone := hi.watches (.inl hpc)
    exact ⟨hi.needStart, by simp, by simp, fun _ => hone, hi.atMostOne, hi.exited, hi.once,
      by simp, forall_split_cons hi.lawful (lawful_of_other rfl (by simp))⟩
  | stopped hpc hmem =>
    obtain ⟨hnone, hrest⟩ := hi.wait hpc hmem
    exact ⟨hi.needStart, by simp, by simp, by simp, by simp [hnone], by simp [hrest],
      by simp [hrest], by simp, forall_split_cons hi.lawful (lawful_of_other rfl (by simp))⟩
  | restart hpc hmem hterm =>
    obtain ⟨hnone, hrest⟩ := hi.wait hpc hmem
    have hall := hi.goesOn (.inr (.inr hpc))
    exact ⟨hi.needStart, by simp, fun _ => hnone, by simp, by simp [hnone], by simp [hrest],
      by simp [hrest],
      fun _ => List.forall_mem_cons.mpr ⟨decide_eq_false hterm, hall⟩,
      forall_split_cons hi.lawful (lawful_of_other rfl (by simp))⟩
  | kill hpc =>
    have hone := hi.watches (.inr (.inr hpc))
    refine ⟨hi.needStart, by simp, by simp, by simp, hi.atMostOne, hi.exited, hi.once, by simp,
      forall_split_cons hi.lawful ⟨fun h => absurd h Bool.false_ne_true, fun pid signo h => ?_⟩⟩
    obtain ⟨rfl, -⟩ := SysCall.kill.inj h
    exact hone
  | @workerExits pid status hmem hnew =>
    have hex : ∀ p ∈ s.exited ++ [(pid, status)], p.1 ∈ unreaped s.log := by
      intro p hp
      rcases List.mem_append.mp hp with hold | hlast
      · exact hi.exited p hold
      · rw [List.mem_singleton.mp hlast]
        exact hmem
    have honce : ((s.exited ++ [(pid, status)]).map Prod.fst).Nodup := by
      rw [List.map_append, List.nodup_append]
      refine ⟨hi.once, by simp, fun p hp q hq => ?_⟩
      obtain rfl : q = pid := by simpa using hq
      rintro rfl
      exact hnew hp
    exact ⟨hi.needStart, hi.parent, hi.loop, hi.watches, hi.atMostOne, hex, honce, hi.goesOn,
      hi.lawful⟩

end Steps

/-! ## Every run -/

theorem oneWorker_of_reachable {s : SupervisorState} (h : supervisor.Reachable s) : OneWorker s :=
  h.invariant (fun _ h0 => oneWorker_init h0) fun _ _ _ hi _ hs => hi.step (supervises_of_step hs)

/-- **The supervisor owns one worker.** In every run at most one child is
unreaped, `kill` is called with the pid of that child, and nothing is forked
after a worker that is to terminate or a terminating signal. -/
theorem supervisor_ownsOne {s : SupervisorState} (h : supervisor.Reachable s) :
    (unreaped s.log).length ≤ 1 ∧
    (∀ later pid signo earlier, s.log = later ++ .kill pid signo :: earlier →
      unreaped earlier = [pid] ∧ 0 < pid) ∧
    (∀ later c earlier, s.log = later ++ c :: earlier → c.terminates = true →
      ∀ d ∈ later, d.isFork = false) := by
  have hi := oneWorker_of_reachable h
  refine ⟨hi.atMostOne, fun later pid signo earlier hlog => ?_,
    fun later c earlier hlog hc d hd => ?_⟩
  · exact (hi.lawful _ _ _ hlog).kill pid signo rfl
  · obtain ⟨l, r, rfl⟩ := List.append_of_mem hd
    rw [List.append_assoc, List.cons_append] at hlog
    by_contra hfork
    have hnot := (hi.lawful _ _ _ hlog).fork (Bool.not_eq_false _ ▸ hfork) c (by simp)
    exact absurd (hnot.symm.trans hc) Bool.false_ne_true

/-- A fork that fails, a worker that is started again, and a signal. -/
def restartThenKill : List SupervisorAction :=
  [.fork (-1), .fork 7, .workerExits 7 0, .sigwaitinfo (some .sigchld), .wait 7 0, .fork 8,
    .sigwaitinfo (some .sigterm), .kill]

theorem restartThenKill_ownsOne :
    ∃ s, supervisor.Reachable s ∧ s.log = [.kill 8 .sigterm, .sigwaitinfo (some .sigterm), .fork 8,
      .wait 7 0, .sigwaitinfo (some .sigchld), .fork 7, .fork (-1)] ∧
      (unreaped s.log).length ≤ 1 := by
  have hrun : (supervisor.exec ⟨0, true, none, .loop, [], []⟩ restartThenKill).map
      SupervisorState.log = some [.kill 8 .sigterm, .sigwaitinfo (some .sigterm), .fork 8,
        .wait 7 0, .sigwaitinfo (some .sigchld), .fork 7, .fork (-1)] := by decide
  obtain ⟨s, hs, hlog⟩ := Option.map_eq_some_iff.mp hrun
  have hreach : supervisor.Reachable s := System.reachable_of_exec _ ⟨rfl, rfl, rfl, rfl⟩ hs
  exact ⟨s, hreach, hlog, (supervisor_ownsOne hreach).1⟩

end Supervisor

end VerAI
