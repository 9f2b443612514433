import VerAI.Lib.Transition
import VerAI.Lib.RecursiveMutex
/-!
# Stopping the torrent service

`Stop` holds `workMtx` while it joins the alert thread, and the alert thread
takes `workMtx` in the condition of its loop. It cannot leave the loop but
through that condition, so no call of `Stop` on a started service returns:
from every state of every run the two threads can end up waiting for each
other, and a run that comes to a halt has done so.

Each lock, each unlock, the join and each call of `IsWork` is one step. The
handling of an alert is the row of its critical sections on
`torrentIdListMtx`, which is all it shares with `Stop`.
-/

namespace VerAI

namespace Torrent

open Transition (System RecursiveMutex)

/-- The two threads. -/
inductive Thread
  | stopper
  | handler
  deriving DecidableEq, Repr

/-- Where the caller of `Stop` stands. -/
inductive StopPc
  /-- Before it locks `workMtx`. -/
  | call
  /-- At `if(!IsWork())`. -/
  | testIsWork
  /-- At `isWork = false`. -/
  | clearFlag
  /-- In `handlersThread.join()`. -/
  | join
  /-- Before it locks `torrentIdListMtx`. -/
  | lockList
  /-- At `torrentsIdList.clear()`. -/
  | clearList
  /-- Before `lockerList` unlocks. -/
  | unlockList
  /-- Before `locker` unlocks. -/
  | unlockWork
  | returned
  deriving DecidableEq, Repr

/-- The alerts `HandlerAlerts` tells apart, with what decides how often the
branch takes `torrentIdListMtx`. -/
inductive AlertKind
  | dhtBootstrap
  | addTorrent (error found : Bool)
  | torrentFinished
  | torrentError
  | torrentPaused
  | metadataReceived (valid : Bool)
  | metadataFailed
  | stateUpdate (statuses : ℕ)
  | other
  deriving DecidableEq, Repr

/-- How often the branch of an alert enters `torrentIdListMtx`: once for each
`GetIdByName`, once more to store a handle or the flag `canAdd`. -/
def AlertKind.listSections : AlertKind → ℕ
  | dhtBootstrap => 1
  | addTorrent error found => if !error && found then 2 else 1
  | torrentFinished => 1
  | torrentError => 1
  | torrentPaused => 0
  | metadataReceived valid => if valid then 1 else 0
  | metadataFailed => 0
  | stateUpdate statuses => statuses
  | other => 0

/-- Where `HandlerAlerts` stands. -/
inductive HandlerPc
  /-- At `while(IsWork())`. -/
  | whileIsWork
  /-- In `wait_for_alert`. -/
  | waitForAlert
  /-- At the head of the loop over the alerts. -/
  | alerts (rest : List AlertKind)
  /-- In the branch of an alert, with critical sections to go. -/
  | branch (sections : ℕ) (rest : List AlertKind)
  /-- In such a section. -/
  | inList (sections : ℕ) (rest : List AlertKind)
  | exited
  deriving DecidableEq, Repr

/-- The two threads and what they share. -/
structure StopState where
  workMtx : RecursiveMutex Thread
  torrentIdListMtx : RecursiveMutex Thread
  isWork : Bool
  stop : StopPc
  handler : HandlerPc
  deriving DecidableEq, Repr

/-- A step of either thread; the return of `wait_for_alert` carries the
alerts popped, none where it returned `nullptr`. -/
inductive StopAction
  | stopper
  | handler
  | alertsPopped (alerts : List AlertKind)
  deriving DecidableEq, Repr

/-- `Torrent::IsWork`, called by `t`. -/
def isWork (t : Thread) (s : StopState) : Option Bool :=
  (s.workMtx.hold t).map fun _ => s.isWork

/-- The next step of `Torrent::Stop`. -/
def stopStep (s : StopState) : Option StopState :=
  match s.stop with
  | .call => (s.workMtx.lock .stopper).map fun m => { s with workMtx := m, stop := .testIsWork }
  | .testIsWork =>
    (isWork .stopper s).map fun b => { s with stop := if b then .clearFlag else .unlockWork }
  | .clearFlag => some { s with isWork := false, stop := .join }
  | .join => if s.handler = .exited then some { s with stop := .lockList } else none
  | .lockList =>
    (s.torrentIdListMtx.lock .stopper).map fun m =>
      { s with torrentIdListMtx := m, stop := .clearList }
  | .clearList => some { s with stop := .unlockList }
  | .unlockList =>
    (s.torrentIdListMtx.unlock .stopper).map fun m =>
      { s with torrentIdListMtx := m, stop := .unlockWork }
  | .unlockWork =>
    (s.workMtx.unlock .stopper).map fun m => { s with workMtx := m, stop := .returned }
  | .returned => none

/-- The next step of `HandlerAlerts`, but for the return of `wait_for_alert`. -/
def handlerStep (s : StopState) : Option StopState :=
  match s.handler with
  | .whileIsWork =>
    (isWork .handler s).map fun b => { s with handler := if b then .waitForAlert else .exited }
  | .waitForAlert => none
  | .alerts [] => some { s with handler := .whileIsWork }
  | .alerts (a :: rest) => some { s with handler := .branch a.listSections rest }
  | .branch 0 rest => some { s with handler := .alerts rest }
  | .branch (k + 1) rest =>
    (s.torrentIdListMtx.lock .handler).map fun m =>
      { s with torrentIdListMtx := m, handler := .inList k rest }
  | .inList k rest =>
    (s.torrentIdListMtx.unlock .handler).map fun m =>
      { s with torrentIdListMtx := m, handler := .branch k rest }
  | .exited => none

/-- **The two threads from the end of `Start` on.** -/
def stopMachine : System StopState StopAction where
  init s := s = ⟨.free, .free, true, .call, .whileIsWork⟩
  step s
    | .stopper => stopStep s
    | .handler => handlerStep s
    | .alertsPopped alerts =>
      if s.handler = .waitForAlert then some { s with handler := .alerts alerts } else none

/-! ## What holds in every run -/

/-- `Stop` has `workMtx` from its first step on and gets no further than the
join; the alert thread never leaves its loop, and no thread but the alert
thread, in one of its sections, holds `torrentIdListMtx`. -/
structure StopInv (s : StopState) : Prop where
  stop : (s.stop = .call ∧ s.workMtx = .free ∧ s.isWork = true) ∨
    ((s.stop = .testIsWork ∨ s.stop = .clearFlag) ∧ s.workMtx = ⟨some (.stopper, 0)⟩ ∧
      s.isWork = true) ∨
    (s.stop = .join ∧ s.workMtx = ⟨some (.stopper, 0)⟩ ∧ s.isWork = false)
  handler : s.handler ≠ .exited
  inList : ∀ k rest, s.handler = .inList k rest → s.torrentIdListMtx = ⟨some (.handler, 0)⟩
  notInList : (∀ k rest, s.handler ≠ .inList k rest) → s.torrentIdListMtx = .free

variable {s s' : StopState}

/-- `IsWork` answers a thread that is not kept out of `workMtx`. -/
theorem isWork_eq_some {t : Thread} (h : ¬ s.workMtx.BlockedFor t) :
    isWork t s = some s.isWork := by
  rw [isWork, RecursiveMutex.hold_eq_some h, Option.map_some]

/-- `IsWork` blocks where another thread has `workMtx`. -/
theorem isWork_eq_none {t : Thread} (h : s.workMtx.BlockedFor t) : isWork t s = none := by
  rw [isWork, RecursiveMutex.hold_eq_none h, Option.map_none]

/-- `Stop` keeps the alert thread out of the mutex it has. -/
theorem handler_blocked (h : s.workMtx = ⟨some (.stopper, 0)⟩) : s.workMtx.BlockedFor .handler :=
  ⟨.stopper, 0, by rw [h], by decide⟩

theorem StopInv.stopStep (hi : StopInv s) (h : stopStep s = some s') : StopInv s' := by
  obtain ⟨hstop, hexit, hin, hout⟩ := hi
  rcases hstop with ⟨hpc, hm, hw⟩ | ⟨hpc | hpc, hm, hw⟩ | ⟨hpc, hm, hw⟩
  · simp only [Torrent.stopStep, hpc, hm, RecursiveMutex.lock_free, Option.map_some] at h
    obtain rfl := Option.some.inj h
    exact ⟨.inr (.inl ⟨.inl rfl, rfl, hw⟩), hexit, hin, hout⟩
  · have hask : isWork .stopper s = some true := by
      rw [isWork_eq_some (hm ▸ RecursiveMutex.not_blockedFor_self 0), hw]
    simp only [Torrent.stopStep, hpc, hask, Option.map_some, if_true] at h
    obtain rfl := Option.some.inj h
    exact ⟨.inr (.inl ⟨.inr rfl, hm, hw⟩), hexit, hin, hout⟩
  · simp only [Torrent.stopStep, hpc] at h
    obtain rfl := Option.some.inj h
    exact ⟨.inr (.inr ⟨rfl, hm, rfl⟩), hexit, hin, hout⟩
  · simp only [Torrent.stopStep, hpc, if_neg hexit] at h
    cases h

theorem StopInv.handlerStep (hi : StopInv s) (h : handlerStep s = some s') : StopInv s' := by
  obtain ⟨hstop, hexit, hin, hout⟩ := hi
  unfold Torrent.handlerStep at h
  split at h
  case h_1 hpc =>
    -- `IsWork` returns only while `Stop` has not locked `workMtx`
    rcases hstop with ⟨hstop, hm, hw⟩ | ⟨-, hm, -⟩ | ⟨-, hm, -⟩
    · have hask : isWork .handler s = some true := by
        rw [isWork_eq_some (hm ▸ RecursiveMutex.not_blockedFor_free), hw]
      simp only [hask, Option.map_some, if_true] at h
      obtain rfl := Option.some.inj h
      exact ⟨.inl ⟨hstop, hm, hw⟩, nofun, nofun, fun _ => hout (by simp [hpc])⟩
    · simp [isWork_eq_none (handler_blocked hm)] at h
    · simp [isWork_eq_none (handler_blocked hm)] at h
  case h_2 => cases h
  case h_3 hpc | h_4 hpc | h_5 hpc =>
    obtain rfl := Option.some.inj h
    exact ⟨hstop, nofun, nofun, fun _ => hout (by simp [hpc])⟩
  case h_6 k rest hpc =>
    have hfree : s.torrentIdListMtx = .free := hout (by simp [hpc])
    simp only [hfree, RecursiveMutex.lock_free, Option.map_some] at h
    obtain rfl := Option.some.inj h
    exact ⟨hstop, nofun, fun _ _ _ => rfl, fun hne => absurd rfl (hne k rest)⟩
  case h_7 k rest hpc =>
    have hheld := hin k rest hpc
    simp only [hheld, RecursiveMutex.unlock_zero, Option.map_some] at h
    obtain rfl := Option.some.inj h
    exact ⟨hstop, nofun, nofun, fun _ => rfl⟩
  case h_8 => cases h

theorem stopInv_of_reachable (h : stopMachine.Reachable s) : StopInv s := by
  refine h.invariant (fun s hs => ?_) fun s a s' hi _ hs => ?_
  · obtain rfl := hs
    exact ⟨.inl ⟨rfl, rfl, rfl⟩, nofun, nofun, fun _ => rfl⟩
  · rcases a with _ | _ | alerts
    · exact hi.stopStep hs
    · exact hi.handlerStep hs
    · simp only [stopMachine, Option.ite_none_right_eq_some] at hs
      obtain ⟨hpc, hs⟩ := hs
      obtain rfl := Option.some.inj hs
      exact ⟨hi.stop, nofun, nofun, fun _ => hi.notInList (by simp [hpc])⟩

/-! ## The deadlock -/

/-- `Stop` waits in the join and the alert thread for `workMtx`, which `Stop`
holds. -/
def JoinDeadlock (s : StopState) : Prop :=
  s.stop = .join ∧ s.handler = .whileIsWork ∧ s.workMtx.BlockedFor .handler

/-- **Nothing moves in the deadlock.** -/
theorem JoinDeadlock.halted (h : JoinDeadlock s) : stopMachine.Halted s := by
  obtain ⟨hstop, hhandler, hblocked⟩ := h
  intro a
  rcases a with _ | _ | alerts
  · simp [stopMachine, stopStep, hstop, hhandler]
  · simp [stopMachine, handlerStep, hhandler, isWork_eq_none hblocked]
  · simp [stopMachine, hhandler]

/-- The sections of a branch, one after the other, from a free list mutex. -/
theorem leads_of_branch (k : ℕ) {rest : List AlertKind} (hpc : s.handler = .branch k rest)
    (hm : s.torrentIdListMtx = .free) : stopMachine.Leads s { s with handler := .alerts rest } := by
  induction k generalizing s with
  | zero => exact .single (a := .handler) (by simp [stopMachine, handlerStep, hpc])
  | succ k ih =>
    let s1 : StopState :=
      { s with torrentIdListMtx := ⟨some (.handler, 0)⟩, handler := .inList k rest }
    let s2 : StopState := { s1 with torrentIdListMtx := .free, handler := .branch k rest }
    -- in and out of one section, then the other `k`
    have h1 : stopMachine.Leads s s1 :=
      .single (a := .handler) (by simp [stopMachine, handlerStep, hpc, hm, s1])
    have h2 : stopMachine.Leads s1 s2 :=
      .single (a := .handler) (by simp [stopMachine, handlerStep, s1, s2])
    have h3 : stopMachine.Leads s2 { s2 with handler := .alerts rest } := ih rfl rfl
    have hback : ({ s2 with handler := .alerts rest } : StopState) =
        { s with handler := .alerts rest } := by simp [s2, s1, hm]
    exact h1.trans (h2.trans (hback ▸ h3))

/-- The alerts at hand are handled whatever they are. -/
theorem leads_of_alerts (rest : List AlertKind) (hpc : s.handler = .alerts rest)
    (hm : s.torrentIdListMtx = .free) :
    stopMachine.Leads s { s with handler := .whileIsWork } := by
  induction rest generalizing s with
  | nil => exact .single (a := .handler) (by simp [stopMachine, handlerStep, hpc])
  | cons a rest ih =>
    let s1 : StopState := { s with handler := .branch a.listSections rest }
    have h1 : stopMachine.Leads s s1 :=
      .single (a := .handler) (by simp [stopMachine, handlerStep, hpc, s1])
    have h2 : stopMachine.Leads s1 { s1 with handler := .alerts rest } :=
      leads_of_branch a.listSections rfl hm
    exact h1.trans (h2.trans (ih rfl hm))

/-- **The alert thread always comes back to its loop condition.** -/
theorem leads_whileIsWork (hi : StopInv s) :
    stopMachine.Leads s { s with torrentIdListMtx := .free, handler := .whileIsWork } := by
  have hkeep : (∀ k rest, s.handler ≠ .inList k rest) →
      ({ s with torrentIdListMtx := .free, handler := .whileIsWork } : StopState) =
        { s with handler := .whileIsWork } := fun h => by simp [hi.notInList h]
  rcases hpc : s.handler with _ | _ | rest | ⟨k, rest⟩ | ⟨k, rest⟩ | _
  · rw [hkeep (by simp [hpc]), ← hpc]
    exact .refl s
  · -- `wait_for_alert` times out
    rw [hkeep (by simp [hpc])]
    let s1 : StopState := { s with handler := .alerts [] }
    have h1 : stopMachine.Leads s s1 :=
      .single (a := .alertsPopped []) (by simp [stopMachine, hpc, s1])
    have hm : s1.torrentIdListMtx = .free := hi.notInList (by simp [hpc])
    exact h1.trans (leads_of_alerts [] rfl hm)
  · rw [hkeep (by simp [hpc])]
    exact leads_of_alerts rest hpc (hi.notInList (by simp [hpc]))
  · rw [hkeep (by simp [hpc])]
    have hm := hi.notInList (by simp [hpc])
    exact .trans (leads_of_branch k hpc hm) (leads_of_alerts rest rfl hm)
  · let s1 : StopState := { s with torrentIdListMtx := .free, handler := .branch k rest }
    have h1 : stopMachine.Leads s s1 :=
      .single (a := .handler) (by simp [stopMachine, handlerStep, hpc, hi.inList k rest hpc, s1])
    exact h1.trans (.trans (leads_of_branch k rfl rfl) (leads_of_alerts rest rfl rfl))
  · exact absurd hpc hi.handler

/-- With the alert thread at its condition, `Stop` walks into the join. -/
theorem leads_joinDeadlock (hi : StopInv s) (hpc : s.handler = .whileIsWork) :
    ∃ d, stopMachine.Leads s d ∧ JoinDeadlock d := by
  have hdead : ∀ b m, JoinDeadlock ⟨⟨some (.stopper, 0)⟩, m, b, .join, .whileIsWork⟩ :=
    fun b m => ⟨rfl, rfl, .stopper, 0, rfl, by decide⟩
  obtain ⟨w, l, b, stop, handler⟩ := s
  obtain rfl : handler = .whileIsWork := hpc
  rcases hi.stop with ⟨hs, hm, hw⟩ | ⟨hs | hs, hm, hw⟩ | ⟨hs, hm, hw⟩ <;>
    simp only at hs hm hw <;> subst hs hm hw
  · exact ⟨_, ⟨[.stopper, .stopper, .stopper], rfl⟩, hdead _ _⟩
  · exact ⟨_, ⟨[.stopper, .stopper], rfl⟩, hdead _ _⟩
  · exact ⟨_, ⟨[.stopper], rfl⟩, hdead _ _⟩
  · exact ⟨_, .refl _, hdead _ _⟩

/-- A run that halts has run into the deadlock. -/
theorem joinDeadlock_of_halted (hi : StopInv s) (h : stopMachine.Halted s) : JoinDeadlock s := by
  have hpc : s.handler = .whileIsWork :=
    (congrArg StopState.handler (h.eq_of_leads (leads_whileIsWork hi))).symm
  obtain ⟨d, hd, hdead⟩ := leads_joinDeadlock hi hpc
  exact h.eq_of_leads hd ▸ hdead

/-- **`Stop` never returns, and always can deadlock.** In no state of any run
has `Stop` returned; from every one the two threads can end up in the
deadlock of the join, where neither can take a step; and a run that comes to
a halt is in it. -/
theorem stop_deadlocks (h : stopMachine.Reachable s) :
    s.stop ≠ .returned ∧
    (∃ d, stopMachine.Leads s d ∧ JoinDeadlock d ∧ stopMachine.Halted d) ∧
    (stopMachine.Halted s → JoinDeadlock s) := by
  have hi : StopInv s := stopInv_of_reachable h
  refine ⟨?_, ?_, joinDeadlock_of_halted hi⟩
  · rcases hi.stop with ⟨hpc, -⟩ | ⟨hpc | hpc, -⟩ | ⟨hpc, -⟩ <;> simp [hpc]
  · obtain ⟨m, hm⟩ : ∃ m, m = ({ s with torrentIdListMtx := .free, handler := .whileIsWork } :
        StopState) := ⟨_, rfl⟩
    have hl : stopMachine.Leads s m := hm ▸ leads_whileIsWork hi
    have him : StopInv m := stopInv_of_reachable (h.leads hl)
    obtain ⟨d, hd, hdead⟩ := leads_joinDeadlock him (by rw [hm])
    exact ⟨d, hl.trans hd, hdead, hdead.halted⟩

/-- `Stop` called while the alert thread waits for alerts. -/
theorem stop_deadlocks_waiting :
    let s : StopState := ⟨.free, .free, true, .call, .waitForAlert⟩
    s.stop ≠ .returned ∧
    (∃ d, stopMachine.Leads s d ∧ JoinDeadlock d ∧ stopMachine.Halted d) ∧
    (stopMachine.Halted s → JoinDeadlock s) :=
  stop_deadlocks (System.reachable_of_exec [.handler] rfl rfl)

/-- **The claim fails**: the alert thread goes back to its condition after
`Stop` has taken the mutex. -/
theorem stop_can_deadlock :
    ¬ ∀ s, stopMachine.Reachable s →
      ¬ (s.stop = .join ∧ s.handler = .whileIsWork ∧ s.workMtx.BlockedFor .handler) ∧
      (s.stop ≠ .returned → ∃ a, stopMachine.step s a ≠ none) := by
  intro h
  have hreach : stopMachine.Reachable
      ⟨⟨some (.stopper, 0)⟩, .free, false, .join, .whileIsWork⟩ :=
    System.reachable_of_exec [.stopper, .stopper, .stopper] rfl rfl
  exact (h _ hreach).1 ⟨rfl, rfl, .stopper, 0, rfl, by decide⟩

end Torrent

end VerAI
