import VerAI.Controller.Controller
import VerAI.Client.Callbacks
/-!
# Stopping the controller

`Controller::Stop` clears both pointers while the worker of the client still
runs: it goes on with the task it is in, with its batch and its queue, polls
the server and adds what it is sent, and only then is it joined. A callback
that comes after `torrent.release()` uses a null pointer.

None comes where the client has no callback ahead when `Stop` is called and
none of the task lists it still receives asks for one.
-/

namespace VerAI

namespace Controller

open Transition (System)
open Client (CallbackFree Body ClientAction clients_of_step)

/-- `torrent.release()` has been called. -/
def ControllerState.released (s : ControllerState) : Bool :=
  s.pc = .resetClient ∨ s.pc = .destroyClient ∨ s.pc = .destroying ∨ s.pc = .stopped

/-- `Stop` is called where no callback is ahead, and no task list received
after it asks for one. -/
def StopsQuiet (s : ControllerState) : ControllerAction → Prop
  | .stop => s.pc = .running → CallbackFree s.client
  | .client (.body (.tasks taskList)) =>
    s.released = true → ∀ taskType ∈ taskList, taskType.callsBack = false
  | _ => True

instance (s : ControllerState) (a : ControllerAction) : Decidable (StopsQuiet s a) := by
  unfold StopsQuiet
  split <;> infer_instance

section Runs

variable {uuid : String} {s s' : ControllerState} {a : ControllerAction}

/-- Where the pointers are set, and what is ahead where they are not. -/
structure ShutdownInv (s : ControllerState) : Prop where
  torrent : s.pc ≠ .new → s.released = false → s.torrent = true
  rpcClient : s.pc ≠ .new → s.pc ≠ .makeClient → s.released = false → s.rpcClient = true
  /-- Before `rpcClient->Start()` the client has nothing to run. -/
  unstarted : s.pc = .new ∨ s.pc = .makeClient ∨ s.pc = .startClient → s.client.armed = false
  released : s.released = true → CallbackFree s.client
  unused : s.nullUsed = false

/-- Between `Start` and `Stop` both pointers are set. -/
theorem ShutdownInv.set (hi : ShutdownInv s) (hnew : s.pc ≠ .new) (hmake : s.pc ≠ .makeClient)
    (hrel : s.released = false) : s.torrent = true ∧ s.rpcClient = true :=
  ⟨hi.torrent hnew hrel, hi.rpcClient hnew hmake hrel⟩

theorem uses_eq_none {body : Body} {r : Bool} (h : body.callsBack r = false) :
    uses body = none := by
  unfold uses
  split
  case h_5 => rfl
  all_goals cases h

/-- **In a step of the client every pointer used is set.** -/
theorem ShutdownInv.usesNull {a : ClientAction} (hi : ShutdownInv s)
    (hk : Client.KeepAliveInv s.client) : s.usesNull a = false := by
  cases a with
  | body e =>
    show (uses s.client.body).any (fun p => !s.isSet p) = false
    by_cases hstart : s.pc = .new ∨ s.pc = .makeClient ∨ s.pc = .startClient
    · rw [(hk.unarmed (hi.unstarted hstart)).2]
      rfl
    · by_cases hrel : s.released = true
      · rw [uses_eq_none (hi.released hrel).2]
        rfl
      · rw [Bool.not_eq_true] at hrel
        simp only [not_or] at hstart
        obtain ⟨ht, hr⟩ := hi.set hstart.1 hstart.2.1 hrel
        cases uses s.client.body with
        | none => rfl
        | some p => cases p <;> simp [ControllerState.isSet, ht, hr]
  | _ => rfl

theorem armed_of_workerStep {a : ClientAction} {c : Client.ClientState}
    (h : Client.Clients uuid s.client a c) (ha : isWorkerStep a = true) :
    c.armed = s.client.armed := by
  cases h with
  | work | deliver | deffered => rfl
  | body hb => exact hb.control.2.2.2.1
  | _ => cases ha

theorem ShutdownInv.step (hi : ShutdownInv s) (hk : Client.KeepAliveInv s.client)
    (hw : Worker.ThreadInv s.client.tasksWorker) (hc : StopsQuiet s a)
    (h : Controllers uuid s a s') : ShutdownInv s' := by
  have hfree : ∀ {b c}, s.released = true → ClientStep uuid s b c →
      (∀ taskList, b = .body (.tasks taskList) →
        ∀ taskType ∈ taskList, taskType.callsBack = false) → CallbackFree c :=
    fun hrel hb he => (clients_of_step hb).callbackFree hw (hi.released hrel) he
  cases h with
  | start hpc =>
    exact ⟨fun _ _ => rfl, fun _ hne => absurd rfl hne, fun _ => hi.unstarted (.inl hpc),
      fun h => by simp [ControllerState.released] at h, hi.unused⟩
  | makeClient hpc =>
    have ht := hi.torrent (by simp [hpc]) (by simp [ControllerState.released, hpc])
    exact ⟨fun _ _ => ht, fun _ _ _ => rfl, fun _ => hi.unstarted (.inr (.inl hpc)),
      fun h => by simp [ControllerState.released] at h, hi.unused⟩
  | startClient hpc | started hpc =>
    have hrel : s.released = false := by simp [ControllerState.released, hpc]
    obtain ⟨ht, hr⟩ := hi.set (by simp [hpc]) (by simp [hpc]) hrel
    exact ⟨fun _ _ => ht, fun _ _ _ => hr, fun h => by simp at h,
      fun h => by simp [ControllerState.released] at h, hi.unused⟩
  | starting hpc =>
    exact ⟨hi.torrent, hi.rpcClient, fun h => by simp [hpc] at h,
      fun h => by simp [ControllerState.released, hpc] at h, hi.unused⟩
  | stop hpc =>
    exact ⟨fun _ h => by simp [ControllerState.released] at h,
      fun _ _ h => by simp [ControllerState.released] at h, fun h => by simp at h,
      fun _ => hc hpc, hi.unused⟩
  | stopNothing => exact hi
  | resetClient hpc =>
    exact ⟨fun _ h => by simp [ControllerState.released] at h,
      fun _ _ h => by simp [ControllerState.released] at h, fun h => by simp at h,
      fun _ => hi.released (by simp [ControllerState.released, hpc]), hi.unused⟩
  | destroyClient hpc hstep =>
    have hrel : s.released = true := by simp [ControllerState.released, hpc]
    exact ⟨fun _ h => by simp [ControllerState.released] at h,
      fun _ _ h => by simp [ControllerState.released] at h, fun h => by simp at h,
      fun _ => hfree hrel hstep (fun _ h => by cases h), hi.unused⟩
  | destroying hpc hstep =>
    have hrel : s.released = true := by simp [ControllerState.released, hpc]
    exact ⟨hi.torrent, hi.rpcClient, fun h => by simp [hpc] at h,
      fun _ => hfree hrel hstep (fun _ h => by cases h), hi.unused⟩
  | destroyed hpc =>
    exact ⟨fun _ h => by simp [ControllerState.released] at h,
      fun _ _ h => by simp [ControllerState.released] at h, fun h => by simp at h,
      fun _ => hi.released (by simp [ControllerState.released, hpc]), hi.unused⟩
  | @client b c ha hstep =>
    refine ⟨hi.torrent, hi.rpcClient, fun h => ?_, fun hrel => hfree hrel hstep ?_,
      hi.usesNull hk⟩
    · exact (armed_of_workerStep (clients_of_step hstep) ha).trans (hi.unstarted h)
    · rintro taskList rfl
      exact hc hrel

/-- **The invariant holds in the runs that stop quietly.** -/
theorem shutdown_of_reachable (h : (controllerMachine uuid).ReachableUnder StopsQuiet s) :
    ShutdownInv s := by
  induction h with
  | init hs =>
    exact hs ▸ ⟨fun h => absurd rfl h, fun h => absurd rfl h, fun _ => rfl,
      fun h => by simp [ControllerState.released, ControllerState.new] at h, rfl⟩
  | step hreach hc hstep ih =>
    have hclient := client_of_reachableUnder hreach
    exact ih.step (Client.keepAlive_of_reachable hclient)
      (Worker.threadInv_of_reachable (Client.worker_of_reachable hclient)) hc
      (controllers_of_step hstep)

/-- **When stopping is safe for the callbacks.** In every run in which `Stop`
is called with no callback ahead, and no task list received after it asks for
one, no callback finds a null pointer. -/
theorem stop_usesNoNull (h : (controllerMachine uuid).ReachableUnder StopsQuiet s) :
    s.nullUsed = false :=
  (shutdown_of_reachable h).unused

theorem startAndPoll_usesNoNull :
    ∃ s, (controllerMachine "a").ReachableUnder StopsQuiet s ∧ s.pc = .destroying ∧
      s.torrent = false ∧ s.nullUsed = false := by
  have hrun : (((controllerMachine "a").restrict StopsQuiet).exec .new
      (startAndPoll [] ++ [.stop, .control, .control, .client (.body .next)])).map
      (fun s => (s.pc, s.torrent)) = some (.destroying, false) := by decide
  obtain ⟨s, hs, hview⟩ := Option.map_eq_some_iff.mp hrun
  obtain ⟨hpc, ht⟩ := Prod.mk.inj hview
  have hreach : (controllerMachine "a").ReachableUnder StopsQuiet s :=
    System.reachableUnder_of_exec _ rfl hs
  exact ⟨s, hreach, hpc, ht, stop_usesNoNull hreach⟩

/-- A download is added and the controller is stopped. -/
def stopBeforeDownload : List ControllerAction :=
  startAndPoll [.downloadTorrent] ++
    [.client (.body .next), .stop, .client (.body .next), .client .work, .client .work,
      .client .work, .client .work, .client .work, .client (.body .next),
      .client (.body (.torrents [⟨"t", "magnet:", "", .none, 0, ""⟩])), .client (.body .next)]

/-- **A callback after the release** uses a null pointer. -/
theorem stopBeforeDownload_usesNull :
    ¬ ∀ s, (controllerMachine "a").Reachable s → s.nullUsed = false := by
  intro h
  have hrun : ((controllerMachine "a").exec .new stopBeforeDownload).map
      ControllerState.nullUsed = some true := by decide
  obtain ⟨s, hs, hnull⟩ := Option.map_eq_some_iff.mp hrun
  have := h s (System.reachable_of_exec _ rfl hs)
  rw [hnull] at this
  cases this

end Runs

end Controller

end VerAI
