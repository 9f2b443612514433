import VerAI.Client.KeepAlive
/-!
# The controller

`Controller` owns the torrents and the client, each by a `unique_ptr`, and is
the client's callback handler: the worker of the client calls back into it and
uses the pointers there. `Start` and `Stop` run in another thread. `Stop`
releases the first pointer and resets the second, which is null before
`~GRPCClient` runs and joins the worker.

The steps of the client are those of its own machine. A pointer is used where
the body of the running task enters a callback, and where the exception of
`DownloadAsync` is handled; a null one ends the process there.
-/

namespace VerAI

namespace Controller

open Transition (System)
open Client (ClientState ClientAction Body TaskType clientMachine)

/-- The owning pointers. -/
inductive Pointer
  | torrent
  | rpcClient
  deriving DecidableEq, Repr

/-- Where the thread that calls `Start` and `Stop` stands. -/
inductive ControllerPc
  | new
  /-- In `Start`, before the client is made. -/
  | makeClient
  /-- In `Start`, before `rpcClient->Start()`. -/
  | startClient
  | starting
  /-- `Start` has returned. -/
  | running
  /-- In `Stop`, before `rpcClient.reset()`. -/
  | resetClient
  /-- In `reset`, before the destructor. -/
  | destroyClient
  | destroying
  | stopped
  deriving DecidableEq, Repr

/-- `Controller`, with the client its pointer owns or owned. `torrent` and
`rpcClient` say whether the pointers are set, `nullUsed` that one was used
that is not. -/
structure ControllerState where
  client : ClientState
  pc : ControllerPc
  torrent : Bool
  rpcClient : Bool
  nullUsed : Bool
  deriving DecidableEq, Repr

/-- A call or the next step of the controlling thread, or a step of the
threads of the client. -/
inductive ControllerAction
  | start
  | stop
  | control
  | client (a : ClientAction)

/-- The pointer the next step of a body uses. -/
def uses : Body → Option Pointer
  | .generates (_ :: _) => some .torrent
  | .downloads (_ :: _) => some .torrent
  | .rejected _ _ => some .rpcClient
  | .updates (_ :: _) => some .torrent
  | _ => none

/-- The steps of the client's own threads. -/
def isWorkerStep : ClientAction → Bool
  | .work => true
  | .deliver => true
  | .deffered _ => true
  | .body _ => true
  | _ => false

namespace ControllerState

/-- `Controller::Controller` -/
def new : ControllerState where
  client := .new
  pc := .new
  torrent := false
  rpcClient := false
  nullUsed := false

/-- The pointer is set. -/
def isSet (s : ControllerState) : Pointer → Bool
  | .torrent => s.torrent
  | .rpcClient => s.rpcClient

/-- A step of a body uses a null pointer. -/
def usesNull (s : ControllerState) : ClientAction → Bool
  | .body _ => (uses s.client.body).any fun p => !s.isSet p
  | _ => false

/-- A step of the client. -/
def onClient (uuid : String) (s : ControllerState) (a : ClientAction) : Option ControllerState :=
  ((clientMachine uuid).step s.client a).map fun c => { s with client := c }

/-- The next step of `Start` or `Stop`. -/
def controlStep (uuid : String) (s : ControllerState) : Option ControllerState :=
  match s.pc with
  | .new => none
  | .makeClient => some { s with rpcClient := true, pc := .startClient }
  | .startClient => (s.onClient uuid .start).map fun t => { t with pc := .starting }
  | .starting =>
    if s.client.pc = .idle then some { s with pc := .running } else s.onClient uuid .control
  | .running => none
  | .resetClient => some { s with rpcClient := false, pc := .destroyClient }
  | .destroyClient => (s.onClient uuid .destroy).map fun t => { t with pc := .destroying }
  | .destroying =>
    if s.client.tasksWorker.control = .destroyed then some { s with pc := .stopped }
    else s.onClient uuid .control
  | .stopped => none

end ControllerState

/-- **The machine of the controller**, the uuid being the one of its
configuration. -/
def controllerMachine (uuid : String) : System ControllerState ControllerAction where
  init s := s = .new
  step s a :=
    if s.nullUsed then none
    else
      match a with
      | .start => if s.pc = .new then some { s with torrent := true, pc := .makeClient } else none
      | .stop =>
        if s.pc = .running then some { s with torrent := false, pc := .resetClient }
        else if s.pc = .new ∨ s.pc = .stopped then some s
        else none
      | .control => s.controlStep uuid
      | .client a =>
        if isWorkerStep a then
          (s.onClient uuid a).map fun t => { t with nullUsed := s.usesNull a }
        else none

/-! ## The steps -/

section Steps

variable {uuid : String} {s s' : ControllerState} {a : ControllerAction}

/-- The client takes a step. -/
abbrev ClientStep (uuid : String) (s : ControllerState) (a : ClientAction) (c : ClientState) :
    Prop :=
  (clientMachine uuid).step s.client a = some c

/-- The steps of the controller one by one. -/
inductive Controllers (uuid : String) (s : ControllerState) :
    ControllerAction → ControllerState → Prop
  | start : s.pc = .new → Controllers uuid s .start { s with torrent := true, pc := .makeClient }
  | makeClient : s.pc = .makeClient →
      Controllers uuid s .control { s with rpcClient := true, pc := .startClient }
  | startClient {c : ClientState} : s.pc = .startClient → ClientStep uuid s .start c →
      Controllers uuid s .control { s with client := c, pc := .starting }
  | starting {c : ClientState} : s.pc = .starting → ClientStep uuid s .control c →
      Controllers uuid s .control { s with client := c }
  | started : s.pc = .starting → s.client.pc = .idle →
      Controllers uuid s .control { s with pc := .running }
  | stop : s.pc = .running →
      Controllers uuid s .stop { s with torrent := false, pc := .resetClient }
  | stopNothing : s.pc = .new ∨ s.pc = .stopped → Controllers uuid s .stop s
  | resetClient : s.pc = .resetClient →
      Controllers uuid s .control { s with rpcClient := false, pc := .destroyClient }
  | destroyClient {c : ClientState} : s.pc = .destroyClient → ClientStep uuid s .destroy c →
      Controllers uuid s .control { s with client := c, pc := .destroying }
  | destroying {c : ClientState} : s.pc = .destroying → ClientStep uuid s .control c →
      Controllers uuid s .control { s with client := c }
  | destroyed : s.pc = .destroying → s.client.tasksWorker.control = .destroyed →
      Controllers uuid s .control { s with pc := .stopped }
  | client {a : ClientAction} {c : ClientState} : isWorkerStep a = true → ClientStep uuid s a c →
      Controllers uuid s (.client a) { s with client := c, nullUsed := s.usesNull a }

theorem onClient_eq_some_iff {a : ClientAction} : s.onClient uuid a = some s' ↔
    ∃ c, ClientStep uuid s a c ∧ s' = { s with client := c } := by
  simp only [ControllerState.onClient, Option.map_eq_some_iff, eq_comm (b := s')]

theorem map_onClient_eq_some {a : ClientAction} {f : ControllerState → ControllerState}
    (h : (s.onClient uuid a).map f = some s') :
    ∃ c, ClientStep uuid s a c ∧ s' = f { s with client := c } := by
  obtain ⟨r, hr, rfl⟩ := Option.map_eq_some_iff.mp h
  obtain ⟨c, hc, rfl⟩ := onClient_eq_some_iff.mp hr
  exact ⟨c, hc, rfl⟩

theorem controllers_of_controlStep (h : s.controlStep uuid = some s') :
    Controllers uuid s .control s' := by
  unfold ControllerState.controlStep at h
  split at h
  case h_1 => cases h
  case h_2 hpc => exact Option.some.inj h ▸ .makeClient hpc
  case h_3 hpc =>
    obtain ⟨c, hc, rfl⟩ := map_onClient_eq_some h
    exact .startClient hpc hc
  case h_4 hpc =>
    split at h
    case isTrue hidle => exact Option.some.inj h ▸ .started hpc hidle
    case isFalse =>
      obtain ⟨c, hc, rfl⟩ := onClient_eq_some_iff.mp h
      exact .starting hpc hc
  case h_5 => cases h
  case h_6 hpc => exact Option.some.inj h ▸ .resetClient hpc
  case h_7 hpc =>
    obtain ⟨c, hc, rfl⟩ := map_onClient_eq_some h
    exact .destroyClient hpc hc
  case h_8 hpc =>
    split at h
    case isTrue hdone => exact Option.some.inj h ▸ .destroyed hpc hdone
    case isFalse =>
      obtain ⟨c, hc, rfl⟩ := onClient_eq_some_iff.mp h
      exact .destroying hpc hc
  case h_9 => cases h

/-- **What a step of the controller can be.** -/
theorem controllers_of_step (h : (controllerMachine uuid).step s a = some s') :
    Controllers uuid s a s' := by
  obtain ⟨-, h⟩ := Option.ite_none_left_eq_some.mp h
  rcases a with _ | _ | _ | a
  · obtain ⟨hpc, h⟩ := Option.ite_none_right_eq_some.mp h
    exact Option.some.inj h ▸ .start hpc
  · dsimp only at h
    split at h
    case isTrue hpc => exact Option.some.inj h ▸ .stop hpc
    case isFalse =>
      obtain ⟨hpc, h⟩ := Option.ite_none_right_eq_some.mp h
      exact Option.some.inj h ▸ .stopNothing hpc
  · exact controllers_of_controlStep h
  · obtain ⟨ha, h⟩ := Option.ite_none_right_eq_some.mp h
    obtain ⟨c, hc, rfl⟩ := map_onClient_eq_some h
    exact .client ha hc

/-- **The controller runs the machine of its client.** -/
theorem Controllers.client_leads (h : Controllers uuid s a s') :
    (clientMachine uuid).Leads s.client s'.client := by
  cases h with
  | startClient _ hc | starting _ hc | destroyClient _ hc | destroying _ hc | client _ hc =>
    exact .single hc
  | _ => exact .refl _

theorem client_of_reachableUnder {C : ControllerState → ControllerAction → Prop}
    (h : (controllerMachine uuid).ReachableUnder C s) : (clientMachine uuid).Reachable s.client :=
  h.invariant (I := fun s => (clientMachine uuid).Reachable s.client)
    (fun _ hs => hs ▸ .init rfl) fun _ _ _ hi _ hs => hi.leads (controllers_of_step hs).client_leads

/-- `Start` of the controller, up to the task list of the first poll. -/
def startAndPoll (taskList : List TaskType) : List ControllerAction :=
  [.start, .control, .control, .control, .control, .control, .control, .control,
    .client .work, .client .work, .client .work, .client .work,
    .client (.body (.handshake true ⟨"a", "token", .ok⟩)), .client (.body .next),
    .client .work, .client .work, .client .work, .client .work, .client .work,
    .client (.body .next), .client (.body .next), .client (.body (.tasks taskList))]

end Steps

end Controller

end VerAI
