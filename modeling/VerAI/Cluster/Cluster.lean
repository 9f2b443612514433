import VerAI.Controller.Daemon
import VerAI.Server.Ledger
import VerAI.Server.Polling
import Mathlib.Logic.Function.Basic
/-!
# The daemons and their server

Any number of daemons, each with its own configuration and its own torrents,
and the one server they call. A step is one of a daemon, or a request of a
daemon together with its answer. The network may fail: a request may not
reach the server, and the answer of one that did may be cut off, so that the
daemon sees an error and of a stream the messages that came before it.

Each daemon of the cluster runs the machine of a daemon, and the server its
own, so whatever holds of their runs holds here.
-/

namespace VerAI

namespace Cluster

open Transition (System)
open Client (Body Call DaemonInfo Event)
open Controller (DaemonState DaemonAction daemonMachine)
open Server (Request ServerState after answer isAnswer serverStep)
open Torrent (Config Environment)

/-- A daemon as it is installed. -/
structure Setup where
  cfg : Config
  env : Environment
  uuid : String

/-- The daemons and the server, with the requests that have reached it. -/
structure ClusterState (ι : Type) where
  daemons : ι → DaemonState
  server : ServerState
  requests : List Request

/-- What becomes of a request. -/
inductive Delivery
  | answered
  /-- The server has it, and of a stream these many messages come back. -/
  | broken (received : ℕ)
  /-- It does not reach the server. -/
  | lost
  deriving DecidableEq, Repr

/-- A step of a daemon that needs no answer, or the request its running task is
at. `newUuid` is what `GenerateUUID` gives on the server. -/
inductive ClusterAction (ι : Type)
  | daemon (i : ι) (a : DaemonAction)
  | rpc (i : ι) (d : Delivery) (newUuid : String)

/-- The request of a call. -/
def request (info : DaemonInfo) (newUuid : String) : Call → Request
  | .getTaskList => .getTaskList info
  | .getInfoForGenerateTorrents => .getInfoForGenerateTorrents info newUuid
  | .getTorrentsForDownload => .getTorrentsForDownload info
  | .getTorrentsForUpdateStatus => .getTorrentsForUpdateStatus info
  | .updateTorrentStatus tInfo _ _ => .updateTorrentStatus info tInfo

/-- The request a body stands at. -/
def asked (uuid newUuid : String) : Body → Option Request
  | .handshake => some (.handshake uuid)
  | .call c info => some (request info newUuid c)
  | _ => none

/-- What comes of an answer cut off after some messages. -/
def truncate (received : ℕ) : Event → Event
  | .handshake _ _ => .handshake false {}
  | .tasks taskList => .tasks (taskList.take received)
  | .torrents torrentList => .torrents (torrentList.take received)
  | e => e

/-- What the daemon sees of the answer. -/
def Delivery.event : Delivery → Event → Event
  | answered, e => e
  | broken received, e => truncate received e
  | lost, e => truncate 0 e

/-- The step gets something from the server. -/
def needsAnswer : DaemonAction → Bool
  | .controller (.client (.body e)) => isAnswer e
  | _ => false

/-- The daemon gets an answer. -/
def answerStep (e : Event) : DaemonAction := .controller (.client (.body e))

variable {ι : Type} [DecidableEq ι]

def ClusterState.setDaemon (s : ClusterState ι) (i : ι) (d : DaemonState) : ClusterState ι :=
  { s with daemons := Function.update s.daemons i d }

/-- The server takes a request. -/
def ClusterState.serve (s : ClusterState ι) (r : Request) : ClusterState ι :=
  { s with server := serverStep s.server r, requests := s.requests ++ [r] }

abbrev Setup.machine (setup : Setup) : System DaemonState DaemonAction :=
  daemonMachine setup.cfg setup.env setup.uuid

def clusterStep (setup : ι → Setup) (s : ClusterState ι) : ClusterAction ι → Option (ClusterState ι)
  | .daemon i a =>
    if needsAnswer a then none
    else ((setup i).machine.step (s.daemons i) a).map (s.setDaemon i)
  | .rpc i d newUuid =>
    (asked (setup i).uuid newUuid (s.daemons i).controller.client.body).bind fun r =>
      ((setup i).machine.step (s.daemons i) (answerStep (d.event (answer s.server r)))).map
        fun daemon =>
          match d with
          | .lost => s.setDaemon i daemon
          | _ => (s.serve r).setDaemon i daemon

/-- **The machine of the cluster.** -/
def clusterMachine (setup : ι → Setup) : System (ClusterState ι) (ClusterAction ι) where
  init s := s = ⟨fun _ => .new, ⟨.new, true⟩, []⟩
  step := clusterStep setup

/-! ## The steps -/

section Steps

variable {setup : ι → Setup} {s s' : ClusterState ι} {a : ClusterAction ι} {i : ι}

/-- One daemon of the cluster takes a step. -/
abbrev DaemonStep (setup : ι → Setup) (s : ClusterState ι) (i : ι) (a : DaemonAction)
    (d : DaemonState) : Prop :=
  (setup i).machine.step (s.daemons i) a = some d

/-- The steps of the cluster one by one. -/
inductive Clusters (setup : ι → Setup) (s : ClusterState ι) :
    ClusterAction ι → ClusterState ι → Prop
  | daemon {i : ι} {a : DaemonAction} {d : DaemonState} : needsAnswer a = false →
      DaemonStep setup s i a d → Clusters setup s (.daemon i a) (s.setDaemon i d)
  | lost {i : ι} {newUuid : String} {r : Request} {d : DaemonState} :
      asked (setup i).uuid newUuid (s.daemons i).controller.client.body = some r →
      DaemonStep setup s i (answerStep (truncate 0 (answer s.server r))) d →
      Clusters setup s (.rpc i .lost newUuid) (s.setDaemon i d)
  | served {i : ι} {delivery : Delivery} {newUuid : String} {r : Request} {d : DaemonState} :
      delivery ≠ .lost →
      asked (setup i).uuid newUuid (s.daemons i).controller.client.body = some r →
      DaemonStep setup s i (answerStep (delivery.event (answer s.server r))) d →
      Clusters setup s (.rpc i delivery newUuid) ((s.serve r).setDaemon i d)

/-- **What a step of the cluster can be.** -/
theorem clusters_of_step (h : (clusterMachine setup).step s a = some s') :
    Clusters setup s a s' := by
  cases a with
  | daemon i a =>
    obtain ⟨ha, h⟩ := Option.ite_none_left_eq_some.mp h
    obtain ⟨d, hd, rfl⟩ := Option.map_eq_some_iff.mp h
    exact .daemon (Bool.eq_false_iff.mpr ha) hd
  | rpc i delivery newUuid =>
    obtain ⟨r, hr, h⟩ := Option.bind_eq_some_iff.mp h
    obtain ⟨d, hd, rfl⟩ := Option.map_eq_some_iff.mp h
    cases delivery with
    | lost => exact .lost hr hd
    | answered => exact .served (by decide) hr hd
    | broken received => exact .served nofun hr hd

@[simp] theorem daemons_setDaemon_self {d : DaemonState} : (s.setDaemon i d).daemons i = d :=
  Function.update_self ..

theorem daemons_setDaemon_of_ne {d : DaemonState} {j : ι} (h : j ≠ i) :
    (s.setDaemon i d).daemons j = s.daemons j :=
  Function.update_of_ne h ..

/-- **What a step does to the daemons**: one of them takes a step. -/
theorem Clusters.daemons (h : Clusters setup s a s') : ∃ i b d, DaemonStep setup s i b d ∧
    s'.daemons = Function.update s.daemons i d := by
  cases h with
  | daemon _ hd | lost _ hd | served _ _ hd => exact ⟨_, _, _, hd, rfl⟩

/-- A daemon of the cluster runs the machine of a daemon. -/
theorem Clusters.daemon_leads (h : Clusters setup s a s') (i : ι) :
    (setup i).machine.Leads (s.daemons i) (s'.daemons i) := by
  obtain ⟨j, b, d, hd, heq⟩ := h.daemons
  rw [heq]
  -- the daemon that stepped, or one that stands still
  by_cases hij : i = j
  · subst hij
    rw [Function.update_self]
    exact .single hd
  · rw [Function.update_of_ne hij]
    exact .refl _

/-- **Each daemon runs its own machine**, so what holds along its runs holds in
the cluster. -/
theorem daemon_of_reachable (h : (clusterMachine setup).Reachable s) (i : ι) :
    (setup i).machine.Reachable (s.daemons i) := by
  refine h.invariant (I := fun s => ∀ i, (setup i).machine.Reachable (s.daemons i)) ?_ ?_ i
  · rintro s rfl i
    exact .init rfl
  · intro s a s' hs _ hstep i
    exact (hs i).leads ((clusters_of_step hstep).daemon_leads i)

/-- **The server runs its own machine** on the requests that have reached it. -/
theorem server_of_reachable (h : (clusterMachine setup).Reachable s) :
    s.server = after s.requests := by
  refine h.invariant (I := fun s => s.server = after s.requests) ?_ ?_
  · rintro s rfl
    rfl
  · intro s a s' hs _ hstep
    cases clusters_of_step hstep with
    | daemon | lost => exact hs
    | @served i delivery newUuid r d =>
      show serverStep s.server r = after (s.requests ++ [r])
      rw [hs, after, after, List.foldl_append]
      rfl

omit [DecidableEq ι] in
/-- A request is served as by the server of one client. -/
theorem serve_eq (info : DaemonInfo) (newUuid : String) (server : ServerState) (c : Call) :
    Server.serve info newUuid server.handler c =
      (answer server (request info newUuid c), (serverStep server (request info newUuid c)).handler)
    := by
  cases c with
  | _ => rfl

end Steps

end Cluster

end VerAI
