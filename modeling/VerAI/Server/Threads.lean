import VerAI.Lib.Schedules
import VerAI.Server.Ledger
import Mathlib.Data.List.Induction
/-!
# The handler called by several threads

The methods of the handler run on the threads of the gRPC server, many at a
time. Three recursive mutexes keep them apart, and the methods that take them
call one another, so that their locks nest. Here a method is the code of a
thread: the locks it takes and gives back, and what it does between them. What
it does to the members between two of its locks is one step, also where that is
several statements, as in `AddTask`, `UpdateOrAddTorrent` and `GetTaskList`.

What a method does under `mtxTDeque` and `mtxTDownload` together is no method
of its own in the other order: `GetTorrentsForDownload` alone locks the second
and then, for `AddTask`, the first.
-/

namespace VerAI

namespace Server

open Transition.Locks (Exec Instr Runs guarded)
open Client (DaemonInfo Event TaskType)
open Torrent (RpcTorrentInfo)

/-- The mutexes of `ServerHandler`. -/
inductive ServerMutex
  | mtxTDeque
  | mtxTDownload
  | mtxTUpdate
  deriving DecidableEq, Repr

/-- What the methods do between the locks. -/
inductive ServerOp
  | emplaceUuid (daemonUUID : String)
  | testFirst (daemonUUID : String)
  | clearFirst
  | pushTask (daemonUUID : String) (taskType : TaskType)
  | pushDeque (tInfo : RpcTorrentInfo)
  | forUuids (uuid : String)
  | testDeque (daemonId : String)
  | addDownload (daemonId : String)
  | popDeque
  | addUpdate (id : String) (info : RpcTorrentInfo)
  | removeUpdate (id : String) (info : RpcTorrentInfo)
  | takeTasks (uuid : String)
  | findUuid (uuid newUuid : String)
  | findUpdates (uuid : String)
  | findDownloads (uuid : String)
  | eraseDownloads (uuid : String)
  | ret (uuid : String) (e : Event)

/-- The members of the handler, and what its methods have returned to whom. -/
structure ServerData where
  server : ServerState
  answers : List (String × Event)

/-- A change of the handler's members. -/
def ServerData.modify (s : ServerData) (f : ServerHandler → ServerHandler) : ServerData :=
  { s with server := { s.server with handler := f s.server.handler } }

/-- Whose call it is. -/
def caller : Request → String
  | .handshake uuid => uuid
  | .updateTorrentStatus dInfo _ => dInfo.uuid
  | .getTaskList info => info.uuid
  | .getInfoForGenerateTorrents info _ => info.uuid
  | .getTorrentsForUpdateStatus info => info.uuid
  | .getTorrentsForDownload info => info.uuid

/-- The data after a call, the methods taken one at a time. -/
def ServerData.serve (s : ServerData) (r : Request) : ServerData :=
  ⟨serverStep s.server r, s.answers ++ [(caller r, answer s.server r)]⟩

namespace Threads

/-- The code of a thread in the handler. -/
abbrev Code := List (Instr ServerMutex ServerOp)

/-- `ServerHandler::AddTask` -/
def addTask (daemonUUID : String) (taskType : TaskType) : Code :=
  guarded .mtxTDeque [.op (.pushTask daemonUUID taskType)]

/-- `ServerHandler::Add2UpdateList` -/
def add2UpdateList (id : String) (info : RpcTorrentInfo) : Code :=
  guarded .mtxTUpdate [.op (.addUpdate id info)]

/-- `ServerHandler::RemoveFromUpdateList` -/
def removeFromUpdateList (id : String) (info : RpcTorrentInfo) : Code :=
  guarded .mtxTUpdate [.op (.removeUpdate id info)]

/-- `ServerHandler::Add2DownloadList`, of the torrent `torrentDeque.at(0)`. -/
def add2DownloadList (id : String) : Code := guarded .mtxTDownload [.op (.addDownload id)]

/-- `ServerHandler::DownloadTorrent` -/
def downloadTorrent (daemonId : String) : Code := guarded .mtxTDeque [.op (.testDeque daemonId)]

/-- `ServerHandler::Handshake` -/
def handshake (daemonUUID : String) : Code :=
  guarded .mtxTDeque [.op (.emplaceUuid daemonUUID), .op (.testFirst daemonUUID),
    .op (.ret daemonUUID (.handshake true ⟨daemonUUID, "Some tocken", .ok⟩))]

/-- `ServerHandler::UpdateTorrentStatus` -/
def updateTorrentStatus (dInfo : DaemonInfo) (tInfo : RpcTorrentInfo) : Code :=
  guarded .mtxTDeque
    (match tInfo.status with
    | .generated =>
      if tInfo.link.isEmpty then []
      else .op (.pushDeque tInfo) ::
        (removeFromUpdateList dInfo.uuid tInfo ++ [.op (.forUuids dInfo.uuid)])
    | .downloaded => removeFromUpdateList dInfo.uuid tInfo
    | .downloading => addTask dInfo.uuid .updateTorrentStatus
    | .generating => addTask dInfo.uuid .updateTorrentStatus
    | _ => addTask dInfo.uuid .updateTorrentStatus) ++
  [.op (.ret dInfo.uuid .reported)]

/-- `ServerHandler::GetTaskList` -/
def getTaskList (dInfo : DaemonInfo) : Code := guarded .mtxTDeque [.op (.takeTasks dInfo.uuid)]

/-- `ServerHandler::GetInfoForGenerateTorrents` -/
def getInfoForGenerateTorrents (dInfo : DaemonInfo) (newUuid : String) : Code :=
  guarded .mtxTDeque [.op (.findUuid dInfo.uuid newUuid)]

/-- `ServerHandler::GetTorrentsForUpdateStatus` -/
def getTorrentsForUpdateStatus (dInfo : DaemonInfo) : Code :=
  guarded .mtxTUpdate [.op (.findUpdates dInfo.uuid)]

/-- `ServerHandler::GetTorrentsForDownload` -/
def getTorrentsForDownload (dInfo : DaemonInfo) : Code :=
  guarded .mtxTDownload [.op (.findDownloads dInfo.uuid)]

/-- The method a call of the server runs. -/
def program : Request → Code
  | .handshake uuid => handshake uuid
  | .updateTorrentStatus dInfo tInfo => updateTorrentStatus dInfo tInfo
  | .getTaskList info => getTaskList info
  | .getInfoForGenerateTorrents info newUuid => getInfoForGenerateTorrents info newUuid
  | .getTorrentsForUpdateStatus info => getTorrentsForUpdateStatus info
  | .getTorrentsForDownload info => getTorrentsForDownload info

/-- What an operation does to the members, and where the method goes on. -/
def exec : Exec ServerMutex ServerOp ServerData
  | .emplaceUuid daemonUUID, s =>
    (s.modify fun h => { h with uuids := h.uuids.insert daemonUUID }, [])
  | .testFirst daemonUUID, s =>
    (s, if s.server.isFirst then
        addTask daemonUUID .generateMagent ++
          (addTask daemonUUID .updateTorrentStatus ++ [.op .clearFirst])
      else downloadTorrent daemonUUID)
  | .clearFirst, s => ({ s with server := { s.server with isFirst := false } }, [])
  | .pushTask daemonUUID taskType, s => (s.modify (Server.addTask daemonUUID taskType), [])
  | .pushDeque tInfo, s =>
    (s.modify fun h => { h with torrentDeque := h.torrentDeque ++ [tInfo] }, [])
  | .forUuids uuid, s =>
    (s, s.server.handler.uuids.toList.flatMap fun daemonId =>
      if daemonId ≠ uuid then downloadTorrent daemonId else [])
  | .testDeque daemonId, s =>
    (s, if s.server.handler.torrentDeque.isEmpty then []
      else add2DownloadList daemonId ++ .op .popDeque :: addTask daemonId .downloadTorrent)
  | .addDownload daemonId, s =>
    (match s.server.handler.torrentDeque with
      | [] => s
      | first :: _ => s.modify (Server.add2DownloadList daemonId first), [])
  | .popDeque, s => (s.modify fun h => { h with torrentDeque := h.torrentDeque.tail }, [])
  | .addUpdate id info, s => (s.modify (Server.add2UpdateList id info), [])
  | .removeUpdate id info, s => (s.modify (Server.removeFromUpdateList id info), [])
  | .takeTasks uuid, s =>
    (s.modify fun h => { h with tasks := h.tasks.erase uuid },
      [.op (.ret uuid (.tasks (s.server.handler.tasks.getD uuid [])))])
  | .findUuid uuid newUuid, s =>
    (s, if s.server.handler.uuids.contains uuid then
        let tInfo : RpcTorrentInfo := ⟨newUuid, "", "", .none, 0, "/opt/VerAI/projects/1"⟩
        add2UpdateList uuid tInfo ++ [.op (.ret uuid (.torrents [tInfo]))]
      else [.op (.ret uuid (.torrents [⟨"", "", "", .none, 0, ""⟩]))])
  | .findUpdates uuid, s =>
    (s, [.op (.ret uuid (.torrents (s.server.handler.t2UpdateMap.getD uuid [])))])
  | .findDownloads uuid, s =>
    (s, match s.server.handler.t2DownloadMap[uuid]? with
      | some list =>
        list.flatMap (add2UpdateList uuid) ++ .op (.eraseDownloads uuid) ::
          (addTask uuid .updateTorrentStatus ++ [.op (.ret uuid (.torrents list))])
      | none => [.op (.ret uuid (.torrents []))])
  | .eraseDownloads uuid, s =>
    (s.modify fun h => { h with t2DownloadMap := h.t2DownloadMap.erase uuid }, [])
  | .ret uuid e, s => ({ s with answers := s.answers ++ [(uuid, e)] }, [])

/-! ## A method by itself -/

section Alone

variable {s : ServerData} {f g : ServerHandler → ServerHandler}

/-- Two changes one after the other are one. -/
@[simp] theorem modify_modify : (s.modify f).modify g = s.modify fun h => g (f h) := rfl

/-- `AddTask` by itself, under its lock, is the method. -/
theorem runs_addTask (uuid : String) (taskType : TaskType) :
    Runs exec (addTask uuid taskType) s (s.modify (Server.addTask uuid taskType)) :=
  .guarded (.single .nil)

/-- So is `Add2UpdateList`. -/
theorem runs_add2UpdateList (id : String) (info : RpcTorrentInfo) :
    Runs exec (add2UpdateList id info) s (s.modify (Server.add2UpdateList id info)) :=
  .guarded (.single .nil)

/-- So is `RemoveFromUpdateList`. -/
theorem runs_removeFromUpdateList (id : String) (info : RpcTorrentInfo) :
    Runs exec (removeFromUpdateList id info) s (s.modify (Server.removeFromUpdateList id info)) :=
  .guarded (.single .nil)

/-- `DownloadTorrent` by itself: nothing where the queue is empty, else the list, the
queue and the task, each under its own lock. -/
theorem runs_downloadTorrent (daemonId : String) :
    Runs exec (downloadTorrent daemonId) s (s.modify (Server.downloadTorrent daemonId)) := by
  refine .guarded (.single ?_)
  cases hdeque : s.server.handler.torrentDeque with
  | nil =>
    have hsame : s.modify (Server.downloadTorrent daemonId) = s := by
      simp [ServerData.modify, Server.downloadTorrent, hdeque]
    simp only [exec, hdeque, List.isEmpty_nil, if_true, hsame]
    exact .nil
  | cons first rest =>
    -- the three statements of `DownloadTorrent`, one after another
    have hend : s.modify (Server.downloadTorrent daemonId) =
        ((s.modify (Server.add2DownloadList daemonId first)).modify fun h =>
          { h with torrentDeque := h.torrentDeque.tail }).modify
            (Server.addTask daemonId .downloadTorrent) := by
      simp [ServerData.modify, Server.downloadTorrent, Server.addTask, Server.add2DownloadList,
        hdeque]
    simp only [exec, hdeque, List.isEmpty_cons, Bool.false_eq_true, if_false, hend]
    have hadd : Runs exec (add2DownloadList daemonId) s
        (s.modify (Server.add2DownloadList daemonId first)) := by
      refine .guarded (.single ?_)
      simp only [exec, hdeque]
      exact .nil
    exact hadd.append (.op (runs_addTask _ _))

/-- The loop of `UpdateTorrentStatus` over the daemons. -/
theorem runs_forUuids (uuid : String) (es : List String) :
    Runs exec (es.flatMap fun e => if e ≠ uuid then downloadTorrent e else []) s
      (s.modify fun h =>
        es.foldl (fun h e => if e ≠ uuid then Server.downloadTorrent e h else h) h) := by
  induction es generalizing s with
  | nil => exact .nil
  | cons e es ih =>
    by_cases he : e = uuid
    · simp only [List.flatMap_cons, List.foldl_cons, he, ne_eq, not_true_eq_false, if_false,
        List.nil_append]
      exact ih
    · simp only [List.flatMap_cons, List.foldl_cons, he, ne_eq, not_false_eq_true, if_true]
      exact (runs_downloadTorrent e).append ih

/-- The loop of `GetTorrentsForDownload` over the list of a daemon. -/
theorem runs_listed (uuid : String) (list : List RpcTorrentInfo) :
    Runs exec (list.flatMap (add2UpdateList uuid)) s
      (s.modify fun h => list.foldl (fun h info => Server.add2UpdateList uuid info h) h) := by
  induction list generalizing s with
  | nil => exact .nil
  | cons info list ih => exact (runs_add2UpdateList uuid info).append ih

/-- A handshake by itself, the first one and any later one. -/
theorem runs_handshake (uuid : String) :
    Runs exec (handshake uuid) s (s.serve (.handshake uuid)) := by
  refine .guarded (.op (.op ?_))
  cases hfirst : s.server.isFirst with
  | true =>
    have hend : s.serve (.handshake uuid) =
        (exec (.ret uuid (.handshake true ⟨uuid, "Some tocken", .ok⟩)) (exec .clearFirst
          (((s.modify fun h => { h with uuids := h.uuids.insert uuid }).modify
            (Server.addTask uuid .generateMagent)).modify
              (Server.addTask uuid .updateTorrentStatus))).1).1 := by
      simp [ServerData.serve, serverStep, caller, answer, Server.handshake, hfirst, exec,
        ServerData.modify]
    rw [hend]
    simp only [exec, ServerData.modify, hfirst, if_true, List.append_assoc]
    refine (runs_addTask _ _).append ((runs_addTask _ _).append (.op (.op .nil)))
  | false =>
    have hend : s.serve (.handshake uuid) =
        (exec (.ret uuid (.handshake true ⟨uuid, "Some tocken", .ok⟩))
          ((s.modify fun h => { h with uuids := h.uuids.insert uuid }).modify
            (Server.downloadTorrent uuid))).1 := by
      simp [ServerData.serve, serverStep, caller, answer, Server.handshake, hfirst, exec,
        ServerData.modify]
    rw [hend]
    simp only [exec, ServerData.modify, hfirst, Bool.false_eq_true, if_false]
    exact (runs_downloadTorrent _).append (.op .nil)

/-- A report by itself, one case for each status. -/
theorem runs_updateTorrentStatus (dInfo : DaemonInfo) (tInfo : RpcTorrentInfo) :
    Runs exec (updateTorrentStatus dInfo tInfo) s (s.serve (.updateTorrentStatus dInfo tInfo)) := by
  -- the handler returns after the guard has gone
  refine .append (?_ : Runs exec _ s (s.modify (Server.updateTorrentStatus dInfo tInfo)))
    (.single .nil)
  refine .guarded ?_
  cases hstatus : tInfo.status with
  | generated =>
    cases hlink : tInfo.link.isEmpty with
    | true =>
      have hsame : s.modify (Server.updateTorrentStatus dInfo tInfo) = s := by
        simp [ServerData.modify, Server.updateTorrentStatus, hstatus, hlink]
      simp only [hsame, if_true]
      exact .nil
    | false =>
      have hend : s.modify (Server.updateTorrentStatus dInfo tInfo) =
          ((s.modify fun h => { h with torrentDeque := h.torrentDeque ++ [tInfo] }).modify
            (Server.removeFromUpdateList dInfo.uuid tInfo)).modify fun h =>
              s.server.handler.uuids.toList.foldl
                (fun h e => if e ≠ dInfo.uuid then Server.downloadTorrent e h else h) h := by
        simp [ServerData.modify, Server.updateTorrentStatus, hstatus, hlink,
          Server.removeFromUpdateList, Std.TreeSet.foldl_eq_foldl_toList]
      simp only [hend, Bool.false_eq_true, if_false]
      exact .op ((runs_removeFromUpdateList _ _).append (.single (runs_forUuids _ _)))
  | downloaded =>
    have hend : s.modify (Server.updateTorrentStatus dInfo tInfo) =
        s.modify (Server.removeFromUpdateList dInfo.uuid tInfo) := by
      simp [ServerData.modify, Server.updateTorrentStatus, hstatus]
    rw [hend]
    exact runs_removeFromUpdateList _ _
  | _ =>
    have hend : s.modify (Server.updateTorrentStatus dInfo tInfo) =
        s.modify (Server.addTask dInfo.uuid .updateTorrentStatus) := by
      simp [ServerData.modify, Server.updateTorrentStatus, hstatus]
    rw [hend]
    exact runs_addTask _ _

/-- A daemon asks by itself what to generate, known to the handler or not. -/
theorem runs_getInfoForGenerateTorrents (info : DaemonInfo) (newUuid : String) :
    Runs exec (getInfoForGenerateTorrents info newUuid) s
      (s.serve (.getInfoForGenerateTorrents info newUuid)) := by
  refine .guarded (.single ?_)
  cases hin : s.server.handler.uuids.contains info.uuid with
  | true =>
    simp only [exec, hin, if_true, ServerData.serve, serverStep, answer, caller,
      Server.getInfoForGenerateTorrents]
    exact (runs_add2UpdateList _ _).append (.single .nil)
  | false =>
    simp only [exec, hin, Bool.false_eq_true, if_false, ServerData.serve, serverStep, answer,
      caller, Server.getInfoForGenerateTorrents]
    exact .single .nil

/-- A daemon fetches by itself what it is to download. -/
theorem runs_getTorrentsForDownload (info : DaemonInfo) :
    Runs exec (getTorrentsForDownload info) s (s.serve (.getTorrentsForDownload info)) := by
  refine .guarded (.single ?_)
  cases hfind : s.server.handler.t2DownloadMap[info.uuid]? with
  | none =>
    simp only [exec, hfind, ServerData.serve, serverStep, answer, caller,
      Server.getTorrentsForDownload]
    exact .single .nil
  | some list =>
    simp only [exec, hfind, ServerData.serve, serverStep, answer, caller,
      Server.getTorrentsForDownload]
    exact (runs_listed _ list).append (.op ((runs_addTask _ _).append (.single .nil)))

/-- **A method that runs by itself** does what its call does. -/
theorem runs_program (r : Request) : Runs exec (program r) s (s.serve r) := by
  cases r with
  | handshake uuid => exact runs_handshake uuid
  | updateTorrentStatus dInfo tInfo => exact runs_updateTorrentStatus dInfo tInfo
  | getTaskList info => exact .guarded (.single (.single .nil))
  | getInfoForGenerateTorrents info newUuid => exact runs_getInfoForGenerateTorrents info newUuid
  | getTorrentsForUpdateStatus info => exact .guarded (.single (.single .nil))
  | getTorrentsForDownload info => exact runs_getTorrentsForDownload info

end Alone

end Threads

end Server

end VerAI
