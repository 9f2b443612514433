import VerAI.Client.Client
import Std.Data.TreeMap.Lemmas
import Std.Data.TreeSet.Lemmas
/-!
# What the server does with a request

`ServerHandler` keeps for each daemon the tasks it has for it, the torrents it
shall download and those it shall report on, and one queue of torrents to
distribute. Each request is one step under its mutex. A torrent is recorded as
generated, and offered to the other daemons, by a report with status
`GENERATED`; `DOWNLOADED` takes it from the update list. A report of an error
only asks for the next one.
-/

namespace VerAI

namespace Server

open Client (DaemonInfo TaskType)
open Torrent (RpcTorrentInfo)

/-- `ServerHandler` -/
structure ServerHandler where
  uuids : Std.TreeSet String
  torrentDeque : List RpcTorrentInfo
  tasks : Std.TreeMap String (List TaskType)
  t2DownloadMap : Std.TreeMap String (List RpcTorrentInfo)
  t2UpdateMap : Std.TreeMap String (List RpcTorrentInfo)

/-- A server just started. -/
def ServerHandler.new : ServerHandler := ⟨∅, [], ∅, ∅, ∅⟩

/-- `ServerHandler::AddTask` -/
def addTask (daemonUUID : String) (taskType : TaskType) (s : ServerHandler) : ServerHandler :=
  { s with tasks := s.tasks.insert daemonUUID (s.tasks.getD daemonUUID [] ++ [taskType]) }

/-- `*FindTorrent(list, info) = info`, or `push_back` where there is none. -/
def updateOrAdd (info : RpcTorrentInfo) : List RpcTorrentInfo → List RpcTorrentInfo
  | [] => [info]
  | it :: rest => if info.id = it.id then info :: rest else it :: updateOrAdd info rest

/-- `ServerHandler::UpdateOrAddTorrent` -/
def updateOrAddTorrent (id : String) (info : RpcTorrentInfo)
    (infoMap : Std.TreeMap String (List RpcTorrentInfo)) :
    Std.TreeMap String (List RpcTorrentInfo) :=
  infoMap.insert id (updateOrAdd info (infoMap.getD id []))

/-- `ServerHandler::RemoveTorrent` -/
def removeTorrent (id : String) (info : RpcTorrentInfo)
    (infoMap : Std.TreeMap String (List RpcTorrentInfo)) :
    Std.TreeMap String (List RpcTorrentInfo) :=
  infoMap.modify id fun list => list.eraseP fun it => info.id = it.id

/-- `ServerHandler::RemoveFromUpdateList` -/
def removeFromUpdateList (id : String) (info : RpcTorrentInfo) (s : ServerHandler) :
    ServerHandler :=
  { s with t2UpdateMap := removeTorrent id info s.t2UpdateMap }

/-- `ServerHandler::Add2DownloadList` -/
def add2DownloadList (id : String) (info : RpcTorrentInfo) (s : ServerHandler) : ServerHandler :=
  { s with t2DownloadMap := updateOrAddTorrent id info s.t2DownloadMap }

/-- `ServerHandler::DownloadTorrent` -/
def downloadTorrent (daemonId : String) (s : ServerHandler) : ServerHandler :=
  match s.torrentDeque with
  | [] => s
  | first :: rest =>
    addTask daemonId .downloadTorrent
      (add2DownloadList daemonId first { s with torrentDeque := rest })

/-- `ServerHandler::UpdateTorrentStatus` -/
def updateTorrentStatus (dInfo : DaemonInfo) (tInfo : RpcTorrentInfo) (s : ServerHandler) :
    ServerHandler :=
  match tInfo.status with
  | .generated =>
    if tInfo.link.isEmpty then s
    else
      let s := removeFromUpdateList dInfo.uuid tInfo
        { s with torrentDeque := s.torrentDeque ++ [tInfo] }
      s.uuids.foldl
        (fun s daemonId => if daemonId ≠ dInfo.uuid then downloadTorrent daemonId s else s) s
  | .downloaded => removeFromUpdateList dInfo.uuid tInfo s
  | .downloading => addTask dInfo.uuid .updateTorrentStatus s
  | .generating => addTask dInfo.uuid .updateTorrentStatus s
  | _ => addTask dInfo.uuid .updateTorrentStatus s

/-- `ServerHandler::Add2UpdateList` -/
def add2UpdateList (id : String) (info : RpcTorrentInfo) (s : ServerHandler) : ServerHandler :=
  { s with t2UpdateMap := updateOrAddTorrent id info s.t2UpdateMap }

/-- `ServerHandler::Handshake`. `isFirst` is the static variable of its body. -/
def handshake (daemonUUID : String) (isFirst : Bool) (s : ServerHandler) :
    DaemonInfo × ServerHandler :=
  let s := { s with uuids := s.uuids.insert daemonUUID }
  (⟨daemonUUID, "Some tocken", .ok⟩,
    if isFirst then addTask daemonUUID .updateTorrentStatus (addTask daemonUUID .generateMagent s)
    else downloadTorrent daemonUUID s)

/-- `ServerHandler::GetTaskList` -/
def getTaskList (dInfo : DaemonInfo) (s : ServerHandler) : List TaskType × ServerHandler :=
  (s.tasks.getD dInfo.uuid [], { s with tasks := s.tasks.erase dInfo.uuid })

/-- `ServerHandler::GetInfoForGenerateTorrents`, with what `GenerateUUID`
gives. -/
def getInfoForGenerateTorrents (dInfo : DaemonInfo) (newUuid : String) (s : ServerHandler) :
    List RpcTorrentInfo × ServerHandler :=
  if s.uuids.contains dInfo.uuid then
    let tInfo : RpcTorrentInfo := ⟨newUuid, "", "", .none, 0, "/opt/VerAI/projects/1"⟩
    ([tInfo], add2UpdateList dInfo.uuid tInfo s)
  else ([⟨"", "", "", .none, 0, ""⟩], s)

/-- `ServerHandler::GetTorrentsForUpdateStatus` -/
def getTorrentsForUpdateStatus (dInfo : DaemonInfo) (s : ServerHandler) : List RpcTorrentInfo :=
  s.t2UpdateMap.getD dInfo.uuid []

/-- `ServerHandler::GetTorrentsForDownload` -/
def getTorrentsForDownload (dInfo : DaemonInfo) (s : ServerHandler) :
    List RpcTorrentInfo × ServerHandler :=
  match s.t2DownloadMap[dInfo.uuid]? with
  | some list =>
    let listed := list.foldl (fun s item => add2UpdateList dInfo.uuid item s) s
    (list, addTask dInfo.uuid .updateTorrentStatus
      { listed with t2DownloadMap := listed.t2DownloadMap.erase dInfo.uuid })
  | none => ([], s)

/-- **A report that is no success** only asks for the next one. -/
theorem updateTorrentStatus_eq_addTask {dInfo : DaemonInfo} {tInfo : RpcTorrentInfo}
    {s : ServerHandler} (hg : tInfo.status ≠ .generated) (hd : tInfo.status ≠ .downloaded) :
    updateTorrentStatus dInfo tInfo s = addTask dInfo.uuid .updateTorrentStatus s := by
  unfold updateTorrentStatus
  split
  case h_1 h => exact absurd h hg
  case h_2 h => exact absurd h hd
  all_goals rfl

end Server

end VerAI
