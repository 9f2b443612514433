import VerAI.Torrent.Alerts
import VerAI.Torrent.Create
/-!
# The torrent file of a download

`HandlerAlerts` stores the metadata of a download with `WriteTorrent`, under
the name in the metadata and the extension `.torrent`. When the torrent has
finished it sets the path of the record to the folder and the name of the
alert, as it stands. The two are the same file where the alert's name is the
metadata's with the extension, and not otherwise; and nothing keeps a torrent
from finishing whose metadata has not been stored.

What has been stored is kept as a history, by torrent. The names of the
alerts are whatever libtorrent reports. An exception of `WriteTorrent` ends
the process, so it is no step.
-/

namespace VerAI

namespace Torrent

open Transition (System)

/-- The file `WriteTorrent` writes for a name. -/
def torrentFilePath (directory name : String) : String := directory ++ "/" ++ name ++ ".torrent"

/-- The records and entries; the uuid each torrent was added with, in the
order they were added; and the metadata stored, with the name in it. -/
structure MetadataState where
  alerts : AlertState
  uuids : List String
  stored : List (ℕ × String)

/-- The path of the record of a uuid. -/
def MetadataState.tPath (s : MetadataState) (uuid : String) : String :=
  (s.alerts.infoManager.get uuid).tPath

section

variable {env : Environment} {s s' : MetadataState} {a : MetadataAction} {uuid : String}

/-- `CreateTorrent` stores what `WriteTorrent` returns. -/
theorem torrentFile_eq_torrentFilePath (cfg : Config) (path : String) :
    torrentFile cfg path = torrentFilePath cfg.torrentFilesDirectory (getFileName path) := rfl

section Writes

variable {m : TorrentInfoManager} {id v text : String} {status : Status} {progress : BitVec 32}

@[simp] theorem tPath_onRecord_setLink :
    ((m.onRecord id (.setLink text)).get v).tPath = (m.get v).tPath :=
  TorrentInfoManager.get_onRecord_field TorrentInfo.tPath fun _ => rfl

@[simp] theorem tPath_onRecord_setPathToProject :
    ((m.onRecord id (.setPathToProject text)).get v).tPath = (m.get v).tPath :=
  TorrentInfoManager.get_onRecord_field TorrentInfo.tPath fun _ => rfl

end Writes

end

/-! ## A link that names the file, and one that names the torrent -/

end Torrent

end VerAI
