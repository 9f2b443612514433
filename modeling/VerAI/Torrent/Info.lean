import Mathlib.Data.Int.Notation
import Std.Data.TreeMap.Lemmas
/-!
# Torrent records and their manager

`TorrentInfo` is the record of one uuid. Each of its setters and getters is a
critical section of the record's own mutex, so each is one step and a setter
is a function on records. `TorrentInfoManager` keeps the records by uuid and
hands out pointers: a setter called on the pointer of `Get` or `Create` acts
on the record in the map, and is lost where `Get` found none and made a fresh
object.
-/

namespace VerAI

namespace Torrent

/-- `TorrentInfo::Status` -/
inductive Status
  | unknown
  | downloading
  | downloaded
  | downloadingError
  | generating
  | generated
  | generationError
  | paused
  deriving DecidableEq, Repr

/-- `TorrentInfo`, with the defaults of its constructor. -/
structure TorrentInfo where
  tId : String
  tLink : String := ""
  tPath : String := ""
  pPath : String := ""
  tStatus : Status := .unknown
  tProgress : BitVec 32 := 0
  deriving DecidableEq, Repr

namespace TorrentInfo

def setLink (link : String) (info : TorrentInfo) : TorrentInfo := { info with tLink := link }

def setPathToProject (path : String) (info : TorrentInfo) : TorrentInfo :=
  { info with pPath := path }

def setPathToTFile (path : String) (info : TorrentInfo) : TorrentInfo := { info with tPath := path }

def setStatus (status : Status) (info : TorrentInfo) : TorrentInfo :=
  { info with tStatus := status }

/-- `SetProgress`: an `int` stored as a `uint`. -/
def setProgress (progress : BitVec 32) (info : TorrentInfo) : TorrentInfo :=
  { info with tProgress := progress }

end TorrentInfo

/-- `TorrentInfoManager` -/
structure TorrentInfoManager where
  infoList : Std.TreeMap String TorrentInfo

namespace TorrentInfoManager

/-- A manager just constructed. -/
def empty : TorrentInfoManager := ⟨∅⟩

/-- There is a record of `id`. -/
def Has (m : TorrentInfoManager) (id : String) : Prop := id ∈ m.infoList

instance (m : TorrentInfoManager) (id : String) : Decidable (m.Has id) :=
  inferInstanceAs (Decidable (id ∈ m.infoList))

/-- `TorrentInfoManager::Create` -/
def create (id : String) (m : TorrentInfoManager) : TorrentInfoManager :=
  ⟨m.infoList.insertIfNew id { tId := id }⟩

/-- What the pointer of `TorrentInfoManager::Get` reads. -/
def get (id : String) (m : TorrentInfoManager) : TorrentInfo :=
  m.infoList.getD id { tId := id }

/-- A setter called on the pointer of `Get` or `Create`. -/
def onRecord (id : String) (setter : TorrentInfo → TorrentInfo) (m : TorrentInfoManager) :
    TorrentInfoManager :=
  ⟨m.infoList.modify id setter⟩

variable {m : TorrentInfoManager} {id id' : String} {f : TorrentInfo → TorrentInfo}

theorem has_create : (m.create id).Has id := by
  simp [Has, create]

theorem Has.create (h : m.Has id') : (m.create id).Has id' := by
  simp only [Has, TorrentInfoManager.create, Std.TreeMap.mem_insertIfNew]
  exact .inr h

@[simp] theorem has_onRecord : (m.onRecord id f).Has id' ↔ m.Has id' :=
  Std.TreeMap.mem_modify

/-- A fresh record reads like a missing one. -/
@[simp] theorem get_create : (m.create id).get id' = m.get id' := by
  simp only [get, create, Std.TreeMap.getD_insertIfNew]
  split
  · rename_i h
    obtain rfl : id = id' := Std.LawfulEqOrd.eq_of_compare h.1
    exact (Std.TreeMap.getD_eq_fallback h.2).symm
  · rfl

/-- A setter changes the record it is called on. -/
theorem get_onRecord_self (h : m.Has id) : (m.onRecord id f).get id = f (m.get id) := by
  have hget : m.infoList[id]? = some (m.get id) := Std.TreeMap.getElem?_eq_some_getD h
  rw [get, onRecord, Std.TreeMap.getD_modify_self, hget]
  rfl

/-- And no other. -/
theorem get_onRecord_of_ne (h : id ≠ id') : (m.onRecord id f).get id' = m.get id' := by
  have hcmp : compare id id' ≠ .eq := fun hc => h (Std.LawfulEqOrd.eq_of_compare hc)
  rw [get, onRecord, Std.TreeMap.getD_modify, if_neg hcmp]
  rfl

/-- A setter on a pointer to no record is lost. -/
theorem get_onRecord_of_not_has (h : ¬ m.Has id) : (m.onRecord id f).get id' = m.get id' := by
  by_cases hid : id = id'
  · subst hid
    have h' : ¬ (m.onRecord id f).Has id := mt has_onRecord.mp h
    rw [get, get, Std.TreeMap.getD_eq_fallback h, Std.TreeMap.getD_eq_fallback h']
  · exact get_onRecord_of_ne hid

/-- A record after a setter has been called is as before, or it is the one
written to. -/
theorem get_onRecord_cases (m : TorrentInfoManager) (id id' : String)
    (f : TorrentInfo → TorrentInfo) : (m.onRecord id f).get id' = m.get id' ∨
      id' = id ∧ (m.onRecord id f).get id' = f (m.get id') := by
  by_cases hid : id = id'
  · subst hid
    by_cases hm : m.Has id
    · exact .inr ⟨rfl, get_onRecord_self hm⟩
    · exact .inl (get_onRecord_of_not_has hm)
  · exact .inl (get_onRecord_of_ne hid)

/-- What a setter does not write is read as before. -/
theorem get_onRecord_field {β : Type} (g : TorrentInfo → β) (hf : ∀ info, g (f info) = g info) :
    g ((m.onRecord id f).get id') = g (m.get id') := by
  rcases get_onRecord_cases m id id' f with h | ⟨-, h⟩
  · rw [h]
  · rw [h, hf]

/-! What each setter leaves, as far as it is read back. -/

section Fields

variable {text : String} {status : Status} {progress : BitVec 32}

@[simp] theorem tId_onRecord_setLink :
    ((m.onRecord id (.setLink text)).get id').tId = (m.get id').tId :=
  get_onRecord_field TorrentInfo.tId fun _ => rfl

@[simp] theorem tId_onRecord_setPathToProject :
    ((m.onRecord id (.setPathToProject text)).get id').tId = (m.get id').tId :=
  get_onRecord_field TorrentInfo.tId fun _ => rfl

@[simp] theorem tId_onRecord_setPathToTFile :
    ((m.onRecord id (.setPathToTFile text)).get id').tId = (m.get id').tId :=
  get_onRecord_field TorrentInfo.tId fun _ => rfl

@[simp] theorem tId_onRecord_setStatus :
    ((m.onRecord id (.setStatus status)).get id').tId = (m.get id').tId :=
  get_onRecord_field TorrentInfo.tId fun _ => rfl

@[simp] theorem tId_onRecord_setProgress :
    ((m.onRecord id (.setProgress progress)).get id').tId = (m.get id').tId :=
  get_onRecord_field TorrentInfo.tId fun _ => rfl

@[simp] theorem tStatus_onRecord_setPathToTFile :
    ((m.onRecord id (.setPathToTFile text)).get id').tStatus = (m.get id').tStatus :=
  get_onRecord_field TorrentInfo.tStatus fun _ => rfl

@[simp] theorem tStatus_onRecord_setProgress :
    ((m.onRecord id (.setProgress progress)).get id').tStatus = (m.get id').tStatus :=
  get_onRecord_field TorrentInfo.tStatus fun _ => rfl

end Fields

/-- `Torrent::UpdateStatus` -/
def updateStatus (uuid : String) (status : Status) (progress : BitVec 32)
    (m : TorrentInfoManager) : TorrentInfoManager :=
  (m.onRecord uuid (.setStatus status)).onRecord uuid (.setProgress progress)

/-- The record `UpdateStatus` leaves. -/
theorem get_updateStatus_self {status : Status} {progress : BitVec 32} (h : m.Has id) :
    (m.updateStatus id status progress).get id =
      ((m.get id).setStatus status).setProgress progress := by
  rw [updateStatus, get_onRecord_self (has_onRecord.mpr h), get_onRecord_self h]

theorem get_updateStatus_of_ne {status : Status} {progress : BitVec 32} (h : id ≠ id') :
    (m.updateStatus id status progress).get id' = m.get id' := by
  rw [updateStatus, get_onRecord_of_ne h, get_onRecord_of_ne h]

@[simp] theorem has_updateStatus {status : Status} {progress : BitVec 32} :
    (m.updateStatus id status progress).Has id' ↔ m.Has id' := by
  rw [updateStatus, has_onRecord, has_onRecord]

@[simp] theorem tId_updateStatus {status : Status} {progress : BitVec 32} :
    ((m.updateStatus id status progress).get id').tId = (m.get id').tId := by
  rw [updateStatus, tId_onRecord_setProgress, tId_onRecord_setStatus]

/-- A status after `UpdateStatus` is as before, or the one written. -/
theorem tStatus_updateStatus_cases {status : Status} {progress : BitVec 32} :
    ((m.updateStatus id status progress).get id').tStatus = (m.get id').tStatus ∨
      id' = id ∧ ((m.updateStatus id status progress).get id').tStatus = status := by
  rw [updateStatus, tStatus_onRecord_setProgress]
  rcases get_onRecord_cases m id id' (.setStatus status) with h | ⟨hid, h⟩
  · exact .inl (congrArg _ h)
  · exact .inr ⟨hid, congrArg TorrentInfo.tStatus h⟩

end TorrentInfoManager

/-! ## Reports to the server -/

/-- `DaemonRPC::TorrentInfo::Status` -/
inductive RpcStatus
  | none
  | downloaded
  | downloading
  | generated
  | generating
  | paused
  | error
  deriving DecidableEq, Repr

/-- `DaemonRPC::TorrentInfo` -/
structure RpcTorrentInfo where
  id : String
  link : String
  pathToTFile : String
  status : RpcStatus
  workProgress : ℤ
  pathToProject : String
  deriving DecidableEq, Repr

/-- `Controller::ConvertTorrentStatus` -/
def convertTorrentStatus : Status → RpcStatus
  | .downloaded => .downloaded
  | .downloading => .downloading
  | .downloadingError => .error
  | .generated => .generated
  | .generating => .generating
  | .generationError => .error
  | .paused => .paused
  | .unknown => .none

/-- `Controller::ConvertTorrentInfo` -/
def convertTorrentInfo (info : TorrentInfo) : RpcTorrentInfo where
  id := info.tId
  link := info.tLink
  pathToProject := info.pPath
  pathToTFile := info.tPath
  status := convertTorrentStatus info.tStatus
  workProgress := info.tProgress.toInt

/-- A report says `GENERATED` exactly for a record that does. -/
theorem convertTorrentStatus_eq_generated_iff {status : Status} :
    convertTorrentStatus status = .generated ↔ status = .generated := by
  rcases status <;> decide

end Torrent

end VerAI
