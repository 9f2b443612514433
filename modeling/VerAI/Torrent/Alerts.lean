import VerAI.Lib.Transition
import VerAI.Lib.FirstKey
import VerAI.Torrent.Info
import Mathlib.Tactic.ByContra
import Mathlib.Tactic.SplitIfs
/-!
# Alerts and the torrents they are about

An alert carries no uuid. `HandlerAlerts` recovers one with `GetIdByName`,
the first key of `torrentsIdList` whose parameters have the name reported.
So an alert reaches the record of the torrent it is about where that torrent
is registered under its own uuid with the name reported and no smaller uuid
is registered with it, and nowhere else: of the torrents of one name only the
first in key order is ever updated. Which name libtorrent reports is left
open, as a part of the alert.

`DownloadAsync` is one step: its earlier writes touch the record of its own
uuid only, and no alert about the torrent can arrive before `AddTorrent` has
registered it under `torrentIdListMtx`. The statuses of one
`state_update_alert` are steps of their own.
-/

namespace VerAI

namespace Torrent

open Transition (System)
open FirstKey (firstKey firstKey_eq_some_iff)

/-- `libtorrent::add_torrent_params`, as far as the daemon reads it back. -/
structure AddTorrentParams where
  name : String
  deriving DecidableEq, Repr

/-- What libtorrent and the configuration decide. -/
structure Environment where
  /-- `parse_magnet_uri`: the name in the link, `none` on an error code. -/
  parseMagnetUri : String → Option String
  downloadDirectory : String
  torrentFilesDirectory : String

/-- The alerts that lead to the record of a torrent; a status of a
`state_update_alert` stands for itself. -/
inductive Alert
  | addTorrent (error : Bool)
  | torrentFinished
  | torrentError
  | stateUpdate (finished : Bool) (progressPpm : ℤ)
  deriving DecidableEq, Repr

/-- The records, the registered torrents, the uuids of the calls made, and of
those that gave libtorrent a torrent. -/
structure AlertState where
  infoManager : TorrentInfoManager
  torrentsIdList : Std.TreeMap String AddTorrentParams
  called : List String
  sent : List String

/-- A call of `DownloadAsync`, with the uuid `GenerateUUID` would return, or
an alert about the torrent added under a uuid, with the `torrent_name()` that
libtorrent reports for it. -/
inductive AlertAction
  | downloadAsync (uuid link newUuid : String)
  | alert (uuid torrentName : String) (a : Alert)
  deriving DecidableEq, Repr

/-- `Torrent::GetIdByName` -/
def getIdByName (list : Std.TreeMap String AddTorrentParams) (name : String) : String :=
  (firstKey (fun param => param.name == name) list).getD ""

/-- `Torrent::AddTorrent`, the part after `async_add_torrent`. -/
def addTorrent (uuid newUuid : String) (param : AddTorrentParams)
    (list : Std.TreeMap String AddTorrentParams) : Std.TreeMap String AddTorrentParams :=
  let curUUID := if uuid.isEmpty then newUuid else uuid
  list.insert curUUID param

/-- `Torrent::DownloadAsync` -/
def downloadAsync (env : Environment) (uuid link newUuid : String) (s : AlertState) : AlertState :=
  let m := ((s.infoManager.create uuid).onRecord uuid (.setLink link)).onRecord uuid
    (.setStatus .downloading)
  match env.parseMagnetUri link with
  | none =>
    -- the exception leaves through the caller, the torrent is not added
    { s with
      infoManager := m.updateStatus uuid .downloadingError 0
      called := uuid :: s.called }
  | some name =>
    { s with
      infoManager := m.onRecord uuid (.setPathToProject (env.downloadDirectory ++ "/" ++ name))
      torrentsIdList := addTorrent uuid newUuid ⟨name⟩ s.torrentsIdList
      called := uuid :: s.called
      sent := uuid :: s.sent }

/-- The progress of a `state_update_alert`. -/
def updateProgress (finished : Bool) (progressPpm : ℤ) : BitVec 32 :=
  if finished then 100 else BitVec.ofInt 32 (progressPpm.tdiv 10000)

/-- The branch of `Torrent::HandlerAlerts` an alert with this `torrent_name()`
goes through. -/
def handleAlert (env : Environment) (torrentName : String) (a : Alert) (s : AlertState) :
    TorrentInfoManager :=
  let id := getIdByName s.torrentsIdList torrentName
  match a with
  | .addTorrent error =>
    if error then
      if id.isEmpty then s.infoManager else s.infoManager.updateStatus id .downloadingError 0
    else s.infoManager
  | .torrentFinished =>
    let m := if id.isEmpty then s.infoManager else s.infoManager.updateStatus id .downloaded 100
    m.onRecord id (.setPathToTFile (env.torrentFilesDirectory ++ "/" ++ torrentName))
  | .torrentError =>
    if id.isEmpty then s.infoManager else s.infoManager.updateStatus id .downloadingError 0
  | .stateUpdate finished progressPpm =>
    if id.isEmpty then s.infoManager
    else s.infoManager.onRecord id (.setProgress (updateProgress finished progressPpm))

/-- The writes of that branch, to the record of the uuid it has found. -/
def Alert.write (env : Environment) (torrentName id : String) (a : Alert)
    (m : TorrentInfoManager) : TorrentInfoManager :=
  match a with
  | .addTorrent error =>
    if error then if id.isEmpty then m else m.updateStatus id .downloadingError 0 else m
  | .torrentFinished =>
    (if id.isEmpty then m else m.updateStatus id .downloaded 100).onRecord id
      (.setPathToTFile (env.torrentFilesDirectory ++ "/" ++ torrentName))
  | .torrentError => if id.isEmpty then m else m.updateStatus id .downloadingError 0
  | .stateUpdate finished progressPpm =>
    if id.isEmpty then m else m.onRecord id (.setProgress (updateProgress finished progressPpm))

/-- **Downloads and their alerts.** -/
def alertMachine (env : Environment) : System AlertState AlertAction where
  init s := s = ⟨.empty, ∅, [], []⟩
  step s
    | .downloadAsync uuid link newUuid =>
      if uuid ∈ s.called then none else some (downloadAsync env uuid link newUuid s)
    | .alert uuid torrentName a =>
      if uuid ∈ s.sent then some { s with infoManager := handleAlert env torrentName a s }
      else none

/-! ## What an alert says of its torrent -/

/-- The change of the record an alert asks for. -/
def Alert.change (env : Environment) (torrentName : String) (a : Alert) (info : TorrentInfo) :
    TorrentInfo :=
  match a with
  | .addTorrent true => (info.setStatus .downloadingError).setProgress 0
  | .addTorrent false => info
  | .torrentFinished =>
    ((info.setStatus .downloaded).setProgress 100).setPathToTFile
      (env.torrentFilesDirectory ++ "/" ++ torrentName)
  | .torrentError => (info.setStatus .downloadingError).setProgress 0
  | .stateUpdate finished progressPpm => info.setProgress (updateProgress finished progressPpm)

/-- The alert changed the record of its torrent and no other. -/
def Hits (env : Environment) (uuid torrentName : String) (a : Alert)
    (m m' : TorrentInfoManager) : Prop :=
  m'.get uuid = a.change env torrentName (m.get uuid) ∧ ∀ v, v ≠ uuid → m'.get v = m.get v

/-- The torrent is registered under its own uuid with the name reported, and
no smaller uuid is registered with that name. -/
def FirstOfName (s : AlertState) (uuid torrentName : String) : Prop :=
  uuid ≠ "" ∧ s.torrentsIdList[uuid]? = some ⟨torrentName⟩ ∧
    ∀ v, s.torrentsIdList[v]? = some ⟨torrentName⟩ → (compare uuid v).isLE = true

variable {env : Environment} {s s' : AlertState} {uuid torrentName : String}

/-- **What `GetIdByName` finds.** -/
theorem getIdByName_eq_iff {list : Std.TreeMap String AddTorrentParams} (h : uuid ≠ "") :
    getIdByName list torrentName = uuid ↔
      list[uuid]? = some ⟨torrentName⟩ ∧
        ∀ v, list[v]? = some ⟨torrentName⟩ → (compare uuid v).isLE = true := by
  have hkey : getIdByName list torrentName = uuid ↔
      firstKey (fun param => param.name == torrentName) list = some uuid := by
    unfold getIdByName
    rcases firstKey (fun param : AddTorrentParams => param.name == torrentName) list with _ | k
    · simp [Ne.symm h]
    · simp
  have hname : ∀ v : String, (∃ param : AddTorrentParams,
      list[v]? = some param ∧ (param.name == torrentName) = true) ↔
        list[v]? = some ⟨torrentName⟩ := by
    intro v
    constructor
    · rintro ⟨⟨n⟩, hv, hn⟩
      rwa [← eq_of_beq hn]
    · intro hv
      exact ⟨⟨torrentName⟩, hv, beq_self_eq_true _⟩
  rw [hkey, firstKey_eq_some_iff, hname]
  refine and_congr_right fun _ => ⟨fun hle v hv => ?_, fun hle v param hv hn => ?_⟩
  · obtain ⟨param, hv, hn⟩ := (hname v).mpr hv
    exact hle v param hv hn
  · exact hle v ((hname v).mp ⟨param, hv, hn⟩)

theorem firstOfName_iff : FirstOfName s uuid torrentName ↔
    uuid ≠ "" ∧ getIdByName s.torrentsIdList torrentName = uuid := by
  unfold FirstOfName
  exact and_congr_right fun h => (getIdByName_eq_iff h).symm

/-- An alert whose name leads to its own uuid hits. -/
theorem hits_of_firstOfName (h : FirstOfName s uuid torrentName) (hm : s.infoManager.Has uuid)
    (a : Alert) : Hits env uuid torrentName a s.infoManager (handleAlert env torrentName a s) := by
  obtain ⟨hne, hid⟩ := firstOfName_iff.mp h
  have hempty : uuid.isEmpty = false := by simpa using hne
  have hself : ∀ status progress, (s.infoManager.updateStatus uuid status progress).get uuid =
      ((s.infoManager.get uuid).setStatus status).setProgress progress :=
    fun _ _ => TorrentInfoManager.get_updateStatus_self hm
  have hother : ∀ status progress v, v ≠ uuid →
      (s.infoManager.updateStatus uuid status progress).get v = s.infoManager.get v :=
    fun _ _ _ hv => TorrentInfoManager.get_updateStatus_of_ne hv.symm
  rcases a with error | _ | _ | ⟨finished, ppm⟩
  · rcases error with _ | _
    · -- an `add_torrent_alert` without an error writes nothing
      exact ⟨rfl, fun _ _ => rfl⟩
    · simp only [handleAlert, hid, hempty, if_true, Bool.false_eq_true, if_false]
      exact ⟨hself _ _, hother _ _⟩
  · simp only [handleAlert, hid, hempty, Bool.false_eq_true, if_false]
    refine ⟨?_, fun v hv => ?_⟩
    · rw [TorrentInfoManager.get_onRecord_self (TorrentInfoManager.has_updateStatus.mpr hm), hself]
      rfl
    · rw [TorrentInfoManager.get_onRecord_of_ne hv.symm, hother _ _ v hv]
  · simp only [handleAlert, hid, hempty, Bool.false_eq_true, if_false]
    exact ⟨hself _ _, hother _ _⟩
  · simp only [handleAlert, hid, hempty, Bool.false_eq_true, if_false]
    exact ⟨TorrentInfoManager.get_onRecord_self hm,
      fun v hv => TorrentInfoManager.get_onRecord_of_ne hv.symm⟩

/-- An alert whose name leads elsewhere does not change the status of its
torrent. -/
theorem tStatus_of_not_firstOfName (h : ¬ FirstOfName s uuid torrentName) (a : Alert) :
    ((handleAlert env torrentName a s).get uuid).tStatus = (s.infoManager.get uuid).tStatus := by
  rw [firstOfName_iff, not_and] at h
  obtain ⟨id, hid⟩ : ∃ id, getIdByName s.torrentsIdList torrentName = id := ⟨_, rfl⟩
  by_cases hempty : id.isEmpty = true
  case pos =>
    rcases a with error | _ | _ | ⟨finished, ppm⟩ <;>
      simp only [handleAlert, hid, hempty, if_true, ite_self,
        TorrentInfoManager.tStatus_onRecord_setPathToTFile]
  case neg =>
    have hne : id ≠ uuid := by
      rintro rfl
      exact h (by simpa using hempty) hid
    rcases a with error | _ | _ | ⟨finished, ppm⟩ <;>
      simp only [handleAlert, hid, hempty, Bool.false_eq_true, if_false,
        TorrentInfoManager.get_updateStatus_of_ne hne, TorrentInfoManager.get_onRecord_of_ne hne]
    rcases error with _ | _
    · rfl
    · rw [if_pos rfl, TorrentInfoManager.get_updateStatus_of_ne hne]

/-- So one of its two final alerts misses. -/
theorem exists_miss (h : ¬ FirstOfName s uuid torrentName) :
    ∃ a, ¬ Hits env uuid torrentName a s.infoManager (handleAlert env torrentName a s) := by
  by_contra hall
  push Not at hall
  have herr := congrArg TorrentInfo.tStatus (hall .torrentError).1
  have hfin := congrArg TorrentInfo.tStatus (hall .torrentFinished).1
  rw [tStatus_of_not_firstOfName h] at herr hfin
  have : Status.downloadingError = Status.downloaded := herr.symm.trans hfin
  exact absurd this (by decide)

/-! ## The writes by themselves -/

section Writes

variable {m : TorrentInfoManager} {id v : String} {a : Alert}

/-- The branch looks the uuid up and writes. -/
theorem handleAlert_eq_write : handleAlert env torrentName a s =
    a.write env torrentName (getIdByName s.torrentsIdList torrentName) s.infoManager := by
  cases a <;> rfl

/-- An alert writes no uuid. -/
theorem Alert.tId_write : ((a.write env torrentName id m).get v).tId = (m.get v).tId := by
  unfold Alert.write
  rcases a with error | _ | _ | ⟨finished, ppm⟩ <;> dsimp only <;> split_ifs <;> simp

/-- An alert makes no record and removes none. -/
theorem Alert.has_write : (a.write env torrentName id m).Has v ↔ m.Has v := by
  unfold Alert.write
  rcases a with error | _ | _ | ⟨finished, ppm⟩ <;> dsimp only <;> split_ifs <;> simp

/-- A status after an alert is as before, an error, or the one of a torrent
that has finished. -/
theorem Alert.tStatus_write_cases (env : Environment) (torrentName id : String) (a : Alert)
    (m : TorrentInfoManager) (v : String) :
    ((a.write env torrentName id m).get v).tStatus = (m.get v).tStatus ∨
    ((a.write env torrentName id m).get v).tStatus = .downloadingError ∨
    a = .torrentFinished ∧ v = id ∧ id ≠ "" := by
  have herror : ((m.updateStatus id .downloadingError 0).get v).tStatus = (m.get v).tStatus ∨
      ((m.updateStatus id .downloadingError 0).get v).tStatus = .downloadingError :=
    TorrentInfoManager.tStatus_updateStatus_cases.imp_right And.right
  unfold Alert.write
  rcases a with error | _ | _ | ⟨finished, ppm⟩ <;> dsimp only
  · split_ifs
    · exact .inl rfl
    · exact herror.imp_right .inl
    · exact .inl rfl
  · rw [TorrentInfoManager.tStatus_onRecord_setPathToTFile]
    split_ifs with hid
    · exact .inl rfl
    · refine TorrentInfoManager.tStatus_updateStatus_cases.imp_right fun h => .inr ⟨rfl, h.1, ?_⟩
      rintro rfl
      exact hid rfl
  · split_ifs
    · exact .inl rfl
    · exact herror.imp_right .inl
  · split_ifs
    · exact .inl rfl
    · exact .inl TorrentInfoManager.tStatus_onRecord_setProgress

end Writes

/-! ## Every run -/

theorem has_handleAlert {a : Alert} (h : s.infoManager.Has uuid) :
    (handleAlert env torrentName a s).Has uuid := by
  rw [handleAlert_eq_write]
  exact Alert.has_write.mpr h

/-- A call makes the record of its uuid and no other. -/
theorem has_downloadAsync {link newUuid v : String} :
    (downloadAsync env uuid link newUuid s).infoManager.Has v ↔
      (s.infoManager.create uuid).Has v := by
  unfold downloadAsync
  cases env.parseMagnetUri link with
  | none => simp
  | some name => simp

/-- A torrent libtorrent has been given has a record. -/
theorem has_of_sent (h : (alertMachine env).Reachable s) :
    ∀ uuid ∈ s.sent, s.infoManager.Has uuid := by
  refine h.invariant (I := fun s => ∀ uuid ∈ s.sent, s.infoManager.Has uuid)
    (fun s hs => ?_) fun s a s' hi _ hs => ?_
  · obtain rfl := hs
    exact fun _ hmem => absurd hmem List.not_mem_nil
  · rcases a with ⟨u, link, newUuid⟩ | ⟨u, torrentName, a⟩
    · simp only [alertMachine, Option.ite_none_left_eq_some] at hs
      obtain rfl := Option.some.inj hs.2
      intro uuid hmem
      rw [has_downloadAsync]
      cases hlink : env.parseMagnetUri link with
      | none =>
        simp only [downloadAsync, hlink] at hmem
        exact (hi uuid hmem).create
      | some dn =>
        simp only [downloadAsync, hlink] at hmem
        rcases List.mem_cons.mp hmem with rfl | hmem
        · exact TorrentInfoManager.has_create
        · exact (hi uuid hmem).create
    · simp only [alertMachine, Option.ite_none_right_eq_some] at hs
      obtain rfl := Option.some.inj hs.2
      exact fun uuid hmem => has_handleAlert (hi uuid hmem)

/-- **Which alerts reach their torrent.** In every state of every run, for
every torrent added and every name libtorrent may report for it: all alerts
about it under that name change its record and no other one if and only if it
is the first registered with that name. -/
theorem alerts_hit_iff (h : (alertMachine env).Reachable s) (hsent : uuid ∈ s.sent)
    (torrentName : String) :
    (∀ a s', (alertMachine env).step s (.alert uuid torrentName a) = some s' →
      Hits env uuid torrentName a s.infoManager s'.infoManager) ↔
        FirstOfName s uuid torrentName := by
  have hstep : ∀ a, (alertMachine env).step s (.alert uuid torrentName a) =
      some { s with infoManager := handleAlert env torrentName a s } :=
    fun a => if_pos hsent
  constructor
  · intro hall
    by_contra hnot
    obtain ⟨a, hmiss⟩ := exists_miss hnot
    exact hmiss (hall a _ (hstep a))
  · intro hfirst a s' hs
    rw [hstep a] at hs
    obtain rfl := Option.some.inj hs
    exact hits_of_firstOfName hfirst (has_of_sent h uuid hsent) a

/-- An environment that knows one magnet link, with its name. -/
def oneLink : Environment where
  parseMagnetUri link := if link = "magnet:?xt=urn:btih:9f&dn=model" then some "model" else none
  downloadDirectory := "/var/verai/download"
  torrentFilesDirectory := "/var/verai/torrents"

/-- The torrent of that link, added under one uuid and reported by its name. -/
theorem oneLink_hit :
    (∀ a s', (alertMachine oneLink).step
        (downloadAsync oneLink "b" "magnet:?xt=urn:btih:9f&dn=model" "" ⟨.empty, ∅, [], []⟩)
        (.alert "b" "model" a) = some s' →
      Hits oneLink "b" "model" a
        (downloadAsync oneLink "b" "magnet:?xt=urn:btih:9f&dn=model" ""
          ⟨.empty, ∅, [], []⟩).infoManager s'.infoManager) ↔
    FirstOfName
      (downloadAsync oneLink "b" "magnet:?xt=urn:btih:9f&dn=model" "" ⟨.empty, ∅, [], []⟩)
      "b" "model" :=
  alerts_hit_iff (System.reachable_of_exec
    [.downloadAsync "b" "magnet:?xt=urn:btih:9f&dn=model" ""] rfl rfl) (by decide) "model"

/-- **Two torrents of one name**: every torrent of that environment is named
"model" and reported so, and the end of the second download is written to the
record of the first. -/
theorem sameName_misses :
    ¬ ∀ s, (alertMachine oneLink).Reachable s → ∀ uuid ∈ s.sent,
      ∀ a s', (alertMachine oneLink).step s (.alert uuid "model" a) = some s' →
        Hits oneLink uuid "model" a s.infoManager s'.infoManager := by
  intro h
  let link := "magnet:?xt=urn:btih:9f&dn=model"
  let s1 := downloadAsync oneLink "a" link "" ⟨.empty, ∅, [], []⟩
  let s2 := downloadAsync oneLink "b" link "" s1
  have hreach : (alertMachine oneLink).Reachable s2 :=
    System.reachable_of_exec [.downloadAsync "a" link "", .downloadAsync "b" link ""]
      rfl rfl
  have hhit := h s2 hreach "b" (by decide) .torrentFinished _ rfl
  have hother : (handleAlert oneLink "model" .torrentFinished s2).get "a" =
      s2.infoManager.get "a" := hhit.2 "a" (by decide)
  have hstatus : ((handleAlert oneLink "model" .torrentFinished s2).get "a").tStatus =
      .downloaded := by decide
  rw [hother] at hstatus
  exact absurd hstatus (by decide)

end Torrent

end VerAI
