import VerAI.Torrent.Info
import Mathlib.Data.Nat.Notation
/-!
# `CreateTorrent` run alone

One generation job from its first write to its end, as a function of what the
libtorrent and filesystem calls it makes give it. A job leaves the record of
its uuid final, and lets no exception out, unless the piece hashing reports
an error code, the old file cannot be removed, or `AddTorrent` throws
something that is no `std::runtime_error`. The first two leave the status at
`GENERATING`, at which `CreateTorrentAsync` refuses the uuid for good.
-/

namespace VerAI

namespace Torrent

/-- What the calls of a job may throw. -/
inductive Exn
  | runtimeError (what : String)
  /-- `std::ios_base::failure`, a `std::system_error`. -/
  | iosFailure (what : String)
  /-- No `std::runtime_error`. -/
  | other (what : String)
  deriving DecidableEq, Repr

/-- What `catch(const std::runtime_error &)` catches. -/
def Exn.isRuntimeError : Exn → Bool
  | runtimeError _ => true
  | iosFailure _ => true
  | other _ => false

/-- The directories of the configuration a job reads. -/
structure Config where
  torrentFilesDirectory : String
  projectsDirectory : String
  deriving DecidableEq, Repr

/-- `std::string::find_last_of` for one character. -/
def findLastOf (c : Char) : List Char → Option ℕ
  | [] => none
  | a :: rest =>
    match findLastOf c rest with
    | some pos => some (pos + 1)
    | none => if a = c then some 0 else none

/-- `common::filesystem::GetFileName` -/
def getFileName (fullPath : String) : String :=
  match findLastOf '/' fullPath.toList with
  | some pos => String.ofList (fullPath.toList.drop (pos + 1))
  | none => fullPath

/-- The file `WriteTorrent` writes for a project. -/
def torrentFile (cfg : Config) (path : String) : String :=
  cfg.torrentFilesDirectory ++ "/" ++ getFileName path ++ ".torrent"

/-- What the calls a job makes give it. -/
structure Outcomes where
  numFiles : ℕ
  /-- The pieces `set_piece_hashes` reports before it returns. -/
  pieces : List ℕ
  totalPieces : ℕ
  ec : Bool
  entryDefined : Bool
  fileExists : Bool
  removed : Bool
  /-- The magnet link of the file read back, or the message of its error code. -/
  loaded : Except String String
  /-- The same file read by `AddTorrent`. -/
  reloaded : Except String Unit
  asyncAdd : Except Exn Unit

/-- The progress `UpdateCreationProgress` computes. -/
def creationProgress (curPiece totalPieces : ℕ) : BitVec 32 :=
  BitVec.ofNat 32 (curPiece * 100 / totalPieces)

/-- `Torrent::UpdateCreationProgress` -/
def updateCreationProgress (uuid : String) (totalPieces : ℕ) (m : TorrentInfoManager)
    (curPiece : ℕ) : TorrentInfoManager :=
  m.updateStatus uuid .generating (creationProgress curPiece totalPieces)

/-- `Torrent::WriteTorrent`: the name of the file written. -/
def writeTorrent (cfg : Config) (path : String) (o : Outcomes) : Except Exn String :=
  let fileName := torrentFile cfg path
  if o.fileExists && !o.removed then .error (.iosFailure ("Can't remove file: " ++ fileName))
  else .ok fileName

/-- `Torrent::CreateInfoFromFile`, given what reading the file gives. -/
def createInfoFromFile {α : Type} (read : Except String α) : Except Exn α :=
  match read with
  | .error message => .error (.runtimeError ("Can't init torrent file : " ++ message))
  | .ok info => .ok info

/-- `Torrent::AddTorrent` of the file of a job. -/
def addTorrentFile (o : Outcomes) : Except Exn Unit :=
  match createInfoFromFile o.reloaded with
  | .error e => .error e
  | .ok _ => o.asyncAdd

/-- The `try` block of `CreateTorrent`: the records, and the exception thrown. -/
def publish (uuid fileName : String) (o : Outcomes) (m : TorrentInfoManager) :
    TorrentInfoManager × Except Exn Unit :=
  match createInfoFromFile o.loaded with
  | .error e => (m, .error e)
  | .ok magnet =>
    let m := m.onRecord uuid (.setLink magnet)
    let m := m.onRecord uuid (.setPathToTFile fileName)
    let m := m.onRecord uuid (.setProgress 100)
    let m := m.onRecord uuid (.setStatus .generated)
    (m, addTorrentFile o)

/-- The `catch` block of `CreateTorrent`. -/
def catchRuntimeError (uuid : String) (r : TorrentInfoManager × Except Exn Unit) :
    TorrentInfoManager × Except Exn Unit :=
  match r.2 with
  | .ok _ => r
  | .error e =>
    if e.isRuntimeError then (r.1.updateStatus uuid .generationError 0, .ok ()) else r

/-- `Torrent::CreateTorrent`: the records it leaves, and the exception that
escapes it. -/
def createTorrent (cfg : Config) (uuid path : String) (o : Outcomes) (m : TorrentInfoManager) :
    TorrentInfoManager × Except Exn Unit :=
  let m := m.create uuid
  let m := m.onRecord uuid (.setStatus .generating)
  let m := m.onRecord uuid (.setPathToProject path)
  if o.numFiles = 0 then (m.updateStatus uuid .generationError 0, .ok ())
  else
    let m := o.pieces.foldl (updateCreationProgress uuid o.totalPieces) m
    if o.ec then (m, .ok ())
    else if !o.entryDefined then (m.updateStatus uuid .generationError 0, .ok ())
    else
      match writeTorrent cfg path o with
      | .error e => (m, .error e)
      | .ok fileName => catchRuntimeError uuid (publish uuid fileName o m)

/-- The condition of `Torrent::CreateTorrentAsync`: it spawns a job. -/
def createTorrentAsync (uuid : String) (m : TorrentInfoManager) : Bool :=
  (m.get uuid).tStatus ≠ .generating && (m.get uuid).tStatus ≠ .generated

/-! ## How a job ends -/

/-- The job ended well: no exception left it and its record is final. -/
def Final (uuid : String) (r : TorrentInfoManager × Except Exn Unit) : Prop :=
  r.2 = .ok () ∧
    ((r.1.get uuid).tStatus = .generated ∨ (r.1.get uuid).tStatus = .generationError)

/-- No files, or hashing and removal went well and the library threw nothing
but `std::runtime_error`s. -/
def Outcomes.Clean (o : Outcomes) : Prop :=
  o.numFiles = 0 ∨ (o.ec = false ∧ (o.entryDefined = false ∨
    ((o.fileExists = false ∨ o.removed = true) ∧
      ((∃ message, o.loaded = .error message) ∨ (∃ message, o.reloaded = .error message) ∨
        ∀ e, o.asyncAdd = .error e → e.isRuntimeError = true))))

variable {cfg : Config} {uuid path : String} {o : Outcomes} {m : TorrentInfoManager}

/-- A record that says a job is at work. -/
def Generating (uuid : String) (m : TorrentInfoManager) : Prop :=
  m.Has uuid ∧ (m.get uuid).tStatus = .generating

/-- The first three writes of a job. -/
theorem generating_start : Generating uuid
    (((m.create uuid).onRecord uuid (.setStatus .generating)).onRecord uuid
      (.setPathToProject path)) := by
  have hhas : ((m.create uuid).onRecord uuid (.setStatus .generating)).Has uuid :=
    TorrentInfoManager.has_onRecord.mpr TorrentInfoManager.has_create
  refine ⟨TorrentInfoManager.has_onRecord.mpr hhas, ?_⟩
  rw [TorrentInfoManager.get_onRecord_self hhas,
    TorrentInfoManager.get_onRecord_self TorrentInfoManager.has_create]
  rfl

/-- The callbacks keep it so. -/
theorem Generating.foldl (h : Generating uuid m) (totalPieces : ℕ) (pieces : List ℕ) :
    Generating uuid (pieces.foldl (updateCreationProgress uuid totalPieces) m) := by
  induction pieces generalizing m with
  | nil => exact h
  | cons piece rest ih =>
    refine ih ⟨TorrentInfoManager.has_updateStatus.mpr h.1, ?_⟩
    rw [updateCreationProgress, TorrentInfoManager.get_updateStatus_self h.1]
    rfl

/-- `UpdateStatus` in a job leaves the status it is given. -/
theorem tStatus_updateStatus {status : Status} {progress : BitVec 32} (h : m.Has uuid) :
    ((m.updateStatus uuid status progress).get uuid).tStatus = status := by
  rw [TorrentInfoManager.get_updateStatus_self h]
  rfl

theorem has_publish {fileName : String} (h : m.Has uuid) :
    (publish uuid fileName o m).1.Has uuid := by
  unfold publish
  rcases o.loaded with message | magnet <;> simpa [createInfoFromFile] using h

/-- A job whose file was read back has set the record to `GENERATED`. -/
theorem tStatus_publish {fileName magnet : String} (h : m.Has uuid) (hl : o.loaded = .ok magnet) :
    ((publish uuid fileName o m).1.get uuid).tStatus = .generated := by
  simp only [publish, createInfoFromFile, hl]
  rw [TorrentInfoManager.get_onRecord_self (by simpa using h)]
  rfl

/-- The exceptions of the `try` block are caught, but for those of the
session's `async_add_torrent` that are no `std::runtime_error`s. -/
theorem publish_error_iff (uuid fileName : String) :
    (∀ e, (publish uuid fileName o m).2 = .error e → e.isRuntimeError = true) ↔
      ((∃ message, o.loaded = .error message) ∨ (∃ message, o.reloaded = .error message) ∨
        ∀ e, o.asyncAdd = .error e → e.isRuntimeError = true) := by
  unfold publish addTorrentFile
  rcases hl : o.loaded with message | magnet
  · simp [createInfoFromFile, Exn.isRuntimeError]
  · rcases hr : o.reloaded with message | -
    · simp [createInfoFromFile, Exn.isRuntimeError]
    · simp [createInfoFromFile]

/-- The end of a job whose file was written: what the `catch` lets through. -/
theorem final_catch_iff {r : TorrentInfoManager × Except Exn Unit} (hm : r.1.Has uuid)
    (hgen : r.2 = .ok () → (r.1.get uuid).tStatus = .generated) :
    Final uuid (catchRuntimeError uuid r) ↔
      ∀ e, r.2 = .error e → e.isRuntimeError = true := by
  obtain ⟨m, e | _⟩ := r
  · by_cases he : e.isRuntimeError = true
    · have hcatch : catchRuntimeError uuid (m, .error e) =
          (m.updateStatus uuid .generationError 0, .ok ()) := if_pos he
      rw [hcatch]
      exact iff_of_true ⟨rfl, .inr (tStatus_updateStatus hm)⟩
        fun e' heq => Except.error.inj heq ▸ he
    · have hcatch : catchRuntimeError uuid (m, .error e) = (m, .error e) := if_neg he
      rw [hcatch]
      exact iff_of_false (fun hf => nomatch hf.1) fun hall => he (hall e rfl)
  · exact iff_of_true ⟨rfl, .inl (hgen rfl)⟩ nofun

/-- The `try` block ends, or throws what is not caught, only after the file was
read back. -/
theorem exists_loaded_of_publish {fileName : String}
    (h : (publish uuid fileName o m).2 = .ok ()) : ∃ magnet, o.loaded = .ok magnet := by
  rcases hl : o.loaded with message | magnet
  · simp [publish, createInfoFromFile, hl] at h
  · exact ⟨magnet, rfl⟩

/-- An exception that is not caught leaves the record at `GENERATED`. -/
theorem refused_of_thrown {fileName : String} (hm : m.Has uuid)
    (h : ¬ ∀ e, (publish uuid fileName o m).2 = .error e → e.isRuntimeError = true) :
    createTorrentAsync uuid (catchRuntimeError uuid (publish uuid fileName o m)).1 = false := by
  obtain ⟨e, he⟩ := Classical.not_forall.mp h
  obtain ⟨hthrown, hother⟩ := Classical.not_imp.mp he
  have hcatch : catchRuntimeError uuid (publish uuid fileName o m) = publish uuid fileName o m := by
    simp only [catchRuntimeError, hthrown, hother, Bool.false_eq_true, if_false]
  have hloaded : ∃ magnet, o.loaded = .ok magnet := by
    rcases hl : o.loaded with message | magnet
    · simp only [publish, createInfoFromFile, hl, Except.error.injEq] at hthrown
      subst hthrown
      exact absurd rfl hother
    · exact ⟨magnet, rfl⟩
  obtain ⟨magnet, hl⟩ := hloaded
  rw [hcatch, createTorrentAsync, tStatus_publish hm hl]
  rfl

/-- A job that leaves its record at `GENERATING` is not final, and the uuid is
refused. -/
theorem Generating.refused {r : Except Exn Unit} (h : Generating uuid m) :
    ¬ Final uuid (m, r) ∧ createTorrentAsync uuid m = false := by
  refine ⟨fun hf => ?_, by simp [createTorrentAsync, h.2]⟩
  rcases hf.2 with hst | hst
  · exact absurd (h.2.symm.trans hst) (by decide)
  · exact absurd (h.2.symm.trans hst) (by decide)

/-- **When a generation job ends well.** For every uuid, path, configuration,
outcome of the calls and content of the records: no exception escapes the job
and its record is `GENERATED` or `GENERATION_ERROR` exactly on the clean
outcomes. On the others `CreateTorrentAsync` refuses the uuid from then on. -/
theorem createTorrent_final_iff (cfg : Config) (uuid path : String) (o : Outcomes)
    (m : TorrentInfoManager) :
    (Final uuid (createTorrent cfg uuid path o m) ↔ o.Clean) ∧
    (¬ o.Clean → createTorrentAsync uuid (createTorrent cfg uuid path o m).1 = false) := by
  have hstart : Generating uuid (((m.create uuid).onRecord uuid (.setStatus .generating)).onRecord
      uuid (.setPathToProject path)) := generating_start
  have hhash := hstart.foldl o.totalPieces o.pieces
  unfold createTorrent Outcomes.Clean
  -- the exits of the function, in its order
  by_cases hfiles : o.numFiles = 0
  · simp only [hfiles, if_true, true_or, iff_true, not_true, false_imp_iff, and_true]
    exact ⟨rfl, .inr (tStatus_updateStatus hstart.1)⟩
  simp only [hfiles, if_false, false_or]
  rcases hec : o.ec with _ | _
  case true =>
    -- `if(ec) return`, with no `UpdateStatus`
    obtain ⟨hnot, hrefused⟩ := hhash.refused (r := .ok ())
    simpa using ⟨hnot, hrefused⟩
  rcases hentry : o.entryDefined with _ | _
  case false =>
    simp only [Bool.not_false, if_true, Bool.false_eq_true, if_false, true_or, iff_true,
      not_true, false_imp_iff, and_true]
    exact ⟨rfl, .inr (tStatus_updateStatus hhash.1)⟩
  simp only [Bool.false_eq_true, if_false, true_and, Bool.not_true, writeTorrent]
  by_cases hwrite : o.fileExists = true ∧ o.removed = false
  case pos =>
    -- `WriteTorrent` throws outside the `try`
    obtain ⟨hnot, hrefused⟩ := hhash.refused
      (r := .error (.iosFailure ("Can't remove file: " ++ torrentFile cfg path)))
    simpa [hwrite.1, hwrite.2] using ⟨hnot, hrefused⟩
  case neg =>
    have hcond : (o.fileExists && !o.removed) = false := by simpa using hwrite
    have hclean : o.fileExists = false ∨ o.removed = true := by
      rcases hf : o.fileExists with _ | _
      · exact .inl rfl
      · exact .inr (by simpa [hf] using hcond)
    simp only [hcond, Bool.false_eq_true, Bool.true_eq_false, if_false, hclean, true_and, false_or]
    have hthrow := publish_error_iff (o := o) (m := o.pieces.foldl
      (updateCreationProgress uuid o.totalPieces) (((m.create uuid).onRecord uuid
        (.setStatus .generating)).onRecord uuid (.setPathToProject path)))
      uuid (torrentFile cfg path)
    rw [← hthrow]
    refine ⟨final_catch_iff (has_publish hhash.1) fun hok => ?_, fun hthrown => ?_⟩
    · obtain ⟨magnet, hl⟩ := exists_loaded_of_publish hok
      exact tStatus_publish hhash.1 hl
    · exact refused_of_thrown hhash.1 hthrown

/-- Directories for the runs on fixed inputs. -/
def sampleConfig : Config := ⟨"/var/verai/torrents", "/var/verai/projects"⟩

/-- The pieces of a project, the second of which cannot be read. -/
def unreadablePiece : Outcomes where
  numFiles := 1
  pieces := [0]
  totalPieces := 2
  ec := true
  entryDefined := true
  fileExists := false
  removed := true
  loaded := .ok "magnet:?xt=urn:btih:9f&dn=model"
  reloaded := .ok ()
  asyncAdd := .ok ()

/-- **An error code of the piece hashing leaves the record at `GENERATING`.** -/
theorem unreadablePiece_stuck :
    ¬ ∀ (cfg : Config) (uuid path : String) (o : Outcomes) (m : TorrentInfoManager),
      Final uuid (createTorrent cfg uuid path o m) := by
  intro h
  have hfinal := h sampleConfig "u" "/projects/model" unreadablePiece .empty
  have hstatus : ((createTorrent sampleConfig "u" "/projects/model" unreadablePiece
      .empty).1.get "u").tStatus = .generating := by decide
  rcases hfinal.2 with hst | hst
  · exact absurd (hstatus.symm.trans hst) (by decide)
  · exact absurd (hstatus.symm.trans hst) (by decide)

end Torrent

end VerAI
