import VerAI.Lib.Transition
import VerAI.Torrent.Create
/-!
# A generation job step by step

The threads that run `CreateTorrent` interleave with each other and with the
readers of the records, so here a job is a program counter. `Job.effect` is
the write made at a place of the code, `JobPc.next` where the control goes
from there on each outcome of the call made there. A job touches no record
but that of its uuid, and where it stands decides the status of that record
(`JobPc.status`). Run alone it computes `createTorrent`.
-/

namespace VerAI

namespace Torrent

open Transition (System)

/-- The failures a job reports as `GENERATION_ERROR`. -/
inductive Failure
  | noFiles
  | undefinedEntry
  | notLoaded
  | notAdded
  deriving DecidableEq, Repr

/-- How a job returned. -/
inductive Ending
  | failed (why : Failure)
  | hashError
  | generated
  deriving DecidableEq, Repr

/-- Where `CreateTorrent` stands, before the call or write named. -/
inductive JobPc
  | create
  | setGenerating
  | setPathToProject
  | addFiles
  /-- In `set_piece_hashes`, between two callbacks. -/
  | pieceHashes
  /-- In `UpdateStatus` of a callback. -/
  | pieceStatus (progress : BitVec 32)
  | pieceProgress (progress : BitVec 32)
  | generate
  | isFileExist
  | remove
  | openFile
  | writeFile
  | loadFile
  | setLink
  | setPathToTFile
  | setProgress
  | setGenerated
  /-- In `AddTorrent`, before the file is read again. -/
  | reloadFile
  | asyncAdd
  /-- In `UpdateStatus(uuid, GENERATION_ERROR, 0)`. -/
  | failStatus (why : Failure)
  | failProgress (why : Failure)
  | ended (how : Ending)
  /-- An exception left the job, after the record was set to `GENERATED` or before. -/
  | escaped (published : Bool)
  deriving DecidableEq, Repr

/-- What a call gives; `next` for the steps that have one outcome. -/
inductive Event
  | next
  | noFiles
  | piece (curPiece totalPieces : ℕ)
  | hashed
  | hashError
  | undefinedEntry
  | fileExists
  | fileMissing
  | removeFailed
  | loaded (magnet : String)
  | loadFailed
  | addThrew (e : Exn)
  deriving DecidableEq, Repr

/-- The control of a step with one outcome. -/
def Event.goto (e : Event) (pc : JobPc) : Option JobPc :=
  match e with
  | .next => some pc
  | _ => none

/-- Where the control goes. -/
def JobPc.next (pc : JobPc) (e : Event) : Option JobPc :=
  match pc with
  | create => e.goto setGenerating
  | setGenerating => e.goto setPathToProject
  | setPathToProject => e.goto addFiles
  | addFiles =>
    match e with
    | .noFiles => some (failStatus .noFiles)
    | _ => e.goto pieceHashes
  | pieceHashes =>
    match e with
    | .piece curPiece totalPieces => some (pieceStatus (creationProgress curPiece totalPieces))
    | .hashError => some (ended .hashError)
    | .hashed => some generate
    | _ => none
  | pieceStatus progress => e.goto (pieceProgress progress)
  | pieceProgress _ => e.goto pieceHashes
  | generate =>
    match e with
    | .undefinedEntry => some (failStatus .undefinedEntry)
    | _ => e.goto isFileExist
  | isFileExist =>
    match e with
    | .fileExists => some remove
    | .fileMissing => some openFile
    | _ => none
  | remove =>
    match e with
    | .removeFailed => some (escaped false)
    | _ => e.goto openFile
  | openFile => e.goto writeFile
  | writeFile => e.goto loadFile
  | loadFile =>
    match e with
    | .loadFailed => some (failStatus .notLoaded)
    | .loaded _ => some setLink
    | _ => none
  | setLink => e.goto setPathToTFile
  | setPathToTFile => e.goto setProgress
  | setProgress => e.goto setGenerated
  | setGenerated => e.goto reloadFile
  | reloadFile =>
    match e with
    | .loadFailed => some (failStatus .notAdded)
    | _ => e.goto asyncAdd
  | asyncAdd =>
    match e with
    | .addThrew exn => some (if exn.isRuntimeError then failStatus .notAdded else escaped true)
    | _ => e.goto (ended .generated)
  | failStatus why => e.goto (failProgress why)
  | failProgress why => e.goto (ended (.failed why))
  | ended _ => none
  | escaped _ => none

/-- A job, with the magnet link it has read back. -/
structure Job where
  uuid : String
  path : String
  pc : JobPc
  magnet : String
  deriving DecidableEq, Repr

/-- A job just spawned. -/
def Job.spawned (uuid path : String) : Job := ⟨uuid, path, .create, ""⟩

/-- A setter of `TorrentInfo` with its argument. -/
inductive Write
  | status (status : Status)
  | link (link : String)
  | pathToProject (path : String)
  | pathToTFile (path : String)
  | progress (progress : BitVec 32)
  deriving DecidableEq, Repr

/-- The setter. -/
def Write.apply : Write → TorrentInfo → TorrentInfo
  | status st => .setStatus st
  | link l => .setLink l
  | pathToProject p => .setPathToProject p
  | pathToTFile p => .setPathToTFile p
  | progress p => .setProgress p

/-- The setter a job calls where it stands. -/
def Job.write (cfg : Config) (j : Job) : Option Write :=
  match j.pc with
  | .setGenerating => some (.status .generating)
  | .setPathToProject => some (.pathToProject j.path)
  | .pieceStatus _ => some (.status .generating)
  | .pieceProgress progress => some (.progress progress)
  | .setLink => some (.link j.magnet)
  | .setPathToTFile => some (.pathToTFile (torrentFile cfg j.path))
  | .setProgress => some (.progress 100)
  | .setGenerated => some (.status .generated)
  | .failStatus _ => some (.status .generationError)
  | .failProgress _ => some (.progress 0)
  | _ => none

/-- What a job does to the records where it stands. -/
def Job.effect (cfg : Config) (j : Job) (m : TorrentInfoManager) : TorrentInfoManager :=
  if j.pc = .create then m.create j.uuid
  else
    match j.write cfg with
    | some w => m.onRecord j.uuid w.apply
    | none => m

/-- The job after a step. -/
def Job.after (j : Job) (pc : JobPc) (e : Event) : Job :=
  { j with
    pc := pc
    magnet := match e with
      | .loaded magnet => magnet
      | _ => j.magnet }

/-- **A step of a job.** -/
def Job.step (cfg : Config) (j : Job) (e : Event) (m : TorrentInfoManager) :
    Option (TorrentInfoManager × Job) :=
  (j.pc.next e).map fun pc => (j.effect cfg m, j.after pc e)

/-- Spawned and not yet ended. -/
def JobPc.live : JobPc → Bool
  | ended _ => false
  | escaped _ => false
  | _ => true

/-- An exception has left a job: the process is gone. -/
def Job.crashed (j : Job) : Bool :=
  match j.pc with
  | .escaped _ => true
  | _ => false

/-- The status of the record while its job stands there; unknown until the job
has written it. -/
def JobPc.status : JobPc → Option Status
  | create => none
  | setGenerating => none
  | reloadFile => some .generated
  | asyncAdd => some .generated
  | failStatus .notAdded => some .generated
  | failProgress _ => some .generationError
  | ended .hashError => some .generating
  | ended .generated => some .generated
  | ended (.failed _) => some .generationError
  | escaped true => some .generated
  | _ => some .generating

/-- The status a job writes where it stands. -/
def JobPc.writtenStatus : JobPc → Option Status
  | setGenerating => some .generating
  | pieceStatus _ => some .generating
  | setGenerated => some .generated
  | failStatus _ => some .generationError
  | _ => none

/-- `GENERATED` is written at one place. -/
theorem JobPc.eq_setGenerated {pc : JobPc} (h : pc.writtenStatus = some .generated) :
    pc = .setGenerated := by
  cases pc <;> first | rfl | cases h

/-! ## One step -/

variable {cfg : Config} {j j' : Job} {e : Event} {m m' : TorrentInfoManager} {v : String}

theorem Job.step_eq_some_iff : j.step cfg e m = some (m', j') ↔
    ∃ pc, j.pc.next e = some pc ∧ m' = j.effect cfg m ∧ j' = j.after pc e := by
  simp only [Job.step, Option.map_eq_some_iff, Prod.mk.injEq]
  constructor
  · rintro ⟨pc, hpc, rfl, rfl⟩
    exact ⟨pc, hpc, rfl, rfl⟩
  · rintro ⟨pc, hpc, rfl, rfl⟩
    exact ⟨pc, hpc, rfl, rfl⟩

/-- A setter, or none, called on a record. -/
def applyWrite (w : Option Write) (info : TorrentInfo) : TorrentInfo :=
  match w with
  | some w => w.apply info
  | none => info

/-- **A job touches no record but its own.** -/
theorem Job.get_effect_of_ne (h : v ≠ j.uuid) : (j.effect cfg m).get v = m.get v := by
  unfold Job.effect
  split
  · exact TorrentInfoManager.get_create
  · rcases j.write cfg with _ | w
    · rfl
    · exact TorrentInfoManager.get_onRecord_of_ne h.symm

theorem Job.has_effect (h : m.Has v) : (j.effect cfg m).Has v := by
  unfold Job.effect
  split
  · exact h.create
  · rcases j.write cfg with _ | w
    · exact h
    · exact TorrentInfoManager.has_onRecord.mpr h

theorem Job.has_effect_self (h : j.pc ≠ .create → m.Has j.uuid) :
    (j.effect cfg m).Has j.uuid := by
  by_cases hpc : j.pc = .create
  · rw [Job.effect, if_pos hpc]
    exact TorrentInfoManager.has_create
  · exact Job.has_effect (h hpc)

/-- **What a job does to its record**: the setter of the place it stands at. -/
theorem Job.get_effect_self (h : j.pc ≠ .create → m.Has j.uuid) :
    (j.effect cfg m).get j.uuid = applyWrite (j.write cfg) (m.get j.uuid) := by
  unfold Job.effect
  split
  case isTrue hpc => simp [Job.write, hpc, applyWrite]
  case isFalse hpc =>
    rcases j.write cfg with _ | w
    · rfl
    · exact TorrentInfoManager.get_onRecord_self (h hpc)

/-- The status after a step of a job. -/
theorem Job.tStatus_effect (h : j.pc ≠ .create → m.Has j.uuid) :
    ((j.effect cfg m).get j.uuid).tStatus =
      j.pc.writtenStatus.getD (m.get j.uuid).tStatus := by
  rw [Job.get_effect_self h, Job.write]
  rcases j.pc <;> rfl

/-- No job writes a uuid. -/
theorem Job.tId_effect : ((j.effect cfg m).get v).tId = (m.get v).tId := by
  unfold Job.effect
  split
  · rw [TorrentInfoManager.get_create]
  · rcases j.write cfg with _ | w
    · rfl
    · exact TorrentInfoManager.get_onRecord_field TorrentInfo.tId fun _ => by cases w <;> rfl

/-- A status after a step of a job is as before, or the one it wrote. -/
theorem Job.tStatus_effect_cases (cfg : Config) (j : Job) (m : TorrentInfoManager) (v : String) :
    ((j.effect cfg m).get v).tStatus = (m.get v).tStatus ∨
      v = j.uuid ∧ j.pc.writtenStatus = some ((j.effect cfg m).get v).tStatus := by
  by_cases hv : v = j.uuid
  · subst hv
    by_cases hm : j.pc ≠ .create → m.Has j.uuid
    · rw [Job.tStatus_effect hm]
      cases j.pc.writtenStatus with
      | none => exact .inl rfl
      | some st => exact .inr ⟨rfl, rfl⟩
    · -- the write is lost
      obtain ⟨hpc, hm⟩ := Classical.not_imp.mp hm
      refine .inl ?_
      rw [Job.effect, if_neg hpc]
      cases j.write cfg with
      | none => rfl
      | some w => exact congrArg _ (TorrentInfoManager.get_onRecord_of_not_has hm)
  · exact .inl (congrArg _ (Job.get_effect_of_ne hv))

theorem Event.goto_eq_some_iff {pc pc' : JobPc} :
    e.goto pc = some pc' ↔ e = .next ∧ pc = pc' := by
  rcases e <;> simp [Event.goto]

/-- The ways a job goes, each named after the place it leaves or what it met there. -/
inductive JobPc.Edge : JobPc → Event → JobPc → Prop
  | create : Edge create .next setGenerating
  | setGenerating : Edge setGenerating .next setPathToProject
  | setPathToProject : Edge setPathToProject .next addFiles
  | noFiles : Edge addFiles .noFiles (failStatus .noFiles)
  | addFiles : Edge addFiles .next pieceHashes
  | piece (curPiece totalPieces : ℕ) : Edge pieceHashes (.piece curPiece totalPieces)
      (pieceStatus (creationProgress curPiece totalPieces))
  | hashError : Edge pieceHashes .hashError (ended .hashError)
  | hashed : Edge pieceHashes .hashed generate
  | pieceStatus (progress : BitVec 32) : Edge (pieceStatus progress) .next (pieceProgress progress)
  | pieceProgress (progress : BitVec 32) : Edge (pieceProgress progress) .next pieceHashes
  | undefinedEntry : Edge generate .undefinedEntry (failStatus .undefinedEntry)
  | generate : Edge generate .next isFileExist
  | fileExists : Edge isFileExist .fileExists remove
  | fileMissing : Edge isFileExist .fileMissing openFile
  | removeFailed : Edge remove .removeFailed (escaped false)
  | remove : Edge remove .next openFile
  | openFile : Edge openFile .next writeFile
  | writeFile : Edge writeFile .next loadFile
  | loadFailed : Edge loadFile .loadFailed (failStatus .notLoaded)
  | loaded (magnet : String) : Edge loadFile (.loaded magnet) setLink
  | setLink : Edge setLink .next setPathToTFile
  | setPathToTFile : Edge setPathToTFile .next setProgress
  | setProgress : Edge setProgress .next setGenerated
  | setGenerated : Edge setGenerated .next reloadFile
  | reloadFailed : Edge reloadFile .loadFailed (failStatus .notAdded)
  | reloadFile : Edge reloadFile .next asyncAdd
  | addCaught {exn : Exn} (h : exn.isRuntimeError = true) :
    Edge asyncAdd (.addThrew exn) (failStatus .notAdded)
  | addEscaped {exn : Exn} (h : ¬ exn.isRuntimeError = true) :
    Edge asyncAdd (.addThrew exn) (escaped true)
  | asyncAdd : Edge asyncAdd .next (ended .generated)
  | failStatus (why : Failure) : Edge (failStatus why) .next (failProgress why)
  | failProgress (why : Failure) : Edge (failProgress why) .next (ended (.failed why))

/-- **Where the control goes**, as a list. -/
theorem JobPc.edge_of_next {pc pc' : JobPc} (h : pc.next e = some pc') : pc.Edge e pc' := by
  rcases pc <;> simp only [JobPc.next] at h
  case addFiles | generate | remove | reloadFile =>
    split at h
    · obtain rfl := Option.some.inj h
      constructor
    · obtain ⟨rfl, rfl⟩ := Event.goto_eq_some_iff.mp h
      constructor
  case asyncAdd =>
    split at h
    · obtain rfl := Option.some.inj h
      split
      case isTrue hexn => exact .addCaught hexn
      case isFalse hexn => exact .addEscaped hexn
    · obtain ⟨rfl, rfl⟩ := Event.goto_eq_some_iff.mp h
      exact .asyncAdd
  case pieceHashes | isFileExist | loadFile =>
    split at h <;> first | (obtain rfl := Option.some.inj h; constructor) | cases h
  case ended | escaped => cases h
  all_goals
    obtain ⟨rfl, rfl⟩ := Event.goto_eq_some_iff.mp h
    constructor

/-- **The status that goes with a place of the code**, along the control: what
was written last. -/
theorem JobPc.status_next {pc pc' : JobPc} (h : pc.next e = some pc') :
    pc'.status = pc.writtenStatus.or pc.status := by
  rcases JobPc.edge_of_next h <;> rfl

theorem JobPc.live_of_next {pc pc' : JobPc} (h : pc.next e = some pc') : pc.live = true := by
  rcases JobPc.edge_of_next h <;> rfl

/-- The job that takes a step lives. -/
theorem Job.live_of_step (h : j.step cfg e m = some (m', j')) : j.pc.live = true := by
  obtain ⟨pc, hpc, -, -⟩ := Job.step_eq_some_iff.mp h
  exact JobPc.live_of_next hpc

theorem Job.uuid_of_step (h : j.step cfg e m = some (m', j')) : j'.uuid = j.uuid := by
  obtain ⟨pc, -, -, rfl⟩ := Job.step_eq_some_iff.mp h
  rfl

/-! ## Run alone -/

/-- **A job on its own**, from any records. -/
def jobMachine (cfg : Config) (uuid path : String) : System (TorrentInfoManager × Job) Event where
  init s := s.2 = .spawned uuid path
  step s e := s.2.step cfg e s.1

/-- The machine has come to what the function computes. -/
def Computes (cfg : Config) (uuid path : String) (s : TorrentInfoManager × Job)
    (r : TorrentInfoManager × Except Exn Unit) : Prop :=
  ∃ j, (jobMachine cfg uuid path).Leads s (r.1, j) ∧ j.pc.live = false ∧
    ((∃ published, j.pc = .escaped published) ↔ r.2 ≠ .ok ())

variable {uuid path magnet : String} {o : Outcomes}

theorem Computes.of_leads {s s' : TorrentInfoManager × Job}
    {r : TorrentInfoManager × Except Exn Unit} (h : (jobMachine cfg uuid path).Leads s s')
    (hc : Computes cfg uuid path s' r) : Computes cfg uuid path s r := by
  obtain ⟨j, hl, hlive, hesc⟩ := hc
  exact ⟨j, h.trans hl, hlive, hesc⟩

/-- The callbacks of the piece hashing. -/
theorem leads_pieces (pieces : List ℕ) (totalPieces : ℕ) (m : TorrentInfoManager) :
    (jobMachine cfg uuid path).Leads (m, ⟨uuid, path, .pieceHashes, magnet⟩)
      (pieces.foldl (updateCreationProgress uuid totalPieces) m,
        ⟨uuid, path, .pieceHashes, magnet⟩) := by
  induction pieces generalizing m with
  | nil => exact .refl _
  | cons piece rest ih =>
    exact .trans ⟨[.piece piece totalPieces, .next, .next], rfl⟩
      (ih (updateCreationProgress uuid totalPieces m piece))

/-- `UpdateStatus(uuid, GENERATION_ERROR, 0)` and the return. -/
theorem computes_failed (why : Failure) (m : TorrentInfoManager) :
    Computes cfg uuid path (m, ⟨uuid, path, .failStatus why, magnet⟩)
      (m.updateStatus uuid .generationError 0, .ok ()) :=
  ⟨_, ⟨[.next, .next], rfl⟩, rfl, by simp [Job.after]⟩

/-- `AddTorrent` and the `catch`. -/
theorem computes_addTorrent (m : TorrentInfoManager) :
    Computes cfg uuid path (m, ⟨uuid, path, .reloadFile, magnet⟩)
      (catchRuntimeError uuid (m, addTorrentFile o)) := by
  unfold addTorrentFile
  rcases o.reloaded with message | -
  · exact .of_leads ⟨[.loadFailed], rfl⟩ (computes_failed .notAdded m)
  · rcases o.asyncAdd with e | -
    · have hstep : (jobMachine cfg uuid path).Leads (m, ⟨uuid, path, .reloadFile, magnet⟩)
          (m, ⟨uuid, path, if e.isRuntimeError then .failStatus .notAdded else .escaped true,
            magnet⟩) := ⟨[.next, .addThrew e], rfl⟩
      by_cases he : e.isRuntimeError = true
      · have hcatch : catchRuntimeError uuid (m, .error e) =
            (m.updateStatus uuid .generationError 0, .ok ()) := if_pos he
        rw [if_pos he] at hstep
        exact .of_leads hstep (hcatch ▸ computes_failed .notAdded m)
      · have hcatch : catchRuntimeError uuid (m, .error e) = (m, .error e) := if_neg he
        rw [if_neg he] at hstep
        refine ⟨⟨uuid, path, .escaped true, magnet⟩, ?_, rfl, ?_⟩
        · simpa only [createInfoFromFile, hcatch] using hstep
        · simp [createInfoFromFile, hcatch]
    · exact ⟨_, ⟨[.next, .next], rfl⟩, rfl, by
        simp [Job.after, catchRuntimeError, createInfoFromFile]⟩

/-- The `try` block and the `catch`. -/
theorem computes_publish (m : TorrentInfoManager) :
    Computes cfg uuid path (m, ⟨uuid, path, .loadFile, magnet⟩)
      (catchRuntimeError uuid (publish uuid (torrentFile cfg path) o m)) := by
  unfold publish
  rcases o.loaded with message | link
  · exact .of_leads ⟨[.loadFailed], rfl⟩ (computes_failed .notLoaded m)
  · exact .of_leads ⟨[.loaded link, .next, .next, .next, .next], rfl⟩ (computes_addTorrent _)

/-- **Run alone, a job computes `createTorrent`**, for every outcome of the
calls it makes. -/
theorem computes_createTorrent (cfg : Config) (uuid path : String) (o : Outcomes)
    (m : TorrentInfoManager) :
    Computes cfg uuid path (m, .spawned uuid path) (createTorrent cfg uuid path o m) := by
  refine .of_leads ⟨[.next, .next, .next], rfl⟩ ?_
  unfold createTorrent
  by_cases hfiles : o.numFiles = 0
  · rw [if_pos hfiles]
    exact .of_leads ⟨[.noFiles], rfl⟩ (computes_failed .noFiles _)
  rw [if_neg hfiles]
  refine .of_leads (.trans ⟨[.next], rfl⟩ (leads_pieces o.pieces o.totalPieces _)) ?_
  -- the machine takes the events that the outcomes are
  by_cases hec : o.ec = true
  · rw [if_pos hec]
    exact ⟨_, ⟨[.hashError], rfl⟩, rfl, by simp [Job.after]⟩
  rw [if_neg hec]
  refine .of_leads ⟨[.hashed], rfl⟩ ?_
  rcases o.entryDefined with _ | _
  · exact .of_leads ⟨[.undefinedEntry], rfl⟩ (computes_failed .undefinedEntry _)
  refine .of_leads ⟨[.next], rfl⟩ ?_
  unfold writeTorrent
  rcases o.fileExists with _ | _
  · exact .of_leads ⟨[.fileMissing, .next, .next], rfl⟩ (computes_publish _)
  refine .of_leads ⟨[.fileExists], rfl⟩ ?_
  rcases o.removed with _ | _
  · exact ⟨_, ⟨[.removeFailed], rfl⟩, rfl, by simp [Job.after]⟩
  · exact .of_leads ⟨[.next, .next, .next], rfl⟩ (computes_publish _)

end Torrent

end VerAI
