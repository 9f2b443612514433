import VerAI.Torrent.Job
/-!
# What a record holds while its job publishes

A job publishes link, torrent file, progress and status in that order, and
takes status and progress back where `AddTorrent` throws. `JobPc.stage` counts
these writes: four of them make a record `GENERATED`, and what a record holds
at any time is read off the stage of its job (`RecordAt.step`).
-/

namespace VerAI

namespace Torrent

/-- How many writes of its publication a job has made: link, torrent file,
progress and status, then the status and the progress of a failure. -/
def JobPc.stage : JobPc → ℕ
  | setPathToTFile => 1
  | setProgress => 2
  | setGenerated => 3
  | reloadFile => 4
  | asyncAdd => 4
  | failStatus .notAdded => 4
  | ended .generated => 4
  | escaped true => 4
  | failProgress .notAdded => 5
  | ended (.failed .notAdded) => 6
  | _ => 0

/-! ## The record at a stage -/

/-- What a record that was `base` holds when its job is at a stage. -/
structure RecordAt (base : TorrentInfo) (magnet file : String) (stage : ℕ) (info : TorrentInfo) :
    Prop where
  link : info.tLink = if 1 ≤ stage then magnet else base.tLink
  path : info.tPath = if 2 ≤ stage then file else base.tPath
  full : 3 ≤ stage → stage ≤ 5 → info.tProgress = 100
  reset : stage = 6 → info.tProgress = 0
  status : info.tStatus = .generated ↔ stage = 4

variable {cfg : Config} {j : Job} {e : Event} {base info : TorrentInfo} {pc pc' : JobPc}
  {magnet magnet' file : String}

/-- Stages only grow. -/
theorem JobPc.stage_next (h : pc.next e = some pc') : pc.stage ≤ pc'.stage := by
  rcases JobPc.edge_of_next h
  case failStatus why | failProgress why => rcases why <;> decide
  case setPathToTFile | setProgress | setGenerated | reloadFailed | reloadFile | addCaught |
      addEscaped | asyncAdd => decide
  all_goals exact Nat.zero_le _

theorem JobPc.stage_le : pc.stage ≤ 6 := by
  unfold JobPc.stage
  split <;> omega

/-- A write of no consequence for the publication. -/
theorem RecordAt.of_stage_zero {info' : TorrentInfo} (hr : RecordAt base magnet file 0 info)
    (hlink : info'.tLink = info.tLink) (hpath : info'.tPath = info.tPath)
    (hstatus : info.tStatus ≠ .generated → info'.tStatus ≠ .generated) :
    RecordAt base magnet' file 0 info' where
  link := by rw [hlink, hr.link]; rfl
  path := by rw [hpath, hr.path]
  full := by omega
  reset := by omega
  status := by
    have hne : info.tStatus ≠ .generated := fun hgen => by have := hr.status.mp hgen; omega
    exact iff_of_false (hstatus hne) (by omega)

/-- The six writes. -/
theorem RecordAt.setLink (hr : RecordAt base magnet' file 0 info) :
    RecordAt base magnet file 1 (info.setLink magnet) where
  link := rfl
  path := hr.path
  full := by omega
  reset := by omega
  status := hr.status.trans (by omega)

theorem RecordAt.setPathToTFile (hr : RecordAt base magnet file 1 info) :
    RecordAt base magnet file 2 (info.setPathToTFile file) where
  link := hr.link
  path := rfl
  full := by omega
  reset := by omega
  status := hr.status.trans (by omega)

theorem RecordAt.setProgress (hr : RecordAt base magnet file 2 info) :
    RecordAt base magnet file 3 (info.setProgress 100) where
  link := hr.link
  path := hr.path
  full _ _ := rfl
  reset := by omega
  status := hr.status.trans (by omega)

theorem RecordAt.setGenerated (hr : RecordAt base magnet file 3 info) :
    RecordAt base magnet file 4 (info.setStatus .generated) where
  link := hr.link
  path := hr.path
  full _ _ := hr.full (by omega) (by omega)
  reset := by omega
  status := iff_of_true rfl rfl

theorem RecordAt.failStatus (hr : RecordAt base magnet file 4 info) :
    RecordAt base magnet file 5 (info.setStatus .generationError) where
  link := hr.link
  path := hr.path
  full _ _ := hr.full (by omega) (by omega)
  reset := by omega
  status := iff_of_false (by show Status.generationError ≠ .generated; decide) (by omega)

theorem RecordAt.failProgress (hr : RecordAt base magnet file 5 info) :
    RecordAt base magnet file 6 (info.setProgress 0) where
  link := hr.link
  path := hr.path
  full := by omega
  reset _ := rfl
  status := hr.status.trans (by omega)

/-- A status that is not `GENERATED`, written before the publication. -/
theorem RecordAt.setStatus {st : Status} (hr : RecordAt base magnet file 0 info)
    (hst : st ≠ .generated) : RecordAt base magnet' file 0 (info.setStatus st) :=
  hr.of_stage_zero rfl rfl fun _ => hst

/-- **A step of the job moves its record from stage to stage.** -/
theorem RecordAt.step (hr : RecordAt base j.magnet (torrentFile cfg j.path) j.pc.stage info)
    (h : j.pc.next e = some pc') :
    RecordAt base (j.after pc' e).magnet (torrentFile cfg j.path) pc'.stage
      (applyWrite (j.write cfg) info) := by
  obtain ⟨uuid, path, pc, magnet⟩ := j
  rcases JobPc.edge_of_next h
  case setGenerating | pieceStatus => exact hr.setStatus (by decide)
  case setLink => exact hr.setLink
  case setPathToTFile => exact hr.setPathToTFile
  case setProgress => exact hr.setProgress
  case setGenerated => exact hr.setGenerated
  -- of the failures only that of `AddTorrent` comes after the publication
  case failStatus why =>
    rcases why
    case notAdded => exact hr.failStatus
    all_goals exact hr.setStatus (by decide)
  case failProgress why =>
    rcases why
    case notAdded => exact hr.failProgress
    all_goals exact hr.of_stage_zero rfl rfl id
  case reloadFailed | reloadFile | addCaught | addEscaped | asyncAdd => exact hr
  all_goals exact hr.of_stage_zero rfl rfl id

/-- A link is read back only before the first write of the publication. -/
theorem Job.magnet_after (h : j.pc.next e = some pc') (hs : 1 ≤ j.pc.stage) :
    (j.after pc' e).magnet = j.magnet := by
  obtain ⟨uuid, path, pc, magnet⟩ := j
  rcases JobPc.edge_of_next h
  case loaded => exact absurd hs (Nat.not_succ_le_zero 0)
  all_goals rfl

/-! ## A job and its record -/

/-- The job has its record, which was `base`, and it is at the job's stage. -/
structure Job.Recorded (cfg : Config) (base : TorrentInfo) (j : Job) (m : TorrentInfoManager) :
    Prop where
  has : j.pc ≠ .create → m.Has j.uuid
  record : RecordAt base j.magnet (torrentFile cfg j.path) j.pc.stage (m.get j.uuid)

variable {j' k : Job} {m m' : TorrentInfoManager}

/-- A job just spawned by `CreateTorrentAsync`. -/
theorem Job.recorded_spawned {uuid path : String} (h : createTorrentAsync uuid m = true) :
    (Job.spawned uuid path).Recorded cfg (m.get uuid) m := by
  have hstatus : (m.get uuid).tStatus ≠ .generated := by
    simp only [createTorrentAsync, Bool.and_eq_true, decide_eq_true_eq] at h
    exact h.2
  have hrec : RecordAt (m.get uuid) "" (torrentFile cfg path) 0 (m.get uuid) :=
    ⟨rfl, rfl, by omega, by omega, iff_of_false hstatus (by omega)⟩
  exact ⟨fun hne => absurd rfl hne, hrec⟩

/-- A step of the job keeps it so. -/
theorem Job.Recorded.own (hr : j.Recorded cfg base m) (h : j.step cfg e m = some (m', j')) :
    j'.Recorded cfg base m' := by
  obtain ⟨pc, hpc, rfl, rfl⟩ := Job.step_eq_some_iff.mp h
  refine ⟨fun _ => Job.has_effect_self hr.has, ?_⟩
  show RecordAt base (j.after pc e).magnet (torrentFile cfg j.path) pc.stage
    ((j.effect cfg m).get j.uuid)
  rw [Job.get_effect_self hr.has]
  exact hr.record.step hpc

/-- A step of a job of another uuid too. -/
theorem Job.Recorded.other (hr : k.Recorded cfg base m) (h : j.step cfg e m = some (m', j'))
    (hne : j.uuid ≠ k.uuid) : k.Recorded cfg base m' := by
  obtain ⟨pc, hpc, rfl, rfl⟩ := Job.step_eq_some_iff.mp h
  refine ⟨fun hc => Job.has_effect (hr.has hc), ?_⟩
  rw [Job.get_effect_of_ne (Ne.symm hne)]
  exact hr.record

end Torrent

end VerAI
