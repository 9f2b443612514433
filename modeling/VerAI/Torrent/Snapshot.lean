import VerAI.Torrent.Publication
/-!
# Copies of a record while its job runs

`GetTorrentInfo` returns a copy made field by field, each getter a critical
section of its own, in the order id, link, torrent file, project, status,
progress. A copy that reads the link before the job has written it and the
status after is torn. What a copy holds is read off the stages of the job at
which its fields were read.
-/

namespace VerAI

namespace Torrent

open Transition (System)

/-- Where `GetTorrentInfo` stands, before the call named. -/
inductive CopyPc
  | get
  | getId
  | getLink
  | getPathToTFile
  | getPathToProject
  | getStatus
  | getProgress
  | done
  deriving DecidableEq, Repr

/-- A copy in the making: whether `Get` found the record, the fields read so
far, and the stage of the job at the reads that matter. -/
structure Copy where
  pc : CopyPc
  attached : Bool
  info : TorrentInfo
  linkAt : ℕ
  pathAt : ℕ
  statusAt : ℕ
  progressAt : ℕ
  deriving DecidableEq, Repr

/-- How many of the calls were made. -/
def CopyPc.calls : CopyPc → ℕ
  | get => 0
  | getId => 1
  | getLink => 2
  | getPathToTFile => 3
  | getPathToProject => 4
  | getStatus => 5
  | getProgress => 6
  | done => 7

/-- Before `Get`. -/
def Copy.start : Copy := ⟨.get, false, { tId := "" }, 0, 0, 0, 0⟩

/-- The records, the job and the reader. -/
structure SnapshotState where
  infoManager : TorrentInfoManager
  job : Job
  copy : Copy

/-- A step of the job or of the reader. -/
inductive SnapshotAction
  | job (e : Event)
  | copy
  deriving DecidableEq, Repr

/-- The object the reader copies from. -/
def SnapshotState.source (uuid : String) (s : SnapshotState) : TorrentInfo :=
  if s.copy.attached then s.infoManager.get uuid else { tId := uuid }

/-- The next step of `GetTorrentInfo`: `Get`, then `TorrentInfo::Copy`. -/
def copyStep (uuid : String) (s : SnapshotState) : Option Copy :=
  let c := s.copy
  let from_ := s.source uuid
  let stage := s.job.pc.stage
  match c.pc with
  | .get => some { c with pc := .getId, attached := decide (s.infoManager.Has uuid) }
  | .getId => some { c with pc := .getLink, info := { c.info with tId := from_.tId } }
  | .getLink =>
    some { c with
      pc := .getPathToTFile, info := { c.info with tLink := from_.tLink }, linkAt := stage }
  | .getPathToTFile =>
    some { c with
      pc := .getPathToProject, info := { c.info with tPath := from_.tPath }, pathAt := stage }
  | .getPathToProject =>
    some { c with pc := .getStatus, info := { c.info with pPath := from_.pPath } }
  | .getStatus =>
    some { c with
      pc := .getProgress, info := { c.info with tStatus := from_.tStatus }, statusAt := stage }
  | .getProgress =>
    some { c with
      pc := .done, info := { c.info with tProgress := from_.tProgress }, progressAt := stage }
  | .done => none

/-- **A job and a copy of its record**, from records `m` for which
`CreateTorrentAsync` spawns the job. -/
def snapshotMachine (cfg : Config) (uuid path : String) (m : TorrentInfoManager) :
    System SnapshotState SnapshotAction where
  init s := createTorrentAsync uuid m = true ∧ s = ⟨m, .spawned uuid path, .start⟩
  step s
    | .job e => (s.job.step cfg e s.infoManager).map fun r =>
      { s with infoManager := r.1, job := r.2 }
    | .copy => (copyStep uuid s).map fun c => { s with copy := c }

/-! ## The copy at the stages of its reads -/

/-- What a copy holds of a record that was `base` after `n` calls, by the
stages at which its fields were read. -/
structure CopyAt (base : TorrentInfo) (magnet file : String) (stage n : ℕ) (c : Copy) : Prop where
  linkAt : c.linkAt ≤ stage
  pathAt : c.pathAt ≤ stage
  statusAt : c.statusAt ≤ stage
  progressAt : c.progressAt ≤ stage
  link : 3 ≤ n → c.attached = true → c.info.tLink = if 1 ≤ c.linkAt then magnet else base.tLink
  path : 4 ≤ n → c.attached = true → c.info.tPath = if 2 ≤ c.pathAt then file else base.tPath
  status : 6 ≤ n → (c.info.tStatus = .generated ↔ c.attached = true ∧ c.statusAt = 4)
  later : 7 ≤ n → c.statusAt ≤ c.progressAt
  full : 7 ≤ n → c.attached = true → 3 ≤ c.progressAt → c.progressAt ≤ 5 → c.info.tProgress = 100
  reset : 7 ≤ n → c.attached = true → c.progressAt = 6 → c.info.tProgress = 0

variable {cfg : Config} {e : Event} {base : TorrentInfo} {magnet magnet' file uuid path : String}
  {stage stage' n : ℕ} {c : Copy} {m : TorrentInfoManager} {s s' : SnapshotState}

/-- The job goes on, the copy stays. -/
theorem CopyAt.later_stage (hc : CopyAt base magnet file stage n c) (hle : stage ≤ stage')
    (hm : 1 ≤ stage → magnet' = magnet) : CopyAt base magnet' file stage' n c where
  linkAt := Nat.le_trans hc.linkAt hle
  pathAt := Nat.le_trans hc.pathAt hle
  statusAt := Nat.le_trans hc.statusAt hle
  progressAt := Nat.le_trans hc.progressAt hle
  link := by
    intro hcalls ha
    rw [hc.link hcalls ha]
    split
    case isTrue h => exact (hm (Nat.le_trans h hc.linkAt)).symm
    case isFalse => rfl
  path := hc.path
  status := hc.status
  later := hc.later
  full := hc.full
  reset := hc.reset

/-- What is known of the states reached. -/
structure SnapshotState.Inv (cfg : Config) (uuid path : String) (base : TorrentInfo)
    (s : SnapshotState) : Prop where
  uuid_eq : s.job.uuid = uuid
  path_eq : s.job.path = path
  recorded : s.job.Recorded cfg base s.infoManager
  copy : CopyAt base s.job.magnet (torrentFile cfg path) s.job.pc.stage s.copy.pc.calls s.copy

theorem SnapshotState.Inv.job_step (hi : s.Inv cfg uuid path base) {m' : TorrentInfoManager}
    {j' : Job} (h : s.job.step cfg e s.infoManager = some (m', j')) :
    SnapshotState.Inv cfg uuid path base { s with infoManager := m', job := j' } := by
  have hrec : j'.Recorded cfg base m' := hi.recorded.own h
  obtain ⟨pc', hpc, rfl, rfl⟩ := Job.step_eq_some_iff.mp h
  exact ⟨hi.uuid_eq, hi.path_eq, hrec,
    hi.copy.later_stage (JobPc.stage_next hpc) (Job.magnet_after hpc)⟩

theorem source_of_attached (h : s.copy.attached = true) :
    s.source uuid = s.infoManager.get uuid := if_pos h

/-- An object made by `Get` for want of a record is not `GENERATED`. -/
theorem source_status_iff : (s.source uuid).tStatus = .generated ↔
    s.copy.attached = true ∧ (s.infoManager.get uuid).tStatus = .generated := by
  unfold SnapshotState.source
  split
  case isTrue h => simp [h]
  case isFalse h => simp [h]

/-- **A read of the copy** takes the field as it is at the stage of the job. -/
theorem CopyAt.step (hc : CopyAt base magnet file s.job.pc.stage s.copy.pc.calls s.copy)
    (hr : RecordAt base magnet file s.job.pc.stage (s.infoManager.get uuid))
    (h : copyStep uuid s = some c) : CopyAt base magnet file s.job.pc.stage c.pc.calls c := by
  rcases hpc : s.copy.pc <;> rw [hpc] at hc <;> simp only [copyStep, hpc, Option.some.injEq] at h
  case done => cases h
  all_goals subst h
  case get =>
    show CopyAt base magnet file s.job.pc.stage 1 _
    exact ⟨hc.linkAt, hc.pathAt, hc.statusAt, hc.progressAt, by omega, by omega, by omega,
      by omega, by omega, by omega⟩
  case getId =>
    show CopyAt base magnet file s.job.pc.stage 2 _
    exact ⟨hc.linkAt, hc.pathAt, hc.statusAt, hc.progressAt, by omega, by omega, by omega,
      by omega, by omega, by omega⟩
  case getLink =>
    show CopyAt base magnet file s.job.pc.stage 3 _
    refine ⟨Nat.le_refl _, hc.pathAt, hc.statusAt, hc.progressAt, fun _ ha => ?_, by omega,
      by omega, by omega, by omega, by omega⟩
    exact (congrArg TorrentInfo.tLink (source_of_attached ha)).trans hr.link
  case getPathToTFile =>
    show CopyAt base magnet file s.job.pc.stage 4 _
    have hlink := hc.link (Nat.le_refl 3)
    refine ⟨hc.linkAt, Nat.le_refl _, hc.statusAt, hc.progressAt, fun _ => hlink, fun _ ha => ?_,
      by omega, by omega, by omega, by omega⟩
    exact (congrArg TorrentInfo.tPath (source_of_attached ha)).trans hr.path
  case getPathToProject =>
    show CopyAt base magnet file s.job.pc.stage 5 _
    have hlink := hc.link (by decide : 3 ≤ 4)
    have hpath := hc.path (Nat.le_refl 4)
    exact ⟨hc.linkAt, hc.pathAt, hc.statusAt, hc.progressAt, fun _ => hlink, fun _ => hpath,
      by omega, by omega, by omega, by omega⟩
  case getStatus =>
    show CopyAt base magnet file s.job.pc.stage 6 _
    have hlink := hc.link (by decide : 3 ≤ 5)
    have hpath := hc.path (by decide : 4 ≤ 5)
    refine ⟨hc.linkAt, hc.pathAt, Nat.le_refl _, hc.progressAt, fun _ => hlink, fun _ => hpath,
      fun _ => ?_, by omega, by omega, by omega⟩
    exact source_status_iff.trans (and_congr_right fun _ => hr.status)
  case getProgress =>
    show CopyAt base magnet file s.job.pc.stage 7 _
    have hlink := hc.link (by decide : 3 ≤ 6)
    have hpath := hc.path (by decide : 4 ≤ 6)
    have hstatus := hc.status (Nat.le_refl 6)
    have hprogress : s.copy.attached = true →
        (s.source uuid).tProgress = (s.infoManager.get uuid).tProgress :=
      fun ha => congrArg TorrentInfo.tProgress (source_of_attached ha)
    exact ⟨hc.linkAt, hc.pathAt, hc.statusAt, Nat.le_refl _, fun _ => hlink, fun _ => hpath,
      fun _ => hstatus, fun _ => hc.statusAt,
      fun _ ha hlo hhi => (hprogress ha).trans (hr.full hlo hhi),
      fun _ ha h6 => (hprogress ha).trans (hr.reset h6)⟩

theorem SnapshotState.Inv.copy_step (hi : s.Inv cfg uuid path base)
    (h : copyStep uuid s = some c) : SnapshotState.Inv cfg uuid path base { s with copy := c } := by
  have hr := hi.recorded.record
  rw [hi.uuid_eq, hi.path_eq] at hr
  exact ⟨hi.uuid_eq, hi.path_eq, hi.recorded, hi.copy.step hr h⟩

/-- **In every state reached** the record and the copy are at their stages. -/
theorem snapshot_inv (h : (snapshotMachine cfg uuid path m).Reachable s) :
    s.Inv cfg uuid path (m.get uuid) := by
  refine h.invariant ?_ ?_
  · rintro s ⟨hspawn, rfl⟩
    have hstart : CopyAt (m.get uuid) "" (torrentFile cfg path) 0 0 Copy.start :=
      ⟨Nat.le_refl 0, Nat.le_refl 0, Nat.le_refl 0, Nat.le_refl 0, by omega, by omega, by omega,
        by omega, by omega, by omega⟩
    exact ⟨rfl, rfl, Job.recorded_spawned hspawn, hstart⟩
  · intro s a s' hi _ hs
    rcases a with e | _
    · obtain ⟨⟨m', j'⟩, hj, rfl⟩ := Option.map_eq_some_iff.mp hs
      exact hi.job_step hj
    · obtain ⟨c, hc, rfl⟩ := Option.map_eq_some_iff.mp hs
      exact hi.copy_step hc

/-! ## Torn copies -/

/-- A snapshot that says `GENERATED` has what the job set. -/
def Consistent (magnet file : String) (info : TorrentInfo) : Prop :=
  info.tStatus = .generated → info.tLink = magnet ∧ info.tPath = file ∧ info.tProgress = 100

/-- The order of the reads and the writes: where the status was read while the
record was `GENERATED`, the link was read after `SetLink`, unless the record
had that link before, the torrent file after `SetPathToTFile`, unless the
record had it before, and the progress before `SetProgress` of a failure. -/
def Copy.Ordered (base : TorrentInfo) (magnet file : String) (c : Copy) : Prop :=
  c.attached = true → c.statusAt = 4 →
    (1 ≤ c.linkAt ∨ base.tLink = magnet) ∧ (2 ≤ c.pathAt ∨ base.tPath = file) ∧ c.progressAt ≠ 6

/-- **When a snapshot is consistent.** In every interleaving of a job with a
copy of its record, the copy done has the link, the torrent file and the
progress that the job set, wherever it has the status `GENERATED`, exactly
when the reads fell in order; and a report made from it that says `GENERATED`
then carries no empty link. -/
theorem snapshot_consistent_iff (cfg : Config) (uuid path : String) (m : TorrentInfoManager)
    (s : SnapshotState) (h : (snapshotMachine cfg uuid path m).Reachable s)
    (hdone : s.copy.pc = .done) :
    (Consistent s.job.magnet (torrentFile cfg path) s.copy.info ↔
      s.copy.Ordered (m.get uuid) s.job.magnet (torrentFile cfg path)) ∧
    (s.copy.Ordered (m.get uuid) s.job.magnet (torrentFile cfg path) → s.job.magnet ≠ "" →
      (convertTorrentInfo s.copy.info).status = .generated →
        (convertTorrentInfo s.copy.info).link ≠ "") := by
  obtain ⟨-, -, -, hc⟩ := snapshot_inv h
  have hlink := hc.link (by rw [hdone]; decide)
  have hpath := hc.path (by rw [hdone]; decide)
  have hstatus := hc.status (by rw [hdone]; decide)
  have hlater := hc.later (by rw [hdone]; decide)
  have hfull := hc.full (by rw [hdone]; decide)
  have hreset := hc.reset (by rw [hdone]; decide)
  have hiff : Consistent s.job.magnet (torrentFile cfg path) s.copy.info ↔
      s.copy.Ordered (m.get uuid) s.job.magnet (torrentFile cfg path) := by
    by_cases hgen : s.copy.attached = true ∧ s.copy.statusAt = 4
    case neg =>
      -- the copy does not say `GENERATED`
      exact iff_of_true (fun hst => absurd (hstatus.mp hst) hgen) fun ha h4 => absurd ⟨ha, h4⟩ hgen
    case pos =>
      obtain ⟨ha, h4⟩ := hgen
      have hprog : s.copy.info.tProgress = 100 ↔ s.copy.progressAt ≠ 6 := by
        refine ⟨fun h100 h6 => ?_, fun h6 => ?_⟩
        · exact absurd (h100.symm.trans (hreset ha h6)) (by decide)
        · have hle : s.copy.progressAt ≤ 6 := Nat.le_trans hc.progressAt JobPc.stage_le
          exact hfull ha (by omega) (by omega)
      have hl : s.copy.info.tLink = s.job.magnet ↔
          (1 ≤ s.copy.linkAt ∨ (m.get uuid).tLink = s.job.magnet) := by
        rw [hlink ha]
        split <;> simp [*]
      have hp : s.copy.info.tPath = torrentFile cfg path ↔
          (2 ≤ s.copy.pathAt ∨ (m.get uuid).tPath = torrentFile cfg path) := by
        rw [hpath ha]
        split <;> simp [*]
      simp only [Consistent, Copy.Ordered, hstatus.mpr ⟨ha, h4⟩, ha, h4, forall_const, hl, hp,
        hprog]
  refine ⟨hiff, fun hord hne hgen => ?_⟩
  have hst : s.copy.info.tStatus = .generated := convertTorrentStatus_eq_generated_iff.mp hgen
  have heq : s.copy.info.tLink = s.job.magnet := (hiff.mpr hord hst).1
  have hrep : (convertTorrentInfo s.copy.info).link = s.job.magnet := heq
  exact hrep ▸ hne

/-- A job that publishes what it read back. -/
def publishing : List SnapshotAction :=
  [.job .next, .job .next, .job .next, .job .next, .job .hashed, .job .next, .job .fileMissing,
    .job .next, .job .next, .job (.loaded "magnet:?xt=urn:btih:9f&dn=model"), .job .next,
    .job .next, .job .next, .job .next]

/-- A copy made after the publication. -/
theorem snapshot_consistent_late : ∃ s,
    (snapshotMachine sampleConfig "u" "/projects/model" .empty).exec
      ⟨.empty, .spawned "u" "/projects/model", .start⟩
        (publishing ++ List.replicate 7 .copy) = some s ∧
    (Consistent s.job.magnet (torrentFile sampleConfig "/projects/model") s.copy.info ↔
      s.copy.Ordered (TorrentInfoManager.empty.get "u") s.job.magnet
        (torrentFile sampleConfig "/projects/model")) ∧
    (s.copy.Ordered (TorrentInfoManager.empty.get "u") s.job.magnet
        (torrentFile sampleConfig "/projects/model") → s.job.magnet ≠ "" →
      (convertTorrentInfo s.copy.info).status = .generated →
        (convertTorrentInfo s.copy.info).link ≠ "") :=
  ⟨_, rfl, snapshot_consistent_iff _ _ _ _ _
    (System.reachable_of_exec (publishing ++ List.replicate 7 .copy) ⟨by decide, rfl⟩ rfl) rfl⟩

/-- **A torn copy**: the link is read before the job writes it, the status
after, and the report says `GENERATED` with an empty link. -/
theorem snapshot_torn : ¬ ∀ (cfg : Config) (uuid path : String) (m : TorrentInfoManager)
    (s : SnapshotState), (snapshotMachine cfg uuid path m).Reachable s → s.copy.pc = .done →
      Consistent s.job.magnet (torrentFile cfg path) s.copy.info ∧
      (s.job.magnet ≠ "" → (convertTorrentInfo s.copy.info).status = .generated →
        (convertTorrentInfo s.copy.info).link ≠ "") := by
  intro h
  have hreport := (h sampleConfig "u" "/projects/model" .empty _
    (System.reachable_of_exec
      ([.job .next, .copy, .copy, .copy] ++ publishing.tail ++ List.replicate 4 .copy)
      ⟨by decide, rfl⟩ rfl) rfl).2
  exact hreport (by decide) rfl rfl

end Torrent

end VerAI
