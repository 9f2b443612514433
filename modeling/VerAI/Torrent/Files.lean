import VerAI.Lib.FileStore
import VerAI.Lib.Pool
import VerAI.Torrent.Publication
/-!
# Jobs and the torrent files they write

A job writes the torrent of its project to a file named after the last
component of the path, reads it back for the link and reads it again in
`AddTorrent`. The folder is one for all jobs and no lock spans the steps, so a
record at `GENERATED` points at its own torrent as long as no two of the
projects that yield a torrent share that component, and not otherwise
(`ownTorrent_iff`).

What libtorrent computes is a parameter: the torrent generated from a project,
its bytes, what reading bytes gives and the link of that. A file that is
removed or replaced while another job has it open goes on to exist for that
job (`FileStore`).
-/

namespace VerAI

namespace Torrent

open Transition (System FileStore poolStep map_poolStep forall_poolStep poolStep_of_step)

/-- What libtorrent computes, of a project and of the bytes of a file. -/
structure Libtorrent (Entry Info : Type) where
  /-- `create_torrent::generate`; `none` for an undefined entry. -/
  generate : String → Option Entry
  bencode : Entry → List UInt8
  /-- `torrent_info`; `none` where it sets the error code. -/
  torrentInfo : List UInt8 → Option Info
  makeMagnetUri : Info → String

variable {Entry Info : Type}

/-- The bytes of the torrent of a project. -/
def Libtorrent.torrent (lt : Libtorrent Entry Info) (path : String) : Option (List UInt8) :=
  (lt.generate path).map lt.bencode

/-- The link of the torrent some bytes are. -/
def Libtorrent.magnet (lt : Libtorrent Entry Info) (bytes : List UInt8) : Option String :=
  (lt.torrentInfo bytes).map lt.makeMagnetUri

/-- libtorrent reads the torrents it generates. -/
def Libtorrent.ReadsBack (lt : Libtorrent Entry Info) : Prop :=
  ∀ path bytes, lt.torrent path = some bytes → (lt.magnet bytes).isSome

/-- The files of the daemon, by name. -/
abbrev Files := FileStore String (List UInt8)

/-- A job with the file it has open. -/
structure FileJob where
  job : Job
  outFile : ℕ
  deriving DecidableEq, Repr

/-- The name of its torrent file. -/
def FileJob.file (cfg : Config) (j : FileJob) : String := torrentFile cfg j.job.path

/-- The link read from a file. -/
def loadMagnet (lt : Libtorrent Entry Info) (name : String) (fs : Files) : Option String :=
  (fs.read name).bind lt.magnet

/-- The filesystem and libtorrent calls of a job: the files after, and the file
it has open. `none` where the call does not give what the event says. -/
def FileJob.call (lt : Libtorrent Entry Info) (cfg : Config) (j : FileJob) (e : Event)
    (fs : Files) : Option (Files × ℕ) :=
  let name := j.file cfg
  match j.job.pc with
  | .generate =>
    if e = .undefinedEntry ↔ lt.generate j.job.path = none then some (fs, j.outFile) else none
  | .isFileExist =>
    if e = .fileExists ↔ fs.has name = true then some (fs, j.outFile) else none
  | .remove =>
    if e = .removeFailed then some (fs, j.outFile)
    else if fs.has name then some (fs.remove name, j.outFile) else none
  | .openFile => some (fs.openTrunc name [])
  | .writeFile => (lt.torrent j.job.path).map fun bytes => (fs.write j.outFile bytes, j.outFile)
  | .loadFile =>
    match loadMagnet lt name fs with
    | some magnet => if e = .loaded magnet then some (fs, j.outFile) else none
    | none => if e = .loadFailed then some (fs, j.outFile) else none
  | .reloadFile =>
    if e = .loadFailed ↔ loadMagnet lt name fs = none then some (fs, j.outFile) else none
  | _ => some (fs, j.outFile)

/-- **A step of a job** on the records and the files. -/
def FileJob.step (lt : Libtorrent Entry Info) (cfg : Config) (j : FileJob) (e : Event)
    (s : TorrentInfoManager × Files) : Option ((TorrentInfoManager × Files) × FileJob) :=
  (j.call lt cfg e s.2).bind fun f =>
    (j.job.step cfg e s.1).map fun r => ((r.1, f.1), ⟨r.2, f.2⟩)

/-- The records, the files and the jobs. -/
structure FilesState where
  infoManager : TorrentInfoManager
  files : Files
  jobs : List FileJob

/-- **Jobs and their files**, spawned for the requests from records `m` and
files `fs`. -/
def filesMachine (lt : Libtorrent Entry Info) (cfg : Config) (requests : List (String × String))
    (m : TorrentInfoManager) (fs : Files) : System FilesState (ℕ × Event) where
  init s := s = ⟨m, fs, requests.map fun r => ⟨.spawned r.1 r.2, 0⟩⟩
  step s a :=
    if s.jobs.any fun j => j.job.crashed then none
    else (poolStep (FileJob.step lt cfg) a.1 a.2 (s.infoManager, s.files) s.jobs).map fun r =>
      ⟨r.1.1, r.1.2, r.2⟩

/-- How far a job has come with its file: the torrent generated, the file
open, written, and read back. -/
def JobPc.fileStage : JobPc → ℕ
  | isFileExist => 1
  | remove => 1
  | openFile => 1
  | writeFile => 2
  | loadFile => 3
  | setLink => 4
  | pc => if pc.stage = 0 then 0 else 4

theorem JobPc.le_fileStage {pc : JobPc} (h : pc.stage ≠ 0) : 4 ≤ pc.fileStage := by
  unfold JobPc.fileStage
  split
  case h_7 => simp [h]
  all_goals exact absurd rfl h

/-- What a job knows of its file. -/
structure FilesAt (lt : Libtorrent Entry Info) (cfg : Config) (fs : Files) (j : FileJob) :
    Prop where
  generated : 1 ≤ j.job.pc.fileStage → (lt.generate j.job.path).isSome
  opened : j.job.pc.fileStage = 2 → fs.names (j.file cfg) = some j.outFile
  written : 3 ≤ j.job.pc.fileStage → fs.read (j.file cfg) = lt.torrent j.job.path
  linked : 4 ≤ j.job.pc.fileStage →
    (lt.torrent j.job.path).bind lt.magnet = some j.job.magnet

variable {lt : Libtorrent Entry Info} {cfg : Config} {fs fs' : Files} {j j' k : FileJob}
  {e : Event} {pc pc' : JobPc} {m m' : TorrentInfoManager} {out : ℕ} {name : String}
  {st st' : TorrentInfoManager × Files}

theorem FileJob.step_eq_some_iff : j.step lt cfg e st = some (st', j') ↔
    ∃ pc out, j.job.pc.next e = some pc ∧ j.call lt cfg e st.2 = some (st'.2, out) ∧
      st'.1 = j.job.effect cfg st.1 ∧ j' = ⟨j.job.after pc e, out⟩ := by
  obtain ⟨m', fs'⟩ := st'
  simp only [FileJob.step, Option.bind_eq_some_iff, Option.map_eq_some_iff, Prod.mk.injEq]
  constructor
  · rintro ⟨⟨fs1, out⟩, hcall, ⟨m1, job1⟩, hstep, ⟨rfl, rfl⟩, rfl⟩
    obtain ⟨pc, hpc, rfl, rfl⟩ := Job.step_eq_some_iff.mp hstep
    exact ⟨pc, out, hpc, hcall, rfl, rfl⟩
  · rintro ⟨pc, out, hpc, hcall, rfl, rfl⟩
    exact ⟨(fs', out), hcall, _, Job.step_eq_some_iff.mpr ⟨pc, hpc, rfl, rfl⟩, ⟨rfl, rfl⟩, rfl⟩

/-- Before the torrent is generated nothing is known. -/
theorem FilesAt.of_stage_zero (h : j.job.pc.fileStage = 0) : FilesAt lt cfg fs j where
  generated := by omega
  opened := by omega
  written := by omega
  linked := by omega

/-- The torrent is generated. -/
theorem FilesAt.of_stage_one (h : j.job.pc.fileStage = 1)
    (hgen : (lt.generate j.job.path).isSome) : FilesAt lt cfg fs j where
  generated _ := hgen
  opened := by omega
  written := by omega
  linked := by omega

/-- The file is open. -/
theorem FilesAt.of_stage_two (h : j.job.pc.fileStage = 2)
    (hgen : (lt.generate j.job.path).isSome) (hopen : fs.names (j.file cfg) = some j.outFile) :
    FilesAt lt cfg fs j where
  generated _ := hgen
  opened _ := hopen
  written := by omega
  linked := by omega

/-- The file is written. -/
theorem FilesAt.of_stage_three (h : j.job.pc.fileStage = 3)
    (hgen : (lt.generate j.job.path).isSome)
    (hread : fs.read (j.file cfg) = lt.torrent j.job.path) : FilesAt lt cfg fs j where
  generated _ := hgen
  opened := by omega
  written _ := hread
  linked := by omega

/-- And read back. -/
theorem FilesAt.of_stage_four (h : j.job.pc.fileStage = 4)
    (hgen : (lt.generate j.job.path).isSome)
    (hread : fs.read (j.file cfg) = lt.torrent j.job.path)
    (hlink : (lt.torrent j.job.path).bind lt.magnet = some j.job.magnet) :
    FilesAt lt cfg fs j where
  generated _ := hgen
  opened := by omega
  written _ := hread
  linked _ := hlink

/-- A step that leaves the files and the link. -/
theorem FilesAt.keep {uuid path magnet : String} {out out' : ℕ}
    (h : FilesAt lt cfg fs ⟨⟨uuid, path, pc, magnet⟩, out⟩) (hle : pc'.fileStage ≤ pc.fileStage)
    (hne : pc'.fileStage ≠ 2) : FilesAt lt cfg fs ⟨⟨uuid, path, pc', magnet⟩, out'⟩ where
  generated hs := h.generated (Nat.le_trans hs hle)
  opened hs := absurd hs hne
  written hs := h.written (Nat.le_trans hs hle)
  linked hs := h.linked (Nat.le_trans hs hle)

/-- **A step of a job and its file.** -/
theorem FilesAt.own (h : FilesAt lt cfg fs j) (hcall : j.call lt cfg e fs = some (fs', out))
    (hnext : j.job.pc.next e = some pc') : FilesAt lt cfg fs' ⟨j.job.after pc' e, out⟩ := by
  obtain ⟨⟨uuid, path, pc, magnet⟩, out0⟩ := j
  rcases JobPc.edge_of_next hnext
  case generate =>
    obtain ⟨hiff, -⟩ := Option.ite_none_right_eq_some.mp hcall
    have hgen : (lt.generate path).isSome := by
      rw [Option.isSome_iff_ne_none]
      exact mt hiff.mpr (by decide)
    exact .of_stage_one rfl hgen
  case fileExists | fileMissing =>
    obtain ⟨-, heq⟩ := Option.ite_none_right_eq_some.mp hcall
    obtain ⟨rfl, rfl⟩ := Prod.mk.inj (Option.some.inj heq)
    exact h.keep (Nat.le_refl 1) (by decide)
  case remove => exact .of_stage_one rfl (h.generated (Nat.le_refl 1))
  case openFile =>
    have hopen : fs.openTrunc (torrentFile cfg path) [] = (fs', out) := Option.some.inj hcall
    have hnames := FileStore.names_openTrunc fs (torrentFile cfg path) []
    rw [hopen] at hnames
    exact .of_stage_two rfl (h.generated (Nat.le_refl 1)) hnames
  case writeFile =>
    obtain ⟨bytes, hbytes, heq⟩ := Option.map_eq_some_iff.mp hcall
    obtain ⟨rfl, rfl⟩ := Prod.mk.inj heq
    have hread : (fs.write out0 bytes).read (torrentFile cfg path) = lt.torrent path :=
      (FileStore.read_write (h.opened rfl)).trans hbytes.symm
    exact .of_stage_three rfl (h.generated (by decide : 1 ≤ 2)) hread
  case loaded magnet' =>
    -- what is read back is what was written, and its link the job's
    have hread : fs.read (torrentFile cfg path) = lt.torrent path := h.written (Nat.le_refl 3)
    simp only [FileJob.call] at hcall
    split at hcall
    · rename_i found hfound
      obtain ⟨hmagnet, heq⟩ := Option.ite_none_right_eq_some.mp hcall
      obtain ⟨rfl, rfl⟩ := Prod.mk.inj (Option.some.inj heq)
      obtain rfl := Event.loaded.inj hmagnet
      have hlink : (lt.torrent path).bind lt.magnet = some magnet' := hread ▸ hfound
      exact .of_stage_four rfl (h.generated (by decide : 1 ≤ 3)) hread hlink
    · obtain ⟨hfailed, -⟩ := Option.ite_none_right_eq_some.mp hcall
      cases hfailed
  case reloadFailed | reloadFile =>
    obtain ⟨-, heq⟩ := Option.ite_none_right_eq_some.mp hcall
    obtain ⟨rfl, rfl⟩ := Prod.mk.inj (Option.some.inj heq)
    exact h.keep (Nat.le_refl 4) (by decide)
  case setLink | setPathToTFile | setProgress | setGenerated | addCaught | addEscaped |
      asyncAdd =>
    obtain ⟨rfl, rfl⟩ := Prod.mk.inj (Option.some.inj hcall)
    exact h.keep (Nat.le_refl 4) (by decide)
  case failStatus why | failProgress why =>
    obtain ⟨rfl, rfl⟩ := Prod.mk.inj (Option.some.inj hcall)
    rcases why <;> exact h.keep (Nat.le_refl _) (by decide)
  -- no torrent yet, or none any more
  all_goals exact .of_stage_zero rfl

/-- Before the torrent is generated, and once the file is written, a job leaves
the files alone. -/
theorem FileJob.call_keep (h : j.call lt cfg e fs = some (fs', out))
    (hpc : j.job.pc ≠ .remove ∧ j.job.pc ≠ .openFile ∧ j.job.pc ≠ .writeFile) : fs' = fs := by
  obtain ⟨hremove, hopen, hwrite⟩ := hpc
  unfold FileJob.call at h
  rcases hj : j.job.pc <;> simp only [hj] at h
  case remove => exact absurd hj hremove
  case openFile => exact absurd hj hopen
  case writeFile => exact absurd hj hwrite
  case generate | isFileExist | reloadFile =>
    exact (Prod.mk.inj (Option.some.inj (Option.ite_none_right_eq_some.mp h).2)).1.symm
  case loadFile =>
    split at h <;>
      exact (Prod.mk.inj (Option.some.inj (Option.ite_none_right_eq_some.mp h).2)).1.symm
  all_goals exact (Prod.mk.inj (Option.some.inj h)).1.symm

/-- **What a job does not write**: the other names. -/
theorem FilesAt.frame (h : FilesAt lt cfg fs j) (hcall : j.call lt cfg e fs = some (fs', out))
    (hname : name ≠ j.file cfg) :
    fs'.names name = fs.names name ∧ fs'.read name = fs.read name := by
  rcases hj : j.job.pc
  case remove =>
    simp only [FileJob.call, hj] at hcall
    split at hcall
    · obtain ⟨rfl, rfl⟩ := Prod.mk.inj (Option.some.inj hcall)
      exact ⟨rfl, rfl⟩
    · obtain ⟨-, heq⟩ := Option.ite_none_right_eq_some.mp hcall
      obtain ⟨rfl, rfl⟩ := Prod.mk.inj (Option.some.inj heq)
      exact ⟨FileStore.names_remove_of_ne hname, FileStore.read_remove_of_ne hname⟩
  case openFile =>
    simp only [FileJob.call, hj, Option.some.injEq] at hcall
    have hnames := FileStore.names_openTrunc_of_ne fs [] hname
    have hread := FileStore.read_openTrunc_of_ne fs [] hname
    rw [hcall] at hnames hread
    exact ⟨hnames, hread⟩
  case writeFile =>
    simp only [FileJob.call, hj] at hcall
    obtain ⟨bytes, -, heq⟩ := Option.map_eq_some_iff.mp hcall
    obtain ⟨rfl, rfl⟩ := Prod.mk.inj heq
    -- the file it has open is still the one its name stands for
    have hopened : fs.names (j.file cfg) = some j.outFile := h.opened (by rw [hj]; rfl)
    exact ⟨rfl, FileStore.read_write_of_ne hopened hname⟩
  all_goals
    obtain rfl : fs' = fs := FileJob.call_keep hcall (by simp [hj])
    exact ⟨rfl, rfl⟩

/-- Two jobs of different uuids that do not write one file. -/
def Separate (lt : Libtorrent Entry Info) (j k : FileJob) : Prop :=
  j.job.uuid ≠ k.job.uuid ∧ ((lt.generate j.job.path).isSome → (lt.generate k.job.path).isSome →
    getFileName j.job.path ≠ getFileName k.job.path)

theorem Separate.symm (h : Separate lt j k) : Separate lt k j :=
  ⟨h.1.symm, fun hk hj => (h.2 hj hk).symm⟩

/-- Torrent files have one name if and only if the last components of the
paths are one. -/
theorem torrentFile_inj {path path' : String} :
    torrentFile cfg path = torrentFile cfg path' ↔ getFileName path = getFileName path' := by
  rw [torrentFile, torrentFile, String.append_left_inj, String.append_right_inj]

/-- A step of a job leaves what the jobs separate from it know. -/
theorem FilesAt.other (hk : FilesAt lt cfg fs k) (hj : FilesAt lt cfg fs j)
    (hcall : j.call lt cfg e fs = some (fs', out)) (hsep : Separate lt j k) :
    FilesAt lt cfg fs' k := by
  by_cases hpc : j.job.pc ≠ .remove ∧ j.job.pc ≠ .openFile ∧ j.job.pc ≠ .writeFile
  case pos => exact (FileJob.call_keep hcall hpc) ▸ hk
  case neg =>
    have hstage : 1 ≤ j.job.pc.fileStage := by
      rcases hjpc : j.job.pc <;> first | decide | simp [hjpc] at hpc
    by_cases hk0 : k.job.pc.fileStage = 0
    case pos => exact .of_stage_zero hk0
    case neg =>
      have hne : k.file cfg ≠ j.file cfg := by
        have hnames := hsep.2 (hj.generated hstage) (hk.generated (Nat.pos_of_ne_zero hk0))
        exact fun heq => hnames.symm (torrentFile_inj.mp heq)
      obtain ⟨hnames, hread⟩ := hj.frame hcall hne
      exact ⟨hk.generated, fun hs => hnames.trans (hk.opened hs),
        fun hs => hread.trans (hk.written hs), hk.linked⟩

/-! ## Every run -/

/-- A record at `GENERATED` has the link of the torrent of a project, and names
a file that holds it. -/
def OwnTorrent (lt : Libtorrent Entry Info) (uuid path : String) (s : FilesState) : Prop :=
  (s.infoManager.get uuid).tStatus = .generated →
    ∃ bytes, lt.torrent path = some bytes ∧
      lt.magnet bytes = some (s.infoManager.get uuid).tLink ∧
      s.files.read (s.infoManager.get uuid).tPath = some bytes

/-- The projects that yield a torrent differ in the last component of the path. -/
def DistinctNames (lt : Libtorrent Entry Info) (requests : List (String × String)) : Prop :=
  requests.Pairwise fun r q => (lt.generate r.2).isSome → (lt.generate q.2).isSome →
    getFileName r.2 ≠ getFileName q.2

variable {requests : List (String × String)} {fs0 : Files} {s s' : FilesState} {i : ℕ}

theorem FileJob.job_step (h : j.step lt cfg e st = some (st', j')) :
    j.job.step cfg e st.1 = some (st'.1, j'.job) := by
  obtain ⟨pc, out, hpc, -, hm, rfl⟩ := FileJob.step_eq_some_iff.mp h
  exact Job.step_eq_some_iff.mpr ⟨pc, hpc, hm, rfl⟩

/-- A step of the machine is a step of one of the jobs. -/
theorem poolStep_of_filesStep {a : ℕ × Event}
    (h : (filesMachine lt cfg requests m fs0).step s a = some s') :
    poolStep (FileJob.step lt cfg) a.1 a.2 (s.infoManager, s.files) s.jobs =
      some ((s'.infoManager, s'.files), s'.jobs) := by
  obtain ⟨⟨⟨m', fs'⟩, jobs'⟩, hpool, rfl⟩ :=
    Option.map_eq_some_iff.mp (Option.ite_none_left_eq_some.mp h).2
  exact hpool

/-- The jobs are those of the requests, each with its record and, where the
projects have names of their own, with its file. -/
structure FilesState.Inv (lt : Libtorrent Entry Info) (cfg : Config)
    (requests : List (String × String)) (m : TorrentInfoManager) (s : FilesState) : Prop where
  requested : s.jobs.map (fun j => (j.job.uuid, j.job.path)) = requests
  recorded : ∀ j ∈ s.jobs, j.job.Recorded cfg (m.get j.job.uuid) s.infoManager
  known : DistinctNames lt requests → ∀ j ∈ s.jobs, FilesAt lt cfg s.files j

/-- What tells the requests apart tells the jobs apart. -/
theorem FilesState.Inv.pairwise (hi : s.Inv lt cfg requests m)
    {R : String × String → String × String → Prop} (h : requests.Pairwise R) :
    s.jobs.Pairwise fun j k => R (j.job.uuid, j.job.path) (k.job.uuid, k.job.path) :=
  List.pairwise_map.mp (hi.requested ▸ h)

/-- A step of one of the jobs. -/
theorem FilesState.Inv.step (hi : s.Inv lt cfg requests m) (hnodup : (requests.map Prod.fst).Nodup)
    (h : poolStep (FileJob.step lt cfg) i e (s.infoManager, s.files) s.jobs =
      some ((s'.infoManager, s'.files), s'.jobs)) : s'.Inv lt cfg requests m := by
  have huuids : requests.Pairwise fun r q => r.1 ≠ q.1 := List.pairwise_map.mp hnodup
  refine ⟨(map_poolStep h fun j j' hj => ?_).trans hi.requested, ?_, fun hnames => ?_⟩
  · obtain ⟨pc, -, -, hj'⟩ := Job.step_eq_some_iff.mp (FileJob.job_step hj)
    rw [hj']
    rfl
  · let I (st : TorrentInfoManager × Files) (j : FileJob) : Prop :=
      j.job.Recorded cfg (m.get j.job.uuid) st.1
    have hne : s.jobs.Pairwise fun j k => j.job.uuid ≠ k.job.uuid :=
      hi.pairwise (R := fun r q => r.1 ≠ q.1) huuids
    refine forall_poolStep (I := I) (fun _ _ hjk => Ne.symm hjk) h hne hi.recorded
      (fun j j' hj hr => ?_) fun j j' k hj hjk _ hr => hr.other (FileJob.job_step hj) hjk
    have hown := Job.Recorded.own hr (FileJob.job_step hj)
    rw [← Job.uuid_of_step (FileJob.job_step hj)] at hown
    exact hown
  · let I (st : TorrentInfoManager × Files) (j : FileJob) : Prop := FilesAt lt cfg st.2 j
    have hsep : s.jobs.Pairwise (Separate lt) := hi.pairwise (huuids.and hnames)
    refine forall_poolStep (I := I) (fun _ _ => Separate.symm) h hsep (hi.known hnames)
      (fun j j' hj hf => ?_) fun j j' k hj hjk hf hk => ?_
    · obtain ⟨pc, out, hpc, hcall, -, rfl⟩ := FileJob.step_eq_some_iff.mp hj
      exact FilesAt.own hf hcall hpc
    · obtain ⟨pc, out, -, hcall, -, -⟩ := FileJob.step_eq_some_iff.mp hj
      exact FilesAt.other hk hf hcall hjk

/-- **In every state reached** the jobs have their records and know their files. -/
theorem filesState_inv (hnodup : (requests.map Prod.fst).Nodup)
    (hspawn : ∀ r ∈ requests, createTorrentAsync r.1 m = true)
    (h : (filesMachine lt cfg requests m fs0).Reachable s) : s.Inv lt cfg requests m := by
  refine h.invariant (fun s hs => ?_)
    fun s a s' hi _ hs => hi.step hnodup (poolStep_of_filesStep hs)
  obtain rfl := hs
  refine ⟨List.map_map.trans (List.map_id requests), fun j hj => ?_, fun _ j hj => ?_⟩
  · obtain ⟨r, hr, rfl⟩ := List.mem_map.mp hj
    exact Job.recorded_spawned (hspawn r hr)
  · obtain ⟨r, -, rfl⟩ := List.mem_map.mp hj
    exact .of_stage_zero rfl

/-- **Where the projects have names of their own**, a record at `GENERATED`
points at its own torrent. -/
theorem FilesState.Inv.ownTorrent (hi : s.Inv lt cfg requests m)
    (hnames : DistinctNames lt requests) {r : String × String} (hr : r ∈ requests) :
    OwnTorrent lt r.1 r.2 s := by
  rw [← hi.requested] at hr
  obtain ⟨j, hj, rfl⟩ := List.mem_map.mp hr
  intro hst
  have hrec := (hi.recorded j hj).record
  have hfiles := hi.known hnames j hj
  have hstage : j.job.pc.stage = 4 := hrec.status.mp hst
  have hfile : 4 ≤ j.job.pc.fileStage := JobPc.le_fileStage (by rw [hstage]; decide)
  obtain ⟨bytes, hbytes⟩ : ∃ bytes, lt.torrent j.job.path = some bytes := by
    obtain ⟨entry, hentry⟩ := Option.isSome_iff_exists.mp (hfiles.generated (by omega))
    exact ⟨lt.bencode entry, by rw [Libtorrent.torrent, hentry]; rfl⟩
  have hlink := hrec.link
  have hpath := hrec.path
  have hmagnet := hfiles.linked hfile
  rw [if_pos (by omega)] at hlink hpath
  rw [hbytes, Option.bind_some] at hmagnet
  refine ⟨bytes, hbytes, hlink ▸ hmagnet, ?_⟩
  exact hpath ▸ (hfiles.written (by omega)).trans hbytes

/-! ## Two projects of one name -/

/-- A job on its own. -/
def soloMachine (lt : Libtorrent Entry Info) (cfg : Config) :
    System ((TorrentInfoManager × Files) × FileJob) Event where
  init _ := True
  step s e := s.2.step lt cfg e s.1

theorem FileJob.not_crashed_of_step (h : j.step lt cfg e st = some (st', j')) :
    j.job.crashed = false := by
  obtain ⟨pc, -, hpc, -, -, -⟩ := FileJob.step_eq_some_iff.mp h
  unfold Job.crashed
  rcases hj : j.job.pc
  case escaped => rw [hj] at hpc; cases hpc
  all_goals rfl

/-- What a job does on its own it may do among others, one after another. -/
theorem leads_of_solo (hi : s.jobs[i]? = some j)
    (hothers : ∀ l k, l ≠ i → s.jobs[l]? = some k → k.job.crashed = false)
    (h : (soloMachine lt cfg).Leads ((s.infoManager, s.files), j) (st', j')) :
    (filesMachine lt cfg requests m fs0).Leads s ⟨st'.1, st'.2, s.jobs.set i j'⟩ := by
  obtain ⟨es, hes⟩ := h
  induction es generalizing s j with
  | nil =>
    obtain ⟨rfl, rfl⟩ := Prod.mk.inj (Option.some.inj hes)
    obtain ⟨hlt, hget⟩ := List.getElem?_eq_some_iff.mp hi
    rw [← hget, List.set_getElem_self]
    exact .refl s
  | cons e es ih =>
    obtain ⟨⟨st1, j1⟩, hstep, hrest⟩ := Option.bind_eq_some_iff.mp hes
    obtain ⟨hlt, -⟩ := List.getElem?_eq_some_iff.mp hi
    -- the job itself has not crashed: it steps
    have hrun : ¬ (s.jobs.any fun j => j.job.crashed) = true := by
      intro hany
      obtain ⟨k, hk, hcrashed⟩ := List.any_eq_true.mp hany
      obtain ⟨l, hl⟩ := List.mem_iff_getElem?.mp hk
      have hnot : k.job.crashed = false := by
        by_cases hli : l = i
        · obtain rfl : j = k := Option.some.inj (hi.symm.trans (hli ▸ hl))
          exact FileJob.not_crashed_of_step hstep
        · exact hothers l k hli hl
      exact absurd (hcrashed.symm.trans hnot) (by decide)
    have hpool : (filesMachine lt cfg requests m fs0).step s (i, e) =
        some ⟨st1.1, st1.2, s.jobs.set i j1⟩ := by
      have hstep' : poolStep (FileJob.step lt cfg) i e (s.infoManager, s.files) s.jobs =
          some (st1, s.jobs.set i j1) := poolStep_of_step hi hstep
      exact (if_neg hrun).trans (by rw [hstep']; rfl)
    have hlater := ih (s := ⟨st1.1, st1.2, s.jobs.set i j1⟩) (List.getElem?_set_self hlt)
      (fun l k hli hl => hothers l k hli (by rwa [List.getElem?_set_ne (Ne.symm hli)] at hl)) hrest
    rw [List.set_set] at hlater
    exact .trans (.single hpool) hlater

variable {uuid path magnet : String}

theorem solo_step (e : Event) (pc : JobPc) (fs' : Files) (out : ℕ)
    (hpc : j.job.pc.next e = some pc) (hcall : j.call lt cfg e fs = some (fs', out)) :
    (soloMachine lt cfg).Leads ((m, fs), j)
      ((j.job.effect cfg m, fs'), ⟨j.job.after pc e, out⟩) :=
  .single (FileJob.step_eq_some_iff.mpr ⟨pc, out, hpc, hcall, rfl, rfl⟩)

/-- Up to the opening of the file, which no name stands for then. -/
theorem solo_openFile (cfg : Config) (uuid : String) (hgen : (lt.generate path).isSome)
    (m : TorrentInfoManager) (fs : Files) : ∃ m' fs',
      (soloMachine lt cfg).Leads ((m, fs), ⟨.spawned uuid path, 0⟩)
        ((m', fs'), ⟨⟨uuid, path, .openFile, ""⟩, 0⟩) ∧ fs'.read (torrentFile cfg path) = none := by
  have hstart : (soloMachine lt cfg).Leads ((m, fs), ⟨.spawned uuid path, 0⟩) _ :=
    ⟨[.next, .next, .next, .next, .hashed], rfl⟩
  have hgenerate := hstart.trans (solo_step .next .isFileExist fs 0 rfl
    (if_pos (iff_of_false (by decide) (Option.isSome_iff_ne_none.mp hgen))))
  rcases hhas : fs.has (torrentFile cfg path) with _ | _
  · have hmissing := hgenerate.trans (solo_step .fileMissing .openFile fs 0 rfl
      (if_pos (iff_of_false (by decide) (by rw [Bool.not_eq_true]; exact hhas))))
    exact ⟨_, _, hmissing, FileStore.read_of_not_has hhas⟩
  · have hexists := hgenerate.trans (solo_step .fileExists .remove fs 0 rfl
      (if_pos (iff_of_true rfl hhas)))
    have hcall : FileJob.call lt cfg ⟨⟨uuid, path, .remove, ""⟩, 0⟩ .next fs =
        some (fs.remove (torrentFile cfg path), 0) := by
      simp [FileJob.call, FileJob.file, hhas]
    have hremoved := hexists.trans (solo_step .next .openFile _ 0 rfl hcall)
    exact ⟨_, _, hremoved, FileStore.read_remove⟩

/-- Up to `AddTorrent`. -/
theorem solo_reloadFile (cfg : Config) (uuid : String) (hreads : lt.ReadsBack)
    (hgen : (lt.generate path).isSome) (m : TorrentInfoManager) (fs : Files) :
    ∃ m' fs' magnet out', (soloMachine lt cfg).Leads ((m, fs), ⟨.spawned uuid path, 0⟩)
      ((m', fs'), ⟨⟨uuid, path, .reloadFile, magnet⟩, out'⟩) := by
  obtain ⟨entry, hentry⟩ := Option.isSome_iff_exists.mp hgen
  have hbytes : lt.torrent path = some (lt.bencode entry) := by
    rw [Libtorrent.torrent, hentry]
    rfl
  obtain ⟨magnet, hmagnet⟩ := Option.isSome_iff_exists.mp (hreads path _ hbytes)
  obtain ⟨m1, fs1, hopen, -⟩ := solo_openFile cfg uuid hgen m fs
  -- written by its own handle, so read back by its name
  let opened := fs1.openTrunc (torrentFile cfg path) []
  let written := opened.1.write opened.2 (lt.bencode entry)
  have hnames : opened.1.names (torrentFile cfg path) = some opened.2 :=
    FileStore.names_openTrunc _ _ _
  have hload : loadMagnet lt (torrentFile cfg path) written = some magnet := by
    rw [loadMagnet, FileStore.read_write hnames]
    exact hmagnet
  have hopened := hopen.trans (solo_step .next .writeFile opened.1 opened.2 rfl rfl)
  have hwrite : FileJob.call lt cfg ⟨⟨uuid, path, .writeFile, ""⟩, opened.2⟩ .next opened.1 =
      some (written, opened.2) := by
    simp only [FileJob.call, hbytes]
    rfl
  have hwritten := hopened.trans (solo_step .next .loadFile written opened.2 rfl hwrite)
  have hread : FileJob.call lt cfg ⟨⟨uuid, path, .loadFile, ""⟩, opened.2⟩ (.loaded magnet)
      written = some (written, opened.2) := by
    simp only [FileJob.call, FileJob.file, hload, if_true]
  have hlinked := hwritten.trans
    (solo_step (.loaded magnet) .setLink written opened.2 rfl hread)
  exact ⟨_, written, magnet, opened.2, hlinked.trans ⟨[.next, .next, .next, .next], rfl⟩⟩

/-- A job at `AddTorrent` whose file is gone. -/
theorem FilesState.Inv.lost (hi : s.Inv lt cfg requests m) (hj : j ∈ s.jobs)
    (hpc : j.job.pc = .reloadFile) (hgone : s.files.read (j.file cfg) = none) :
    ¬ OwnTorrent lt j.job.uuid j.job.path s := by
  have hrec := (hi.recorded j hj).record
  rw [hpc] at hrec
  have hst : (s.infoManager.get j.job.uuid).tStatus = .generated := hrec.status.mpr rfl
  have hpath : (s.infoManager.get j.job.uuid).tPath = j.file cfg := hrec.path
  intro hown
  obtain ⟨bytes, -, -, hread⟩ := hown hst
  rw [hpath, hgone] at hread
  cases hread

/-- **Two projects of one name that yield a torrent**: the second job removes
the file of the first. -/
theorem exists_lost (cfg : Config) (fs0 : Files) (hreads : lt.ReadsBack)
    (hnodup : (requests.map Prod.fst).Nodup)
    (hspawn : ∀ r ∈ requests, createTorrentAsync r.1 m = true)
    (hnames : ¬ DistinctNames lt requests) :
    ∃ s r, (filesMachine lt cfg requests m fs0).Reachable s ∧ r ∈ requests ∧
      ¬ OwnTorrent lt r.1 r.2 s := by
  simp only [DistinctNames, List.pairwise_iff_getElem, Classical.not_forall] at hnames
  obtain ⟨i, j, hi, hj, hij, hgen, hgen', hsame⟩ := hnames
  have hname : getFileName requests[i].2 = getFileName requests[j].2 := Classical.not_not.mp hsame
  let spawned (r : String × String) : FileJob := ⟨.spawned r.1 r.2, 0⟩
  let jobs := requests.map spawned
  have hjob : ∀ l (hl : l < requests.length), jobs[l]? = some (spawned requests[l]) := by
    intro l hl
    simp [jobs, List.getElem?_map, List.getElem?_eq_getElem hl]
  have hnew : ∀ (l : ℕ) (k : FileJob), jobs[l]? = some k → k.job.crashed = false := by
    intro l k hl
    obtain ⟨r, -, rfl⟩ := List.mem_map.mp (List.mem_of_getElem? hl)
    rfl
  -- the first job up to `AddTorrent`
  obtain ⟨m1, fs1, magnet, out, hsolo⟩ := solo_reloadFile cfg requests[i].1 hreads hgen m fs0
  let first : FileJob := ⟨⟨requests[i].1, requests[i].2, .reloadFile, magnet⟩, out⟩
  have hfirst : (jobs.set i first)[i]? = some first :=
    List.getElem?_set_self (by rw [List.length_map]; exact hi)
  have hlead1 : (filesMachine lt cfg requests m fs0).Leads ⟨m, fs0, jobs⟩
      ⟨m1, fs1, jobs.set i first⟩ :=
    leads_of_solo (s := ⟨m, fs0, jobs⟩) (hjob i hi) (fun l k _ hl => hnew l k hl) hsolo
  -- the second up to the opening of the file
  obtain ⟨m2, fs2, hsolo2, hgone⟩ := solo_openFile cfg requests[j].1 hgen' m1 fs1
  let second : FileJob := ⟨⟨requests[j].1, requests[j].2, .openFile, ""⟩, 0⟩
  have hlead2 : (filesMachine lt cfg requests m fs0).Leads ⟨m1, fs1, jobs.set i first⟩
      ⟨m2, fs2, (jobs.set i first).set j second⟩ := by
    refine leads_of_solo (s := ⟨m1, fs1, jobs.set i first⟩) ?_ (fun l k hlj hl => ?_) hsolo2
    · exact (List.getElem?_set_ne (Nat.ne_of_lt hij)).trans (hjob j hj)
    · by_cases hli : i = l
      · subst hli
        obtain rfl : first = k := Option.some.inj (hfirst.symm.trans hl)
        rfl
      · rw [List.getElem?_set_ne hli] at hl
        exact hnew l k hl
  have hreach := System.Reachable.leads (System.ReachableUnder.init rfl) (hlead1.trans hlead2)
  have hmem : first ∈ (jobs.set i first).set j second := by
    have hkept := (List.getElem?_set_ne (a := second) (Nat.ne_of_gt hij)).trans hfirst
    exact List.mem_of_getElem? hkept
  refine ⟨_, requests[i], hreach, List.getElem_mem hi, ?_⟩
  refine (filesState_inv hnodup hspawn hreach).lost hmem rfl ?_
  have hfile : first.file cfg = torrentFile cfg requests[j].2 := torrentFile_inj.mpr hname
  exact hfile ▸ hgone

/-- **When a generated uuid points at its own torrent.** For every batch of
jobs of different uuids, from any files and records from which
`CreateTorrentAsync` spawns them, and however their steps interleave: every
record at `GENERATED` has the link of the torrent generated from its project,
and names a file that holds it, if and only if the projects that yield a
torrent differ in the last component of the path. -/
theorem ownTorrent_iff (lt : Libtorrent Entry Info) (hreads : lt.ReadsBack) (cfg : Config)
    (requests : List (String × String)) (hnodup : (requests.map Prod.fst).Nodup)
    (m : TorrentInfoManager) (hspawn : ∀ r ∈ requests, createTorrentAsync r.1 m = true)
    (fs0 : Files) :
    (∀ s, (filesMachine lt cfg requests m fs0).Reachable s →
      ∀ r ∈ requests, OwnTorrent lt r.1 r.2 s) ↔ DistinctNames lt requests := by
  constructor
  · intro hall
    by_contra hnames
    obtain ⟨s, r, hs, hr, hlost⟩ :=
      exists_lost cfg fs0 hreads hnodup hspawn hnames
    exact hlost (hall s hs r hr)
  · intro hnames s hs r hr
    exact (filesState_inv hnodup hspawn hs).ownTorrent hnames hr

/-- A libtorrent whose torrents name their project. -/
def sampleLibtorrent : Libtorrent String (List UInt8) where
  generate path := some path
  bencode entry := entry.toList.map fun c => UInt8.ofNat c.toNat
  torrentInfo bytes := some bytes
  makeMagnetUri bytes :=
    "magnet:?xt=urn:btih:" ++ String.ofList (bytes.map fun b => Char.ofNat b.toNat)

theorem sampleLibtorrent_readsBack : sampleLibtorrent.ReadsBack := fun _ _ _ => rfl

/-- Two projects with names of their own. -/
theorem ownTorrent_sample :
    (∀ s, (filesMachine sampleLibtorrent sampleConfig [("u", "/a/model"), ("v", "/b/data")]
        .empty (.empty [])).Reachable s →
      ∀ r ∈ [("u", "/a/model"), ("v", "/b/data")], OwnTorrent sampleLibtorrent r.1 r.2 s) ↔
    DistinctNames sampleLibtorrent [("u", "/a/model"), ("v", "/b/data")] :=
  ownTorrent_iff sampleLibtorrent sampleLibtorrent_readsBack sampleConfig _ (by decide) .empty
    (by decide) _

/-- **Two projects of one name**: the record of one of them does not point at
its torrent. -/
theorem sameName_lost :
    ¬ ∀ (requests : List (String × String)), (requests.map Prod.fst).Nodup →
      ∀ s, (filesMachine sampleLibtorrent sampleConfig requests .empty (.empty [])).Reachable s →
        ∀ r ∈ requests, OwnTorrent sampleLibtorrent r.1 r.2 s := by
  intro h
  have hnames : ¬ DistinctNames sampleLibtorrent [("u", "/a/model"), ("v", "/b/model")] := by
    intro hd
    have hne := (List.pairwise_cons.mp hd).1 ("v", "/b/model") List.mem_cons_self rfl rfl
    exact absurd hne (by decide)
  obtain ⟨s, r, hs, hr, hlost⟩ := exists_lost sampleConfig (.empty []) sampleLibtorrent_readsBack
    (m := .empty) (by decide) (by decide) hnames
  exact hlost (h _ (by decide) s hs r hr)

end Torrent

end VerAI
