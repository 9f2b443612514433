import VerAI.Lib.Pool
import VerAI.Torrent.Job
import Mathlib.Tactic.ByContra
/-!
# `CreateTorrentAsync` and the jobs it spawns

The guard of `CreateTorrentAsync` reads the status twice, and the status is
written by the job: `GENERATING` some time after the job was spawned, and
`GENERATION_ERROR` before the last write of a job that fails. Between these
two the status tells where the job of the uuid stands, and the guard lets no
second one through. A first read before the job has written, or a second one
in the failing exit, does (`jobs_exclusive_iff`).

The calls are one after another, each two reads and a spawn, and the steps of
the jobs fall between them in any order. A record that is missing reads as a
fresh one (`TorrentInfoManager.get`).
-/

namespace VerAI

namespace Torrent

open Transition (System poolStep poolStep_cases pairwise_poolStep forall_poolStep)

/-- Where the caller of `CreateTorrentAsync` stands. -/
inductive CallerPc
  | idle
  /-- Before the comparison with `GENERATED`. -/
  | secondRead (uuid path : String)
  /-- Before the thread is made. -/
  | spawn (uuid path : String)
  deriving DecidableEq, Repr

/-- The records, the jobs spawned so far and the caller. -/
structure GenerationState where
  infoManager : TorrentInfoManager
  jobs : List Job
  caller : CallerPc

/-- A step of the caller, or of the job at a place of the list. -/
inductive GenerationAction
  /-- `CreateTorrentAsync` is called, and compares the status with `GENERATING`. -/
  | createTorrentAsync (uuid path : String)
  | secondRead
  | spawn
  | job (i : ℕ) (e : Event)
  deriving DecidableEq, Repr

/-- A step of a process that still runs. -/
def generationStep (cfg : Config) (s : GenerationState) : GenerationAction → Option GenerationState
  | .createTorrentAsync uuid path =>
    match s.caller with
    | .idle =>
      if (s.infoManager.get uuid).tStatus ≠ .generating then
        some { s with caller := .secondRead uuid path }
      else some s
    | _ => none
  | .secondRead =>
    match s.caller with
    | .secondRead uuid path =>
      if (s.infoManager.get uuid).tStatus ≠ .generated then
        some { s with caller := .spawn uuid path }
      else some { s with caller := .idle }
    | _ => none
  | .spawn =>
    match s.caller with
    | .spawn uuid path => some { s with jobs := s.jobs ++ [.spawned uuid path], caller := .idle }
    | _ => none
  | .job i e =>
    (poolStep (Job.step cfg) i e s.infoManager s.jobs).map fun r =>
      { s with infoManager := r.1, jobs := r.2 }

/-- The records after a step of the job at a place. -/
theorem infoManager_of_job {cfg : Config} {s s' : GenerationState} {i : ℕ} {e : Event} {j : Job}
    (hj : s.jobs[i]? = some j) (h : generationStep cfg s (.job i e) = some s') :
    s'.infoManager = j.effect cfg s.infoManager := by
  obtain ⟨⟨m, jobs⟩, hstep, rfl⟩ := Option.map_eq_some_iff.mp h
  obtain ⟨j', hj'⟩ := Transition.step_of_poolStep hj hstep
  obtain ⟨-, -, hm, -⟩ := Job.step_eq_some_iff.mp hj'
  exact hm

/-- Spawned, with nothing written that says so. -/
def JobPc.unmarked : JobPc → Bool
  | create => true
  | setGenerating => true
  | _ => false

/-- Between the two writes of a failing exit. -/
def JobPc.failing : JobPc → Bool
  | failProgress _ => true
  | _ => false

/-- **Where the guard can tell.** A call is made while no job of its uuid is
unmarked, and reads the second time while none is failing. -/
def GuardTells (s : GenerationState) : GenerationAction → Prop
  | .createTorrentAsync uuid _ => ∀ j ∈ s.jobs, j.uuid = uuid → j.pc.unmarked = false
  | .secondRead =>
    match s.caller with
    | .secondRead uuid _ => ∀ j ∈ s.jobs, j.uuid = uuid → j.pc.failing = false
    | _ => True
  | _ => True

instance : ∀ s a, Decidable (GuardTells s a)
  | s, .createTorrentAsync uuid _ =>
    inferInstanceAs (Decidable (∀ j ∈ s.jobs, j.uuid = uuid → j.pc.unmarked = false))
  | ⟨_, jobs, .secondRead uuid _⟩, .secondRead =>
    inferInstanceAs (Decidable (∀ j ∈ jobs, j.uuid = uuid → j.pc.failing = false))
  | ⟨_, _, .idle⟩, .secondRead => inferInstanceAs (Decidable True)
  | ⟨_, _, .spawn _ _⟩, .secondRead => inferInstanceAs (Decidable True)
  | _, .spawn => inferInstanceAs (Decidable True)
  | _, .job _ _ => inferInstanceAs (Decidable True)

/-! ## A live job and the status of its record -/

/-- The status a record may have while its job stands at a place. -/
def JobPc.Fits (pc : JobPc) (st : Status) : Prop :=
  match pc.status with
  | some st' => st = st'
  | none => st ≠ .generating ∧ st ≠ .generated

variable {cfg : Config} {e : Event} {pc pc' : JobPc} {st : Status} {j j' k : Job}
  {m m' : TorrentInfoManager} {uuid path : String} {s s' : GenerationState} {a : GenerationAction}

/-- **The status keeps up with the control.** -/
theorem JobPc.Fits.next (hf : pc.Fits st) (h : pc.next e = some pc') :
    pc'.Fits (pc.writtenStatus.getD st) := by
  unfold JobPc.Fits at hf ⊢
  rw [JobPc.status_next h]
  rcases pc.writtenStatus with _ | w
  · exact hf
  · exact rfl

/-- The record says that its job has done its work or is failing. -/
def JobPc.Late (pc : JobPc) : Prop :=
  pc.status = some .generated ∨ pc.status = some .generationError

/-- Late jobs stay late. -/
theorem JobPc.Late.next (hl : pc.Late) (h : pc.next e = some pc') : pc'.Late := by
  unfold JobPc.Late at hl ⊢
  rw [JobPc.status_next h]
  rcases pc
  case setGenerated => exact .inl rfl
  case failStatus => exact .inr rfl
  case setGenerating | pieceStatus => rcases hl with hl | hl <;> cases hl
  all_goals exact hl

/-- Under a status that is not `GENERATING`, a marked job is late. -/
theorem JobPc.Fits.late (hf : pc.Fits st) (hst : st ≠ .generating) (hpc : pc.unmarked = false) :
    pc.Late := by
  rcases pc
  case create | setGenerating => cases hpc
  case reloadFile | asyncAdd => exact .inl rfl
  case failProgress => exact .inr rfl
  case failStatus why => rcases why <;> first | exact .inl rfl | exact absurd hf hst
  case ended how => rcases how <;> first | exact .inl rfl | exact .inr rfl | exact absurd hf hst
  case escaped published => rcases published <;> first | exact .inl rfl | exact absurd hf hst
  all_goals exact absurd hf hst

/-- A late job whose record is not `GENERATED` is failing, if it lives. -/
theorem JobPc.Late.failing (hl : pc.Late) (hf : pc.Fits st) (hst : st ≠ .generated)
    (hlive : pc.live = true) : pc.failing = true := by
  have hne : pc.status ≠ some .generated := fun h => by
    unfold JobPc.Fits at hf
    rw [h] at hf
    exact hst hf
  have herr : pc.status = some .generationError := hl.resolve_left hne
  rcases pc
  case failProgress => rfl
  case ended | escaped => cases hlive
  case failStatus why => rcases why <;> cases herr
  all_goals cases herr

/-- The record of a late job is not at `GENERATING`. -/
theorem JobPc.Late.ne_generating (hl : pc.Late) (hf : pc.Fits st) : st ≠ .generating := by
  unfold JobPc.Fits at hf
  rcases hl with hl | hl
  · rw [hl] at hf
    exact fun hst => absurd (hf.symm.trans hst) (by decide)
  · rw [hl] at hf
    exact fun hst => absurd (hf.symm.trans hst) (by decide)

/-! ## The invariant -/

/-- Two jobs of one uuid do not both live. -/
def Apart (j k : Job) : Prop := j.uuid = k.uuid → j.pc.live = false ∨ k.pc.live = false

theorem Apart.symm {j k : Job} (h : Apart j k) : Apart k j := fun hu => (h hu.symm).symm

/-- A job has its record, and while it lives the status fits. -/
def Marked (m : TorrentInfoManager) (j : Job) : Prop :=
  (j.pc ≠ .create → m.Has j.uuid) ∧ (j.pc.live = true → j.pc.Fits (m.get j.uuid).tStatus)

/-- After the first read: the live jobs of the uuid are late. -/
def NoneAtWork (uuid : String) (m : TorrentInfoManager) (jobs : List Job) : Prop :=
  (m.get uuid).tStatus ≠ .generating ∧ ∀ j ∈ jobs, j.uuid = uuid → j.pc.live = true → j.pc.Late

/-- After the second: there are none. -/
def NoneLive (uuid : String) (m : TorrentInfoManager) (jobs : List Job) : Prop :=
  ((m.get uuid).tStatus ≠ .generating ∧ (m.get uuid).tStatus ≠ .generated) ∧
    ∀ j ∈ jobs, j.uuid = uuid → j.pc.live = false

/-- What holds in the runs in which the guard can tell. -/
structure GenerationState.Inv (s : GenerationState) : Prop where
  apart : s.jobs.Pairwise Apart
  marked : ∀ j ∈ s.jobs, Marked s.infoManager j
  second : ∀ uuid path, s.caller = .secondRead uuid path → NoneAtWork uuid s.infoManager s.jobs
  spawn : ∀ uuid path, s.caller = .spawn uuid path → NoneLive uuid s.infoManager s.jobs

/-- A step of a job keeps its own mark. -/
theorem Marked.own (hm : Marked m j) (h : j.step cfg e m = some (m', j')) : Marked m' j' := by
  obtain ⟨pc, hpc, rfl, rfl⟩ := Job.step_eq_some_iff.mp h
  refine ⟨fun _ => Job.has_effect_self hm.1, fun _ => ?_⟩
  have hst : ((j.effect cfg m).get j.uuid).tStatus =
      j.pc.writtenStatus.getD (m.get j.uuid).tStatus := Job.tStatus_effect hm.1
  show pc.Fits ((j.effect cfg m).get j.uuid).tStatus
  rw [hst]
  exact (hm.2 (JobPc.live_of_next hpc)).next hpc

/-- And that of every job apart from it. -/
theorem Marked.other (hm : Marked m k) (h : j.step cfg e m = some (m', j')) (ha : Apart j k) :
    Marked m' k := by
  obtain ⟨pc, hpc, rfl, rfl⟩ := Job.step_eq_some_iff.mp h
  refine ⟨fun hc => Job.has_effect (hm.1 hc), fun hk => ?_⟩
  by_cases hu : k.uuid = j.uuid
  · have hdead : k.pc.live = false := (ha hu.symm).resolve_left (by
      simp [JobPc.live_of_next hpc])
    exact absurd (hk.symm.trans hdead) (by decide)
  · rw [Job.get_effect_of_ne hu]
    exact hm.2 hk

/-- A record changes by a step of one of its own live jobs only. -/
theorem get_of_poolStep {i : ℕ} {jobs jobs' : List Job}
    (h : poolStep (Job.step cfg) i e m jobs = some (m', jobs')) (uuid : String) :
    (∃ j j', j ∈ jobs ∧ j' ∈ jobs' ∧ j.uuid = uuid ∧ j.step cfg e m = some (m', j')) ∨
      m'.get uuid = m.get uuid := by
  obtain ⟨before, j, j', after, rfl, rfl, hstep⟩ := poolStep_cases h
  by_cases hu : j.uuid = uuid
  · exact .inl ⟨j, j', List.mem_append_right _ List.mem_cons_self,
      List.mem_append_right _ List.mem_cons_self, hu, hstep⟩
  · obtain ⟨pc, -, rfl, -⟩ := Job.step_eq_some_iff.mp hstep
    exact .inr (Job.get_effect_of_ne (Ne.symm hu))

/-- No job of the uuid goes back to work while the caller is between its reads. -/
theorem NoneAtWork.job_step {i : ℕ} {jobs jobs' : List Job} (hn : NoneAtWork uuid m jobs)
    (hapart : jobs.Pairwise Apart) (hmarked : ∀ j ∈ jobs, Marked m j)
    (h : poolStep (Job.step cfg) i e m jobs = some (m', jobs')) : NoneAtWork uuid m' jobs' := by
  obtain ⟨hst, hlate⟩ := hn
  refine ⟨?_, ?_⟩
  · rcases get_of_poolStep h uuid with ⟨j, j', hj, hj', hu, hs⟩ | hget
    · -- a late job moves on to a late place, whose status is not `GENERATING`
      obtain ⟨pc, hpc, rfl, rfl⟩ := Job.step_eq_some_iff.mp hs
      have hl : j.pc.Late := hlate j hj hu (JobPc.live_of_next hpc)
      have hfits := ((hmarked j hj).2 (JobPc.live_of_next hpc)).next hpc
      have hst' : ((j.effect cfg m).get j.uuid).tStatus =
          j.pc.writtenStatus.getD (m.get j.uuid).tStatus := Job.tStatus_effect (hmarked j hj).1
      rw [← hst', hu] at hfits
      exact (hl.next hpc).ne_generating hfits
    · exact hget ▸ hst
  · let I (_ : TorrentInfoManager) (j : Job) : Prop := j.uuid = uuid → j.pc.live = true → j.pc.Late
    refine forall_poolStep (I := I) (fun _ _ => Apart.symm) h hapart hlate
      (fun j j' hs hl hu _ => ?_) fun _ _ _ _ _ _ hl => hl
    obtain ⟨pc, hpc, -, rfl⟩ := Job.step_eq_some_iff.mp hs
    exact (hl hu (JobPc.live_of_next hpc)).next hpc

/-- No job of the uuid comes to life, and without one the record stays. -/
theorem NoneLive.job_step {i : ℕ} {jobs jobs' : List Job} (hn : NoneLive uuid m jobs)
    (hapart : jobs.Pairwise Apart)
    (h : poolStep (Job.step cfg) i e m jobs = some (m', jobs')) : NoneLive uuid m' jobs' := by
  obtain ⟨hst, hdead⟩ := hn
  have hstuck : ∀ j j' : Job, j.uuid = uuid → j.step cfg e m = some (m', j') →
      j.pc.live ≠ false := by
    intro j j' _ hs
    rw [Job.live_of_step hs]
    decide
  refine ⟨?_, ?_⟩
  · rcases get_of_poolStep h uuid with ⟨j, j', hj, -, hu, hs⟩ | hget
    · exact absurd (hdead j hj hu) (hstuck j j' hu hs)
    · exact hget ▸ hst
  · let I (_ : TorrentInfoManager) (j : Job) : Prop := j.uuid = uuid → j.pc.live = false
    refine forall_poolStep (I := I) (fun _ _ => Apart.symm) h hapart hdead
      (fun j j' hs hd hu => ?_) fun _ _ _ _ _ _ hd => hd
    have hu' : j.uuid = uuid := (Job.uuid_of_step hs).symm.trans hu
    exact absurd (hd hu') (hstuck j j' hu' hs)

/-- **A step of a job** keeps the jobs apart and the statuses fitting. -/
theorem GenerationState.Inv.job_step (hi : s.Inv) {i : ℕ} {jobs : List Job}
    (h : poolStep (Job.step cfg) i e s.infoManager s.jobs = some (m', jobs)) :
    GenerationState.Inv { s with infoManager := m', jobs := jobs } where
  apart := by
    refine pairwise_poolStep (fun _ _ => Apart.symm) h hi.apart fun j j' k hs ha hu => ?_
    have hdead := (ha ((Job.uuid_of_step hs).symm.trans hu)).resolve_left
      (by simp [Job.live_of_step hs])
    exact .inr hdead
  marked := forall_poolStep (fun _ _ => Apart.symm) h hi.apart hi.marked
    (fun j j' hs hm => hm.own hs) fun j j' k hs ha _ hm => hm.other hs ha
  second uuid path hc := (hi.second uuid path hc).job_step hi.apart hi.marked h
  spawn uuid path hc := (hi.spawn uuid path hc).job_step hi.apart h

/-- A first read that passes while no job of the uuid is unmarked finds none at work. -/
theorem GenerationState.Inv.noneAtWork (hi : s.Inv)
    (hg : ∀ j ∈ s.jobs, j.uuid = uuid → j.pc.unmarked = false)
    (hst : (s.infoManager.get uuid).tStatus ≠ .generating) :
    NoneAtWork uuid s.infoManager s.jobs := by
  refine ⟨hst, fun j hj hu hlive => ?_⟩
  have hfits := (hi.marked j hj).2 hlive
  exact hfits.late (hu ▸ hst) (hg j hj hu)

/-- A second read that passes while none is failing finds none live. -/
theorem NoneAtWork.noneLive {jobs : List Job} (hn : NoneAtWork uuid m jobs)
    (hmarked : ∀ j ∈ jobs, Marked m j) (hg : ∀ j ∈ jobs, j.uuid = uuid → j.pc.failing = false)
    (hst : (m.get uuid).tStatus ≠ .generated) : NoneLive uuid m jobs := by
  obtain ⟨hne, hlate⟩ := hn
  refine ⟨⟨hne, hst⟩, fun j hj hu => ?_⟩
  by_contra hlive
  rw [Bool.not_eq_false] at hlive
  have hfits := (hmarked j hj).2 hlive
  have hfail := (hlate j hj hu hlive).failing hfits (hu ▸ hst) hlive
  exact absurd (hfail.symm.trans (hg j hj hu)) (by decide)

/-- A job spawned then is apart from the others, and its status fits. -/
theorem GenerationState.Inv.spawned (hi : s.Inv) (hn : NoneLive uuid s.infoManager s.jobs) :
    GenerationState.Inv { s with jobs := s.jobs ++ [.spawned uuid path], caller := .idle } := by
  obtain ⟨hst, hdead⟩ := hn
  refine ⟨?_, ?_, nofun, nofun⟩
  · refine List.pairwise_append.mpr ⟨hi.apart, List.pairwise_singleton _ _, ?_⟩
    intro j hj k hk hu
    obtain rfl := List.mem_singleton.mp hk
    exact .inl (hdead j hj hu)
  · intro j hj
    rcases List.mem_append.mp hj with hj | hj
    · exact hi.marked j hj
    · obtain rfl := List.mem_singleton.mp hj
      exact ⟨fun hc => absurd rfl hc, fun _ => hst⟩

/-- **A step at which the guard can tell.** -/
theorem GenerationState.Inv.step (hi : s.Inv) (hg : GuardTells s a)
    (h : generationStep cfg s a = some s') : s'.Inv := by
  obtain ⟨m, jobs, caller⟩ := s
  rcases a with ⟨uuid, path⟩ | _ | _ | ⟨i, e⟩
  · rcases caller <;> simp only [generationStep, reduceCtorEq] at h
    split at h
    · obtain rfl := Option.some.inj h
      rename_i hst
      refine ⟨hi.apart, hi.marked, ?_, nofun⟩
      rintro _ _ ⟨⟩
      exact hi.noneAtWork hg hst
    · exact (Option.some.inj h) ▸ hi
  · rcases caller <;> simp only [generationStep, reduceCtorEq] at h
    split at h
    · obtain rfl := Option.some.inj h
      rename_i uuid path hst
      refine ⟨hi.apart, hi.marked, nofun, ?_⟩
      rintro _ _ ⟨⟩
      exact (hi.second uuid path rfl).noneLive hi.marked hg hst
    · obtain rfl := Option.some.inj h
      exact ⟨hi.apart, hi.marked, nofun, nofun⟩
  · rcases caller <;> simp only [generationStep, reduceCtorEq] at h
    obtain rfl := Option.some.inj h
    rename_i uuid path
    exact hi.spawned (hi.spawn uuid path rfl)
  · obtain ⟨⟨m', jobs'⟩, hpool, rfl⟩ := Option.map_eq_some_iff.mp h
    exact hi.job_step hpool

end Torrent

end VerAI
