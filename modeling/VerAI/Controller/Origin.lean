import VerAI.Lib.Pool
import VerAI.Controller.Rejected
/-!
# Where a torrent said to be generated comes from

A daemon sends a report for two reasons. One is the answer to a poll, and its
status is read from the record: `GENERATED` is written there by a job of the
daemon only. The other is a refused download, which sends the message of the
server back. So a torrent a daemon reports as generated is its own, or one it
was told to download.
-/

namespace VerAI

namespace Controller

open Client (Body Call Bodies)
open Torrent (RpcTorrentInfo TorrentInfoManager Environment Config Job Status Download Maps)

/-- The torrents a body was told to download, as far as it still goes through
them; one of them may just have been refused. -/
def toDownload : Body → List RpcTorrentInfo
  | .downloads list => list
  | .downloading tInfo rest => tInfo :: rest
  | .rejected tInfo rest => tInfo :: rest
  | .getInfo (.updateTorrentStatus tInfo .rejected rest) => tInfo :: rest
  | .call (.updateTorrentStatus tInfo .rejected rest) _ => tInfo :: rest
  | _ => []

/-- The report of a poll a body is about to send. -/
def polledReport : Body → Option RpcTorrentInfo
  | .getInfo (.updateTorrentStatus tInfo .polled _) => some tInfo
  | .call (.updateTorrentStatus tInfo .polled _) _ => some tInfo
  | _ => none

/-! ## The body -/

section Body

variable {uuid : String} {t : RpcTorrentInfo} {s s' : ControllerState} {a : ControllerAction}
  {e : Client.Event}

/-- **What a step does to the body**: it leaves it, ends it or begins one, or
is a step of it. -/
theorem body_of_controllers (h : Controllers uuid s a s') :
    s'.client.body = s.client.body ∨ s'.client.body = .idle ∨
    (∃ task : Client.ClientTask, s'.client.body = task.entry) ∨
    ∃ e, a = .client (.body e) ∧ Bodies uuid s.client e s'.client := by
  have hclient : ∀ {b c}, ClientStep uuid s b c → c.body = s.client.body ∨ c.body = .idle ∨
      (∃ task : Client.ClientTask, c.body = task.entry) ∨
        ∃ e, b = .body e ∧ Bodies uuid s.client e c := by
    intro b c hc
    cases Client.clients_of_step hc with
    | body hb => exact .inr (.inr (.inr ⟨_, rfl, hb⟩))
    | @work t _ _ =>
      obtain ⟨-, hbody⟩ | ⟨task, -, hbody⟩ := Client.running_cases t
      · exact .inr (.inl hbody)
      · exact .inr (.inr (.inl ⟨task, hbody⟩))
    | _ => exact .inl rfl
  cases h with
  | startClient _ hc | starting _ hc | destroyClient _ hc | destroying _ hc =>
    obtain h | h | h | ⟨e, he, -⟩ := hclient hc
    · exact .inl h
    · exact .inr (.inl h)
    · exact .inr (.inr (.inl h))
    · cases he
  | client _ hc =>
    obtain h | h | h | ⟨e, rfl, hb⟩ := hclient hc
    · exact .inl h
    · exact .inr (.inl h)
    · exact .inr (.inr (.inl h))
    · exact .inr (.inr (.inr ⟨e, rfl, hb⟩))
  | _ => exact .inl rfl

/-- A body is told what to download by the answer to `GetTorrentsForDownload`. -/
theorem toDownload_of_bodies {c c' : Client.ClientState} (h : Bodies uuid c e c')
    (ht : t ∈ toDownload c'.body) : t ∈ toDownload c.body ∨
      ∃ info list, c.body = .call .getTorrentsForDownload info ∧ e = .torrents list ∧ t ∈ list := by
  cases h with
  | call hb _ hanswer =>
    rw [hb]
    unfold Call.answer at hanswer
    split at hanswer
    case h_3 list =>
      obtain rfl := Option.some.inj hanswer
      exact .inr ⟨_, _, rfl, rfl, ht⟩
    case h_5 =>
      obtain rfl := Option.some.inj hanswer
      exact .inl (List.mem_cons_of_mem _ ht)
    case h_7 => cases hanswer
    all_goals
      obtain rfl := Option.some.inj hanswer
      cases ht
  | @getInfo c hb =>
    rw [hb]
    cases c with
    | updateTorrentStatus tInfo reporter rest =>
      cases reporter with
      | rejected => exact .inl ht
      | polled => cases ht
    | _ => cases ht
  | download hb | throws hb | rejected hb =>
    rw [hb]
    exact .inl ht
  | downloadAsync hb =>
    rw [hb]
    exact .inl (List.mem_cons_of_mem _ ht)
  | _ => cases ht

/-- A report of a poll is what `UpdateTorrentInfo` has given. -/
theorem polledReport_of_bodies {c c' : Client.ClientState} (h : Bodies uuid c e c')
    (ht : polledReport c'.body = some t) : polledReport c.body = some t ∨
      e = .updateTorrentInfo t ∧ ∃ asked rest, c.body = .updates (asked :: rest) := by
  cases h with
  | call hb _ hanswer =>
    unfold Call.answer at hanswer
    split at hanswer
    case h_7 => cases hanswer
    all_goals
      obtain rfl := Option.some.inj hanswer
      cases ht
  | @getInfo c hb =>
    rw [hb]
    cases c with
    | updateTorrentStatus tInfo reporter rest =>
      cases reporter with
      | rejected => cases ht
      | polled => exact .inl ht
    | _ => cases ht
  | update hb =>
    obtain rfl := Option.some.inj ht
    exact .inr ⟨rfl, _, _, hb⟩
  | _ => cases ht

/-- The same of a step of the controller. -/
theorem toDownload_of_controllers (h : Controllers uuid s a s')
    (ht : t ∈ toDownload s'.client.body) : t ∈ toDownload s.client.body ∨
      ∃ info list, s.client.body = .call .getTorrentsForDownload info ∧
        a = .client (.body (.torrents list)) ∧ t ∈ list := by
  obtain hb | hb | ⟨task, hb⟩ | ⟨e, rfl, hb⟩ := body_of_controllers h
  · exact .inl (hb ▸ ht)
  · rw [hb] at ht
    cases ht
  · rw [hb] at ht
    cases task <;> cases ht
  · refine (toDownload_of_bodies hb ht).imp_right ?_
    rintro ⟨info, list, hbody, rfl, hmem⟩
    exact ⟨info, list, hbody, rfl, hmem⟩

/-- The same of a step of the controller. -/
theorem polledReport_of_controllers (h : Controllers uuid s a s')
    (ht : polledReport s'.client.body = some t) : polledReport s.client.body = some t ∨
      a = .client (.body (.updateTorrentInfo t)) ∧
        ∃ asked rest, s.client.body = .updates (asked :: rest) := by
  obtain hb | hb | ⟨task, hb⟩ | ⟨e, rfl, hb⟩ := body_of_controllers h
  · exact .inl (hb ▸ ht)
  · rw [hb] at ht
    cases ht
  · rw [hb] at ht
    cases task <;> cases ht
  · refine (polledReport_of_bodies hb ht).imp_right ?_
    rintro ⟨rfl, hbody⟩
    exact ⟨rfl, hbody⟩

end Body

/-! ## The records -/

section Records

variable {cfg : Config} {env : Environment} {uuid : String} {s s' : DaemonState} {a : DaemonAction}

/-- `UpdateStatus` brings no `GENERATED` but its own. -/
theorem tStatus_of_updateStatus {st : Status} {progress : BitVec 32} {id v : String}
    {m : TorrentInfoManager} (hne : st ≠ .generated)
    (h : ((m.updateStatus id st progress).get v).tStatus = .generated) :
    (m.get v).tStatus = .generated := by
  have hcases : ((m.updateStatus id st progress).get v).tStatus = (m.get v).tStatus ∨
      v = id ∧ ((m.updateStatus id st progress).get v).tStatus = st :=
    TorrentInfoManager.tStatus_updateStatus_cases
  obtain hsame | ⟨-, hst⟩ := hcases
  · exact hsame.symm.trans h
  · exact absurd (hst.symm.trans h) hne

/-- No alert writes `GENERATED`. -/
theorem tStatus_of_write {b : Torrent.Alert} {torrentName id v : String} {m : TorrentInfoManager}
    (h : ((b.write env torrentName id m).get v).tStatus = .generated) :
    (m.get v).tStatus = .generated := by
  cases b with
  | addTorrent error =>
    simp only [Torrent.Alert.write] at h
    split at h
    · split at h
      · exact h
      · exact tStatus_of_updateStatus (by decide) h
    · exact h
  | torrentFinished =>
    simp only [Torrent.Alert.write, TorrentInfoManager.tStatus_onRecord_setPathToTFile] at h
    split at h
    · exact h
    · exact tStatus_of_updateStatus (by decide) h
  | torrentError =>
    simp only [Torrent.Alert.write] at h
    split at h
    · exact h
    · exact tStatus_of_updateStatus (by decide) h
  | stateUpdate finished progressPpm =>
    simp only [Torrent.Alert.write] at h
    split at h
    · exact h
    · simpa using h

/-- Nor does `DownloadAsync`. -/
theorem generated_of_moves {newUuid v : String} {m m' : Maps} {d d' : Download}
    {e : Torrent.Event} (h : Download.Moves env newUuid m d e m' d')
    (hgen : (m'.infoManager.get v).tStatus = .generated) :
    (m.infoManager.get v).tStatus = .generated := by
  have hfield : ∀ {w : Torrent.Write} {id}, (∀ info, (w.apply info).tStatus = info.tStatus) →
      ((m.infoManager.onRecord id w.apply).get v).tStatus = (m.infoManager.get v).tStatus :=
    fun hw => TorrentInfoManager.get_onRecord_field Torrent.TorrentInfo.tStatus hw
  have hstatus : ∀ {st : Status} {id}, st ≠ .generated →
      ((m.infoManager.onRecord id (.setStatus st)).get v).tStatus = .generated →
        (m.infoManager.get v).tStatus = .generated := by
    intro st id hne hgen
    obtain hsame | ⟨-, hst⟩ :=
      TorrentInfoManager.get_onRecord_cases m.infoManager id v (.setStatus st)
    · exact hsame ▸ hgen
    · rw [hst] at hgen
      exact absurd hgen hne
  cases h with
  | create => exact (congrArg _ TorrentInfoManager.get_create).symm.trans hgen
  | setLink | failProgress | setPathToProject => exact (hfield fun _ => rfl).symm.trans hgen
  | setStatus | failStatus => exact hstatus (by decide) hgen
  | _ => exact hgen

/-- A job of the daemon has begun to generate the torrent, and has. -/
def Generates (history : List Entry) (id : String) : Prop :=
  .createTorrent id ∈ history ∧ .generated id ∈ history

/-- What a history says a longer one says. -/
theorem Generates.mono {history history' : List Entry} {id : String}
    (h : Generates history id) (hsub : history ⊆ history') : Generates history' id :=
  ⟨hsub h.1, hsub h.2⟩

/-- **What `GENERATED` says of a torrent**: a job of the daemon has generated
it. -/
structure OriginInv (s : DaemonState) : Prop where
  keys : ∀ id, (s.generation.infoManager.get id).tId = id
  records : ∀ id, (s.generation.infoManager.get id).tStatus = .generated →
    Generates s.history id
  jobs : ∀ j ∈ s.generation.jobs, j.pc ≠ .create → .createTorrent j.uuid ∈ s.history
  polled : ∀ t, polledReport s.controller.client.body = some t → t.status = .generated →
    Generates s.history t.id

/-- A step that leaves the records to their jobs. -/
theorem OriginInv.of_quiet (hi : OriginInv s) (hsub : s.history ⊆ s'.history)
    (hjobs : s'.generation.jobs = s.generation.jobs)
    (hkeys : ∀ id, (s'.generation.infoManager.get id).tId = (s.generation.infoManager.get id).tId)
    (hrecords : ∀ id, (s'.generation.infoManager.get id).tStatus = .generated →
      (s.generation.infoManager.get id).tStatus = .generated)
    (hpolled : ∀ t, polledReport s'.controller.client.body = some t →
      polledReport s.controller.client.body = some t) : OriginInv s' where
  keys id := (hkeys id).trans (hi.keys id)
  records id h := (hi.records id (hrecords id h)).mono hsub
  jobs j hj hpc := hsub (hi.jobs j (hjobs ▸ hj) hpc)
  polled t ht hst := (hi.polled t (hpolled t ht) hst).mono hsub

/-- `CreateTorrentAsync` reads, and spawns a job that has not begun. -/
theorem OriginInv.read {tInfo : RpcTorrentInfo} {g : Torrent.GenerationState} (hi : OriginInv s)
    (c : ControllerState) (hg : Torrent.generationStep cfg s.generation (s.nextRead tInfo) = some g)
    (hpolled : ∀ t, polledReport c.client.body = some t →
      polledReport s.controller.client.body = some t) :
    OriginInv { s with controller := c, generation := g } := by
  have hm := infoManager_of_nextRead hg
  refine ⟨hm ▸ hi.keys, hm ▸ hi.records, fun j hj hpc => ?_, fun t ht => hi.polled t (hpolled t ht)⟩
  -- the only job that was not there is the one just spawned
  have hjobs : j ∈ s.generation.jobs ∨ j.pc = .create := by
    unfold DaemonState.nextRead at hg
    split at hg
    case h_1 hc =>
      simp only [Torrent.generationStep, hc] at hg
      split at hg <;> obtain rfl := Option.some.inj hg <;> exact .inl hj
    case h_2 hc =>
      simp only [Torrent.generationStep, hc] at hg
      split at hg <;> obtain rfl := Option.some.inj hg <;> exact .inl hj
    case h_3 hc =>
      simp only [Torrent.generationStep, hc] at hg
      obtain rfl := Option.some.inj hg
      obtain hj | hj := List.mem_append.mp hj
      · exact .inl hj
      · obtain rfl := List.mem_singleton.mp hj
        exact .inr rfl
  exact hi.jobs j (hjobs.resolve_right hpc) hpc

/-- A job writes `GENERATED` after it has begun. -/
theorem OriginInv.job {i : ℕ} {e : Torrent.Event} {j : Job} {g : Torrent.GenerationState}
    {list : Std.TreeMap String Torrent.AddTorrentParams} (hi : OriginInv s)
    (hj : s.generation.jobs[i]? = some j)
    (hg : Torrent.generationStep cfg s.generation (.job i e) = some g) :
    OriginInv { s with
      generation := g
      torrentsIdList := list
      history := entries j ++ s.history } := by
  have hmem : j ∈ s.generation.jobs := List.mem_of_getElem? hj
  have hsub : s.history ⊆ entries j ++ s.history := List.subset_append_right _ _
  have hbegun : .createTorrent j.uuid ∈ entries j ++ s.history := by
    by_cases hpc : j.pc = .create
    · simp [entries, hpc]
    · exact hsub (hi.jobs j hmem hpc)
  have hm := Torrent.infoManager_of_job hj hg
  refine ⟨fun id => ?_, fun id h => ?_, fun k hk hpc => ?_,
    fun t ht hst => (hi.polled t ht hst).mono hsub⟩
  · rw [hm, Job.tId_effect]
    exact hi.keys id
  · rw [hm] at h
    obtain hsame | ⟨rfl, hwritten⟩ := Job.tStatus_effect_cases cfg j s.generation.infoManager id
    · exact (hi.records id (hsame.symm.trans h)).mono hsub
    · have hpc : j.pc = .setGenerated := Torrent.JobPc.eq_setGenerated (h ▸ hwritten)
      exact ⟨hbegun, by simp [entries, hpc]⟩
  · obtain ⟨⟨m, jobs⟩, hpool, rfl⟩ := Option.map_eq_some_iff.mp hg
    rw [Transition.poolStep, hj, Option.bind_some] at hpool
    obtain ⟨⟨m', j'⟩, hstep, heq⟩ := Option.map_eq_some_iff.mp hpool
    obtain ⟨rfl, rfl⟩ := Prod.mk.inj heq
    obtain hold | rfl := List.mem_or_eq_of_mem_set hk
    · exact hsub (hi.jobs k hold hpc)
    · rw [Job.uuid_of_step hstep]
      exact hbegun

/-- **Every step keeps it.** -/
theorem OriginInv.step (hi : OriginInv s) (h : Daemons cfg env uuid s a s') : OriginInv s' := by
  cases h with
  | controller hcb hc =>
    refine hi.of_quiet (List.subset_append_right _ _) rfl (fun _ => rfl) (fun _ => id)
      fun t ht => ?_
    obtain hold | ⟨rfl, asked, rest, hb⟩ := polledReport_of_controllers (controllers_of_step hc) ht
    · exact hold
    · exact absurd (hcb (by rw [hb]; rfl)) (by simp [isBodyStep])
  | reads _ hg => exact hi.read _ hg fun _ ht => ht
  | returns hb hg hc =>
    refine hi.read _ hg fun t ht => ?_
    obtain hold | ⟨h, -⟩ := polledReport_of_controllers (controllers_of_step hc) ht
    · exact hold
    · cases h
  | downloadAsync =>
    exact hi.of_quiet (List.subset_cons_self _ _) rfl (fun _ => rfl) (fun _ => id) fun _ => id
  -- a download writes `DOWNLOADING` and an error, which no poll reports as generated
  | download _ hmoves | addThrew _ hmoves =>
    exact hi.of_quiet (List.Subset.refl _) rfl (fun _ => tId_of_moves hmoves)
      (fun _ => generated_of_moves hmoves) fun _ => id
  | returned _ _ hc | threw _ _ hc =>
    refine hi.of_quiet (by simp) rfl (fun _ => rfl) (fun _ => id) fun t ht => ?_
    obtain hold | ⟨h, -⟩ := polledReport_of_controllers (controllers_of_step hc) ht
    · exact hold
    · cases h
  | @updateTorrentInfo asked tInfo rest c hb hid hst hc =>
    refine ⟨hi.keys, hi.records, hi.jobs, fun t ht hgen => ?_⟩
    obtain hold | ⟨h, -⟩ := polledReport_of_controllers (controllers_of_step hc) ht
    · exact hi.polled t hold hgen
    · cases h
      -- the poll reports the id and the status of the record
      rw [hid, hi.keys]
      exact hi.records _ (Torrent.convertTorrentStatus_eq_generated_iff.mp (hst.symm.trans hgen))
  | @job i e newUuid j g hj hg => exact hi.job hj hg
  | alert => exact ⟨hi.keys, hi.records, hi.jobs, hi.polled⟩
  | @handleAlert f hf =>
    exact ⟨fun id => Torrent.Alert.tId_write.trans (hi.keys id),
      fun id h => hi.records id (tStatus_of_write h), hi.jobs, hi.polled⟩

/-- **A torrent a poll reports as generated was generated here.** -/
theorem origin_of_reachable (h : (daemonMachine cfg env uuid).Reachable s) : OriginInv s := by
  refine h.invariant ?_ fun _ _ _ hi _ hs => hi.step (daemons_of_step hs)
  rintro _ rfl
  refine ⟨fun _ => rfl, fun _ h => ?_, fun _ hj => ?_, fun _ ht => ?_⟩
  · cases h
  · cases hj
  · cases ht

/-! ## The torrents to download -/

/-- **What a step does to the torrents to download**: it keeps them, or an
answer of the server brings them. -/
theorem toDownload_of_daemons {t : RpcTorrentInfo} (h : Daemons cfg env uuid s a s')
    (ht : t ∈ toDownload s'.controller.client.body) : t ∈ toDownload s.controller.client.body ∨
      ∃ info list, s.controller.client.body = .call .getTorrentsForDownload info ∧
        a = .controller (.client (.body (.torrents list))) ∧ t ∈ list := by
  cases h with
  | controller _ hc =>
    refine (toDownload_of_controllers (controllers_of_step hc) ht).imp_right ?_
    rintro ⟨info, list, hb, rfl, hmem⟩
    exact ⟨info, list, hb, rfl, hmem⟩
  | returns _ _ hc | returned _ _ hc | threw _ _ hc | updateTorrentInfo _ _ _ hc =>
    refine (toDownload_of_controllers (controllers_of_step hc) ht).imp_right ?_
    rintro ⟨info, list, -, h, -⟩
    cases h
  | _ => exact .inl ht

/-- A job begins no download. -/
theorem not_mem_entries {j : Job} {id : String} : .downloadAsync id ∉ entries j := by
  unfold entries
  split <;> simp

/-- Nor does an exception. -/
theorem not_mem_thrown {d : Download} {id : String} : .downloadAsync id ∉ thrown env d := by
  unfold thrown
  split <;> simp

/-- **What a step adds to the history**: a call of `DownloadAsync` is for a
torrent the body was told to download. -/
theorem history_of_daemons (h : Daemons cfg env uuid s a s') : ∃ new,
    s'.history = new ++ s.history ∧ ∀ id, .downloadAsync id ∈ new →
      ∃ t ∈ toDownload s.controller.client.body, t.id = id := by
  cases h with
  | @controller a c _ _ =>
    refine ⟨_, rfl, fun id hid => ?_⟩
    obtain h | ⟨tInfo, h, -⟩ := sentBy_cases s.controller.client.body a
    · rw [h] at hid
      cases hid
    · rw [h, List.mem_singleton] at hid
      cases hid
  | reads | returns | download | addThrew | returned | updateTorrentInfo | alert
  | handleAlert =>
    exact ⟨[], rfl, nofun⟩
  | @downloadAsync tInfo _ _ hb =>
    refine ⟨[.downloadAsync tInfo.id], rfl, fun id hid => ?_⟩
    rw [List.mem_singleton] at hid
    cases hid
    exact ⟨tInfo, by rw [hb]; exact List.mem_cons_self, rfl⟩
  | @threw _ d => exact ⟨thrown env d, rfl, fun id hid => absurd hid not_mem_thrown⟩
  | @job i e newUuid j g =>
    exact ⟨entries j, rfl, fun id hid => absurd hid not_mem_entries⟩

end Records

/-! ## The calls of `DownloadAsync` -/

/-- The torrents for which a body is still to call `DownloadAsync`. -/
def ahead : Body → List RpcTorrentInfo
  | .downloads list => list
  | .downloading tInfo rest => tInfo :: rest
  | .rejected _ rest => rest
  | .getInfo (.updateTorrentStatus _ .rejected rest) => rest
  | .call (.updateTorrentStatus _ .rejected rest) _ => rest
  | _ => []

section Calls

variable {cfg : Config} {env : Environment} {uuid : String} {id : String}

/-- **What a step of a body does to them**: it keeps them or leaves some out, or
an answer of the server brings them. -/
theorem ahead_of_bodies {c c' : Client.ClientState} {e : Client.Event} (h : Bodies uuid c e c') :
    (ahead c'.body).Sublist (ahead c.body) ∨
      ∃ info list, c.body = .call .getTorrentsForDownload info ∧ e = .torrents list ∧
        ahead c'.body = list := by
  cases h with
  | call hb _ hanswer =>
    rw [hb]
    unfold Call.answer at hanswer
    split at hanswer
    case h_3 list =>
      obtain rfl := Option.some.inj hanswer
      exact .inr ⟨_, _, rfl, rfl, rfl⟩
    case h_5 =>
      obtain rfl := Option.some.inj hanswer
      exact .inl (List.Sublist.refl _)
    case h_7 => cases hanswer
    all_goals
      obtain rfl := Option.some.inj hanswer
      exact .inl (List.nil_sublist _)
  | @getInfo c hb =>
    rw [hb]
    cases c with
    | updateTorrentStatus tInfo reporter rest =>
      cases reporter with
      | rejected => exact .inl (List.Sublist.refl _)
      | polled => exact .inl (List.nil_sublist _)
    | _ => exact .inl (List.nil_sublist _)
  | download hb | rejected hb =>
    rw [hb]
    exact .inl (List.Sublist.refl _)
  | throws hb | downloadAsync hb =>
    rw [hb]
    exact .inl (List.sublist_cons_self _ _)
  | _ => exact .inl (List.nil_sublist _)

/-- The same of a step of the controller. -/
theorem ahead_of_controllers {s s' : ControllerState} {a : ControllerAction}
    (h : Controllers uuid s a s') : (ahead s'.client.body).Sublist (ahead s.client.body) ∨
      ∃ info list, s.client.body = .call .getTorrentsForDownload info ∧
        a = .client (.body (.torrents list)) ∧ ahead s'.client.body = list := by
  obtain hb | hb | ⟨task, hb⟩ | ⟨e, rfl, hb⟩ := body_of_controllers h
  · rw [hb]
    exact .inl (List.Sublist.refl _)
  · rw [hb]
    exact .inl (List.nil_sublist _)
  · rw [hb]
    cases task <;> exact .inl (List.nil_sublist _)
  · refine (ahead_of_bodies hb).imp_right ?_
    rintro ⟨info, list, hbody, rfl, hahead⟩
    exact ⟨info, list, hbody, rfl, hahead⟩

/-- After the call the torrent it was for is no longer ahead. -/
theorem ahead_of_downloadAsync {s s' : ControllerState} {throws : Bool}
    (h : (controllerMachine uuid).step s (.client (.body (.downloadAsync throws))) = some s') :
    ahead s'.client.body = (ahead s.client.body).tail := by
  cases controllers_of_step h with
  | client _ hc =>
    cases Client.clients_of_step hc with
    | body hbody =>
      cases hbody with
      | downloadAsync hb | throws hb =>
        rw [hb]
        rfl
      | call _ _ hanswer =>
        unfold Call.answer at hanswer
        split at hanswer
        case h_7 => cases hanswer
        all_goals contradiction

/-- Those a daemon has not begun to call it for. -/
def DaemonState.ahead (s : DaemonState) : List RpcTorrentInfo :=
  let list := Controller.ahead s.controller.client.body
  if s.download.isSome then list.tail else list

/-- The calls of `DownloadAsync` for an id, begun or still ahead. -/
def DaemonState.calls (s : DaemonState) (id : String) : ℕ :=
  s.history.count (.downloadAsync id) + (s.ahead.map (·.id)).count id

/-- What leaves the call under way alone makes no call. -/
theorem calls_le_of_sublist {s s' : DaemonState} (id : String)
    (hcount : s'.history.count (.downloadAsync id) = s.history.count (.downloadAsync id))
    (hd : s'.download = s.download)
    (h : (ahead s'.controller.client.body).Sublist (ahead s.controller.client.body)) :
    s'.calls id ≤ s.calls id := by
  have hahead : s'.ahead.Sublist s.ahead := by
    unfold DaemonState.ahead
    rw [hd]
    split
    · exact h.tail
    · exact h
  unfold DaemonState.calls
  rw [hcount]
  exact Nat.add_le_add_left ((hahead.map _).count_le _) _

/-- Nor does the end of the call. -/
theorem calls_of_ended {s s' : DaemonState} {throws : Bool} (id : String)
    (hcount : s'.history.count (.downloadAsync id) = s.history.count (.downloadAsync id))
    (hd : s.download.isSome = true) (hd' : s'.download = none)
    (h : ControllerStep uuid s (.client (.body (.downloadAsync throws))) s'.controller) :
    s'.calls id = s.calls id := by
  simp [DaemonState.calls, DaemonState.ahead, hcount, hd, hd', ahead_of_downloadAsync h]

/-- **A step makes no call** that was not ahead, unless an answer of the server
brings new torrents. -/
theorem calls_of_daemons {s s' : DaemonState} {a : DaemonAction}
    (h : Daemons cfg env uuid s a s') (id : String) : s'.calls id ≤ s.calls id ∨
      ∃ info list, s.controller.client.body = .call .getTorrentsForDownload info ∧
        a = .controller (.client (.body (.torrents list))) ∧
        s'.calls id ≤ s.calls id + (list.map (·.id)).count id := by
  cases h with
  | @controller a c _ hc =>
    have hsame : (sentBy s.controller.client.body a ++ s.history).count (.downloadAsync id) =
        s.history.count (.downloadAsync id) := by
      obtain h | ⟨tInfo, h, -⟩ := sentBy_cases s.controller.client.body a
      · rw [h, List.nil_append]
      · rw [h, List.singleton_append, List.count_cons_of_ne (by simp)]
    obtain h | ⟨info, list, hb, rfl, h⟩ := ahead_of_controllers (controllers_of_step hc)
    · exact .inl (calls_le_of_sublist id hsame rfl h)
    · refine .inr ⟨info, list, hb, rfl, ?_⟩
      have hlist : (if s.download.isSome then list.tail else list).Sublist list := by
        split
        · exact List.tail_sublist list
        · exact List.Sublist.refl list
      have hcount := (hlist.map (·.id)).count_le id
      simp only [DaemonState.calls, DaemonState.ahead, hsame, h]
      omega
  | returns _ _ hc | updateTorrentInfo _ _ _ hc =>
    obtain h | ⟨info, list, -, h, -⟩ := ahead_of_controllers (controllers_of_step hc)
    · exact .inl (calls_le_of_sublist id rfl rfl h)
    · cases h
  | @downloadAsync tInfo rest _ hb hd =>
    -- what was ahead is now begun
    left
    simp only [DaemonState.calls, DaemonState.ahead, hb, hd, ahead, Option.isSome_some,
      Option.isSome_none, if_true, Bool.false_eq_true, if_false, List.tail_cons, List.map_cons,
      List.count_cons]
    by_cases hid : tInfo.id = id
    · simp [hid]
      omega
    · simp [hid]
  | download hd | addThrew hd =>
    left
    simp [DaemonState.calls, DaemonState.ahead, DaemonState.downloadTo, hd]
  | returned hd _ hc =>
    refine .inl (Eq.le ?_)
    exact calls_of_ended id rfl (Option.isSome_of_eq_some hd) rfl hc
  | threw hd _ hc =>
    refine .inl (Eq.le ?_)
    refine calls_of_ended id ?_ (Option.isSome_of_eq_some hd) rfl hc
    rw [List.count_append, List.count_eq_zero_of_not_mem not_mem_thrown, Nat.zero_add]
  | @job i e newUuid j g =>
    refine .inl (calls_le_of_sublist id ?_ rfl (List.Sublist.refl _))
    rw [List.count_append, List.count_eq_zero_of_not_mem not_mem_entries, Nat.zero_add]
  | _ => exact .inl (Nat.le_refl _)

end Calls

end Controller

end VerAI
