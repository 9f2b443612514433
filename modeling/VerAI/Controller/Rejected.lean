import VerAI.Lib.Splits
import VerAI.Controller.Daemon
import VerAI.Server.Handler
/-!
# Reports after a rejected download

Where `DownloadAsync` throws, the record says `DOWNLOADING_ERROR`, and what a
later poll reports is read from the record. But the handler of the exception
sends the server its own message back, with whatever status it had. And a
record is found by its uuid alone: a job that was already running for it, or
the end of another torrent that an alert takes for it, overwrites the error,
from the moment `DownloadAsync` has recorded it.

Apart from these three every report for the torrent carries `ERROR`, until it
is downloaded or generated anew.
-/

namespace VerAI

namespace Controller

open Transition (System)
open Splits (forall_split_cons)
open Client (Body Call)
open Torrent (RpcTorrentInfo RpcStatus TorrentInfoManager Environment Config Job Download Maps
  convertTorrentStatus)

/-- `DownloadAsync` has thrown for this torrent, which has been neither
downloaded nor generated anew. -/
def rejected (id : String) : List Entry → Bool
  | [] => false
  | .threw id' :: earlier => id' = id || rejected id earlier
  | .downloadAsync id' :: earlier => id' ≠ id && rejected id earlier
  | .createTorrent id' :: earlier => id' ≠ id && rejected id earlier
  | .generated _ :: earlier => rejected id earlier
  | .sent _ :: earlier => rejected id earlier

/-- The call has recorded the error of its link. -/
def failing (env : Environment) (d : Download) : Bool :=
  match d.pc with
  | .failProgress => true
  | .threw => (env.parseMagnetUri d.link).isNone
  | _ => false

/-- The torrent is rejected, or about to be: its error is recorded. -/
def DaemonState.rejecting (env : Environment) (s : DaemonState) (id : String) : Bool :=
  rejected id s.history || s.download.any fun d => d.uuid == id && failing env d

/-- What would report a rejected torrent as something else does not happen: a
message that makes `DownloadAsync` throw has status `ERROR`, and no alert and
no job changes the status of a torrent whose error is recorded to anything but
an error. -/
def ReportsErrors (env : Environment) (s : DaemonState) : DaemonAction → Prop
  | .downloadAsync _ =>
    match s.controller.client.body with
    | .downloading tInfo _ => env.parseMagnetUri tInfo.link = none → tInfo.status = .error
    | _ => True
  | .handleAlert =>
    ∀ f ∈ s.handling, f.alert = .torrentFinished → f.id ≠ "" → s.rejecting env f.id = false
  | .job i _ _ =>
    ∀ j ∈ s.generation.jobs[i]?, s.rejecting env j.uuid = true →
      ∀ st ∈ j.pc.writtenStatus, convertTorrentStatus st = .error
  | _ => True

instance (env : Environment) (s : DaemonState) (a : DaemonAction) :
    Decidable (ReportsErrors env s a) := by
  unfold ReportsErrors
  split
  · split <;> infer_instance
  all_goals infer_instance

/-- The report a body is about to send. -/
def report : Body → Option RpcTorrentInfo
  | .rejected tInfo _ => some tInfo
  | .getInfo (.updateTorrentStatus tInfo _ _) => some tInfo
  | .call (.updateTorrentStatus tInfo _ _) _ => some tInfo
  | _ => none

/-- The report that comes with a step of a callback. -/
def newReport : Body → Client.Event → Option RpcTorrentInfo
  | .downloading tInfo _, .downloadAsync true => some tInfo
  | .updates (_ :: _), .updateTorrentInfo tInfo => some tInfo
  | _, _ => none

/-- Every report sent for a torrent while it was rejected carries `ERROR`. -/
def SentErrors (history : List Entry) : Prop :=
  ∀ later m earlier, history = later ++ .sent m :: earlier →
    rejected m.id earlier = true → m.status = .error

/-! ## The history -/

section History

variable {id : String} {m : RpcTorrentInfo} {mid earlier history : List Entry} {e : Entry}

/-- A torrent stays rejected until it is downloaded or generated anew. -/
theorem rejected_append (h : ∀ e ∈ mid, e ≠ .downloadAsync id ∧ e ≠ .createTorrent id) :
    rejected id (mid ++ .threw id :: earlier) = true := by
  induction mid with
  | nil => simp [rejected]
  | cons e mid ih =>
    have ih := ih fun e he => h e (List.mem_cons_of_mem _ he)
    have hne := h e List.mem_cons_self
    cases e with
    | downloadAsync id' =>
      have hid : id' ≠ id := fun h => hne.1 (h ▸ rfl)
      simp [rejected, ih, hid]
    | createTorrent id' =>
      have hid : id' ≠ id := fun h => hne.2 (h ▸ rfl)
      simp [rejected, ih, hid]
    | threw | generated | sent => simp [rejected, ih]

/-- A job makes no torrent rejected. -/
theorem rejected_of_entries {j : Job} (h : rejected id (entries j ++ history) = true) :
    rejected id history = true := by
  unfold entries at h
  split at h
  case h_1 => exact (Bool.and_eq_true_iff.mp h).2
  case h_2 | h_3 => exact h

/-- One more entry, which if it is a report is as it should be. -/
theorem SentErrors.cons (h : SentErrors history)
    (he : ∀ m, e = .sent m → rejected m.id history = true → m.status = .error) :
    SentErrors (e :: history) := by
  intro later m earlier heq
  have hhistory : ∀ later e earlier, history = later ++ e :: earlier →
      ∀ m, e = .sent m → rejected m.id earlier = true → m.status = .error := by
    rintro later _ earlier heq m rfl
    exact h later m earlier heq
  exact forall_split_cons (P := fun earlier e => ∀ m, e = .sent m →
    rejected m.id earlier = true → m.status = .error) hhistory he later _ earlier heq m rfl

/-- A job sends nothing. -/
theorem SentErrors.entries (j : Job) (h : SentErrors history) :
    SentErrors (entries j ++ history) := by
  unfold Controller.entries
  split
  case h_1 | h_2 => exact h.cons fun _ hm => by cases hm
  case h_3 => exact h

end History

/-! ## The reports of a body -/

section Reports

variable {uuid : String} {tInfo : RpcTorrentInfo} {body : Body} {e : Client.Event}

/-- A call that is answered has nothing more to report. -/
theorem report_answer {c : Call} (h : c.answer e = some body) : report body = none := by
  unfold Call.answer at h
  split at h
  case h_7 => cases h
  all_goals exact Option.some.inj h ▸ rfl

/-- **Where a report comes from.** -/
theorem report_of_bodies {s s' : Client.ClientState} (h : Client.Bodies uuid s e s')
    (hr : report s'.body = some tInfo) :
    report s.body = some tInfo ∨ newReport s.body e = some tInfo := by
  cases h with
  | @getInfo c hb =>
    rw [hb]
    cases c with
    | updateTorrentStatus => exact .inl hr
    | _ => cases hr
  | call _ _ hans => exact absurd (hr.symm.trans (report_answer hans)) (by simp)
  | throws hb | update hb =>
    rw [hb]
    exact .inr hr
  | rejected hb =>
    rw [hb]
    exact .inl hr
  | _ => cases hr

/-- A body that begins has nothing to report. -/
theorem report_entered (t : Worker.ThreadState Client.ClientTask) :
    report (Client.ClientState.entered t) = none := by
  obtain ⟨-, hbody⟩ | ⟨task, -, hbody⟩ := Client.running_cases t
  · rw [hbody]
    rfl
  · rw [hbody]
    cases task <;> rfl

/-- The same of a step of the client. -/
theorem report_of_clients {s s' : Client.ClientState} {a : Client.ClientAction}
    (h : Client.Clients uuid s a s') (hr : report s'.body = some tInfo) :
    report s.body = some tInfo ∨ ∃ e, a = .body e ∧ newReport s.body e = some tInfo := by
  cases h with
  | work => exact absurd (hr.symm.trans (report_entered _)) (by simp)
  | body hb => exact (report_of_bodies hb hr).imp_right fun h => ⟨_, rfl, h⟩
  | _ => exact .inl hr

/-- **A step of the controller** keeps the report, or brings it. -/
theorem report_of_controllers {s s' : ControllerState} {a : ControllerAction}
    (h : Controllers uuid s a s') (hr : report s'.client.body = some tInfo) :
    report s.client.body = some tInfo ∨
      ∃ e, a = .client (.body e) ∧ newReport s.client.body e = some tInfo := by
  have hclient : ∀ {b c}, ClientStep uuid s b c → report c.body = some tInfo →
      report s.client.body = some tInfo ∨
        ∃ e, b = .body e ∧ newReport s.client.body e = some tInfo :=
    fun hc => report_of_clients (Client.clients_of_step hc)
  cases h with
  | startClient _ hc | starting _ hc | destroyClient _ hc | destroying _ hc =>
    refine (hclient hc hr).imp_right ?_
    rintro ⟨e, he, -⟩
    cases he
  | client _ hc =>
    refine (hclient hc hr).imp_right ?_
    rintro ⟨e, rfl, he⟩
    exact ⟨e, rfl, he⟩
  | _ => exact .inl hr

/-- The same of a step of a body. -/
theorem report_of_bodyStep {s s' : ControllerState}
    (h : (controllerMachine uuid).step s (.client (.body e)) = some s')
    (hr : report s'.client.body = some tInfo) :
    report s.client.body = some tInfo ∨ newReport s.client.body e = some tInfo := by
  refine (report_of_controllers (controllers_of_step h) hr).imp_right ?_
  rintro ⟨e', he, hnew⟩
  cases he
  exact hnew

/-- A callback goes on while the controller does something else. -/
theorem body_of_controllers_of_not_isBodyStep {s s' : ControllerState} {a : ControllerAction}
    (h : Controllers uuid s a s') (hb : s.client.body.resting = false)
    (ha : isBodyStep a = false) : s'.client.body = s.client.body := by
  have hclient : ∀ {b c}, ClientStep uuid s b c → (∀ e, b ≠ .body e) → c.body = s.client.body := by
    intro b c hc hne
    cases Client.clients_of_step hc with
    | body => exact absurd rfl (hne _)
    | work hrest =>
      rw [hb] at hrest
      cases hrest
    | _ => rfl
  cases h with
  | startClient _ hc | starting _ hc | destroyClient _ hc | destroying _ hc =>
    exact hclient hc fun _ he => by cases he
  | client _ hc =>
    refine hclient hc ?_
    rintro e rfl
    cases ha
  | _ => rfl

/-- A report comes from a callback. -/
theorem inCallback_of_newReport (h : newReport body e = some tInfo) : inCallback body = true := by
  unfold newReport at h
  split at h
  case h_3 => cases h
  all_goals rfl

/-- A step sends the report its body was about to send, or none. -/
theorem sentBy_cases (body : Body) (a : ControllerAction) :
    sentBy body a = [] ∨ ∃ tInfo, sentBy body a = [.sent tInfo] ∧ report body = some tInfo := by
  unfold sentBy
  split
  case h_1 => exact .inr ⟨_, rfl, rfl⟩
  case h_2 => exact .inl rfl

/-- A report sent makes no torrent rejected. -/
theorem rejected_sentBy {id : String} {a : ControllerAction} {history : List Entry} :
    rejected id (sentBy body a ++ history) = rejected id history := by
  obtain h | ⟨tInfo, h, -⟩ := sentBy_cases body a
  · rw [h, List.nil_append]
  · rw [h]
    rfl

end Reports

/-! ## The records -/

section Records

variable {s : DaemonState} {tInfo : RpcTorrentInfo} {id : String}

/-- The caller of `CreateTorrentAsync` only reads the records. -/
theorem infoManager_of_nextRead {cfg : Config} {g : Torrent.GenerationState}
    (h : Torrent.generationStep cfg s.generation (s.nextRead tInfo) = some g) :
    g.infoManager = s.generation.infoManager := by
  unfold DaemonState.nextRead at h
  split at h
  case h_1 hc =>
    simp only [Torrent.generationStep, hc] at h
    split at h <;> exact Option.some.inj h ▸ rfl
  case h_2 hc =>
    simp only [Torrent.generationStep, hc] at h
    split at h <;> exact Option.some.inj h ▸ rfl
  case h_3 hc =>
    simp only [Torrent.generationStep, hc] at h
    exact Option.some.inj h ▸ rfl

/-! `DownloadAsync` changes the record of its uuid only. -/

variable {env : Environment} {newUuid : String} {m m' : Maps} {d d' : Download} {e : Torrent.Event}

/-- The other records stay. -/
theorem get_of_moves (h : Download.Moves env newUuid m d e m' d') (hne : d.uuid ≠ id) :
    m'.infoManager.get id = m.infoManager.get id := by
  cases h with
  | create => exact TorrentInfoManager.get_create
  | setLink | setStatus | failStatus | failProgress | setPathToProject =>
    exact TorrentInfoManager.get_onRecord_of_ne hne
  | _ => rfl

/-- So do all uuids. -/
theorem tId_of_moves (h : Download.Moves env newUuid m d e m' d') :
    (m'.infoManager.get id).tId = (m.infoManager.get id).tId := by
  cases h with
  | create => exact congrArg _ TorrentInfoManager.get_create
  | setLink | setStatus | failStatus | failProgress | setPathToProject =>
    exact TorrentInfoManager.get_onRecord_field Torrent.TorrentInfo.tId fun _ => rfl
  | _ => rfl

/-- And the arguments of the call. -/
theorem uuid_link_of_moves (h : Download.Moves env newUuid m d e m' d') :
    d'.uuid = d.uuid ∧ d'.link = d.link := by
  cases h <;> exact ⟨rfl, rfl⟩

/-- The call goes on by whether its link can be parsed. -/
def LinkTells (env : Environment) (d : Download) : Prop :=
  match d.pc with
  | .failStatus => env.parseMagnetUri d.link = none
  | .failProgress => env.parseMagnetUri d.link = none
  | .setPathToProject name => env.parseMagnetUri d.link = some name
  | .asyncAdd name => env.parseMagnetUri d.link = some name
  | _ => True

theorem LinkTells.moves (hl : LinkTells env d) (h : Download.Moves env newUuid m d e m' d') :
    LinkTells env d' := by
  cases h with
  | invalid hlink | parsed hlink => exact hlink
  | failStatus | setPathToProject => exact hl
  | _ => trivial

/-- Once the error is recorded the call leaves it. -/
theorem tStatus_of_moves (h : Download.Moves env newUuid m d e m' d') (hl : LinkTells env d)
    (hhas : d.pc ≠ .create → m.infoManager.Has d.uuid)
    (hold : failing env d = true →
      convertTorrentStatus (m.infoManager.get d.uuid).tStatus = .error)
    (hf : failing env d' = true) :
    convertTorrentStatus (m'.infoManager.get d.uuid).tStatus = .error := by
  cases h with
  | failStatus =>
    refine (congrArg (fun info => convertTorrentStatus info.tStatus)
      (TorrentInfoManager.get_onRecord_self (hhas (by simp)))).trans ?_
    rfl
  | failProgress =>
    refine (congrArg convertTorrentStatus ?_).trans (hold rfl)
    exact TorrentInfoManager.get_onRecord_field Torrent.TorrentInfo.tStatus fun _ => rfl
  -- a torrent that cannot be added has a link that can be parsed
  | addThrew =>
    have hnone := Option.isNone_iff_eq_none.mp hf
    cases hnone.symm.trans hl
  | _ => cases hf

end Records

/-! ## Every run -/

section Runs

variable {cfg : Config} {env : Environment} {uuid : String} {s s' : DaemonState} {a : DaemonAction}

/-- The call of `DownloadAsync` under way is that of the body. Its torrent is not
rejected any more, its record is made first, and its link tells how it goes on. -/
structure CallInv (env : Environment) (s : DaemonState) (d : Download) : Prop where
  body : ∃ tInfo rest, s.controller.client.body = .downloading tInfo rest ∧
    d.uuid = tInfo.id ∧ d.link = tInfo.link
  begun : rejected d.uuid s.history = false
  made : d.pc ≠ .create → s.generation.infoManager.Has d.uuid
  link : LinkTells env d

/-- What the records say of rejected torrents, what is about to be reported of
them, and what has been. -/
structure RejectInv (env : Environment) (s : DaemonState) : Prop where
  keys : ∀ id, (s.generation.infoManager.get id).tId = id
  failed : ∀ id, s.rejecting env id = true →
    convertTorrentStatus (s.generation.infoManager.get id).tStatus = .error
  reports : ∀ tInfo, report s.controller.client.body = some tInfo →
    rejected tInfo.id s.history = true → tInfo.status = .error
  sent : SentErrors s.history
  call : ∀ d, s.download = some d → CallInv env s d

/-- Rejected, or in a call that has recorded its error. -/
theorem rejecting_iff {id : String} : s.rejecting env id = true ↔
    rejected id s.history = true ∨
      ∃ d, s.download = some d ∧ d.uuid = id ∧ failing env d = true := by
  simp [DaemonState.rejecting, Option.any_eq_true]

/-- The call stays as it is while others step. -/
theorem CallInv.frame {d : Download} (hi : CallInv env s d)
    (hbody : s'.controller.client.body = s.controller.client.body)
    (hrej : ∀ id, rejected id s'.history = true → rejected id s.history = true)
    (hhas : ∀ id, s.generation.infoManager.Has id → s'.generation.infoManager.Has id) :
    CallInv env s' d where
  body := by rw [hbody]; exact hi.body
  begun := Bool.eq_false_iff.mpr fun h => Bool.eq_false_iff.mp hi.begun (hrej _ h)
  made h := hhas _ (hi.made h)
  link := hi.link

/-- No call is under way in another body. -/
theorem RejectInv.no_call {body : Body} (hi : RejectInv env s)
    (hb : s.controller.client.body = body) (hne : ∀ tInfo rest, body ≠ .downloading tInfo rest)
    (d : Download) : s.download ≠ some d := by
  intro hd
  obtain ⟨tInfo, rest, hbody, -⟩ := (hi.call d hd).body
  exact hne tInfo rest (hb.symm.trans hbody)

/-- The controller goes on: what it sends was about to be reported. -/
theorem RejectInv.controller {a : ControllerAction} {c : ControllerState} (hi : RejectInv env s)
    (hcb : inCallback s.controller.client.body = true → isBodyStep a = false)
    (hc : ControllerStep uuid s a c) :
    RejectInv env
      { s with controller := c, history := sentBy s.controller.client.body a ++ s.history } := by
  refine ⟨hi.keys, fun id hrej => hi.failed id ?_, fun tInfo hr hrej => ?_, ?_, fun d hd => ?_⟩
  · rw [rejecting_iff] at hrej ⊢
    exact hrej.imp_left fun h => rejected_sentBy ▸ h
  · rcases report_of_controllers (controllers_of_step hc) hr with hold | ⟨e, rfl, hnew⟩
    · exact hi.reports tInfo hold (rejected_sentBy ▸ hrej)
    · exact absurd (hcb (inCallback_of_newReport hnew)) (by simp [isBodyStep])
  · obtain h | ⟨tInfo, h, hr⟩ := sentBy_cases s.controller.client.body a
    · rw [h, List.nil_append]
      exact hi.sent
    · rw [h]
      refine hi.sent.cons fun m hm hrej => ?_
      cases hm
      exact hi.reports tInfo hr hrej
  · obtain ⟨tInfo, rest, hb, -⟩ := (hi.call d hd).body
    refine (hi.call d hd).frame ?_ (fun id hrej => rejected_sentBy ▸ hrej) fun _ => id
    exact body_of_controllers_of_not_isBodyStep (controllers_of_step hc) (by rw [hb]; rfl)
      (hcb (by rw [hb]; rfl))

/-- A call begins. -/
theorem RejectInv.downloadAsync {rest : List RpcTorrentInfo} {tInfo : RpcTorrentInfo}
    (hi : RejectInv env s) (hb : s.controller.client.body = .downloading tInfo rest) :
    RejectInv env { s with
      download := some ⟨tInfo.id, tInfo.link, .create⟩
      history := .downloadAsync tInfo.id :: s.history } := by
  refine ⟨hi.keys, fun id hrej => hi.failed id ?_, fun m hr _ => ?_,
    hi.sent.cons fun _ hm => (by cases hm), fun d hd => ?_⟩
  · rcases rejecting_iff.mp hrej with hrej | ⟨d, hd, -, hf⟩
    · exact rejecting_iff.mpr (.inl (Bool.and_eq_true_iff.mp hrej).2)
    · obtain rfl := Option.some.inj hd
      cases hf
  · rw [hb] at hr
    cases hr
  · obtain rfl := Option.some.inj hd
    exact ⟨⟨tInfo, rest, hb, rfl, rfl⟩, by simp [rejected], fun h => absurd rfl h,
      trivial⟩

/-- **A step of the call**: the error it records is an error. -/
theorem RejectInv.download {d d' : Download} {m : Maps} {e : Torrent.Event} {newUuid : String}
    (hi : RejectInv env s) (hd : s.download = some d)
    (h : Download.Moves env newUuid s.maps d e m d') :
    RejectInv env (s.downloadTo m d') := by
  have hcall := hi.call d hd
  obtain ⟨huuid, hlink⟩ := uuid_link_of_moves h
  refine ⟨fun id => (tId_of_moves h).trans (hi.keys id), fun id hrej => ?_, hi.reports, hi.sent,
    fun d₁ hd₁ => ?_⟩
  · rcases rejecting_iff.mp hrej with hrej | ⟨d₁, hd₁, rfl, hf⟩
    · have hne : d.uuid ≠ id := by
        rintro rfl
        exact Bool.eq_false_iff.mp hcall.begun hrej
      exact (congrArg (fun info => convertTorrentStatus info.tStatus) (get_of_moves h hne)).trans
        (hi.failed id (rejecting_iff.mpr (.inl hrej)))
    · obtain rfl := Option.some.inj hd₁
      rw [huuid]
      exact tStatus_of_moves h hcall.link hcall.made
        (fun hf => hi.failed d.uuid (rejecting_iff.mpr (.inr ⟨d, hd, rfl, hf⟩))) hf
  · obtain rfl := Option.some.inj hd₁
    obtain ⟨tInfo, rest, hb, hid, hl⟩ := hcall.body
    refine ⟨⟨tInfo, rest, hb, huuid.trans hid, hlink.trans hl⟩, huuid ▸ hcall.begun, fun _ => ?_,
      hcall.link.moves h⟩
    rw [huuid]
    exact h.steps.made fun hm => hcall.made (by simpa [Torrent.Call.made] using hm)

/-- The call returns. -/
theorem RejectInv.returned {d : Download} {c : ControllerState} (hi : RejectInv env s)
    (hd : s.download = some d)
    (hc : ControllerStep uuid s (.client (.body (.downloadAsync false))) c) :
    RejectInv env { s with controller := c, download := none } := by
  obtain ⟨tInfo, rest, hb, -⟩ := (hi.call d hd).body
  refine ⟨hi.keys, fun id hrej => hi.failed id ?_, fun m hr _ => ?_, hi.sent,
    fun _ hd => by cases hd⟩
  · rcases rejecting_iff.mp hrej with hrej | ⟨_, hd, -⟩
    · exact rejecting_iff.mpr (.inl hrej)
    · cases hd
  · rcases report_of_bodyStep hc hr with hold | hnew
    · rw [hb] at hold
      cases hold
    · rw [hb] at hnew
      cases hnew

/-- An exception leaves it: what is forwarded says `ERROR`, unless the torrent is
not rejected. -/
theorem RejectInv.threw {d : Download} {c : ControllerState} (hi : RejectInv env s)
    (hd : s.download = some d) (hpc : d.pc = .threw)
    (hst : ∀ tInfo rest, s.controller.client.body = .downloading tInfo rest →
      env.parseMagnetUri tInfo.link = none → tInfo.status = .error)
    (hc : ControllerStep uuid s (.client (.body (.downloadAsync true))) c) :
    RejectInv env { s with
      controller := c
      download := none
      history := thrown env d ++ s.history } := by
  obtain ⟨tInfo, rest, hb, hid, hlink⟩ := (hi.call d hd).body
  have hreport : ∀ m, report c.client.body = some m → m = tInfo := by
    intro m hr
    rcases report_of_bodyStep hc hr with hold | hnew
    · rw [hb] at hold
      cases hold
    · rw [hb] at hnew
      exact (Option.some.inj hnew).symm
  unfold thrown
  split
  case isTrue hnone =>
    have hfailing : failing env d = true := by simpa [failing, hpc] using hnone
    refine ⟨hi.keys, fun id hrej => hi.failed id ?_, fun m hr _ => ?_,
      hi.sent.cons fun _ hm => (by cases hm), fun _ hd => by cases hd⟩
    · rcases rejecting_iff.mp hrej with hrej | ⟨_, hd, -⟩
      · rcases Bool.or_eq_true_iff.mp hrej with hid | hrej
        · exact rejecting_iff.mpr (.inr ⟨d, hd, of_decide_eq_true hid, hfailing⟩)
        · exact rejecting_iff.mpr (.inl hrej)
      · cases hd
    · obtain rfl := hreport m hr
      exact hst m rest hb (hlink ▸ Option.isNone_iff_eq_none.mp hnone)
  case isFalse =>
    refine ⟨hi.keys, fun id hrej => hi.failed id ?_, fun m hr hrej => ?_, hi.sent,
      fun _ hd => by cases hd⟩
    · rcases rejecting_iff.mp hrej with hrej | ⟨_, hd, -⟩
      · exact rejecting_iff.mpr (.inl hrej)
      · cases hd
    · obtain rfl := hreport m hr
      have hrej : rejected m.id s.history = true := hrej
      rw [← hid, (hi.call d hd).begun] at hrej
      cases hrej

/-- A poll reads what the record says. -/
theorem RejectInv.updateTorrentInfo {asked tInfo : RpcTorrentInfo} {rest : List RpcTorrentInfo}
    {c : ControllerState} (hi : RejectInv env s)
    (hb : s.controller.client.body = .updates (asked :: rest))
    (hid : tInfo.id = (s.generation.infoManager.get asked.id).tId)
    (hst : tInfo.status = convertTorrentStatus (s.generation.infoManager.get asked.id).tStatus)
    (hc : ControllerStep uuid s (.client (.body (.updateTorrentInfo tInfo))) c) :
    RejectInv env { s with controller := c } := by
  refine ⟨hi.keys, hi.failed, fun m hr hrej => ?_, hi.sent,
    fun d hd => absurd hd (hi.no_call hb (fun _ _ h => by cases h) d)⟩
  rcases report_of_bodyStep hc hr with hold | hnew
  · exact hi.reports m hold hrej
  · rw [hb] at hnew
    cases hnew
    rw [hid, hi.keys] at hrej
    exact hst.trans (hi.failed asked.id (rejecting_iff.mpr (.inl hrej)))

/-- A job of a torrent whose error is recorded writes an error. -/
theorem RejectInv.job {j : Job} {list : Std.TreeMap String Torrent.AddTorrentParams}
    {g : Torrent.GenerationState} (hi : RejectInv env s)
    (hg : g.infoManager = j.effect cfg s.generation.infoManager)
    (hc : s.rejecting env j.uuid = true →
      ∀ st ∈ j.pc.writtenStatus, convertTorrentStatus st = .error) :
    RejectInv env { s with
      generation := g
      torrentsIdList := list
      history := entries j ++ s.history } := by
  refine ⟨fun id => ?_, fun id hrej => ?_,
    fun m hr hrej => hi.reports m hr (rejected_of_entries hrej), hi.sent.entries j,
    fun d hd => (hi.call d hd).frame rfl (fun _ => rejected_of_entries) fun id hhas => ?_⟩
  · rw [hg, Job.tId_effect]
    exact hi.keys id
  · have hrej : s.rejecting env id = true :=
      rejecting_iff.mpr ((rejecting_iff.mp hrej).imp_left rejected_of_entries)
    rw [hg]
    rcases Job.tStatus_effect_cases cfg j s.generation.infoManager id with hsame | ⟨rfl, hwritten⟩
    · rw [hsame]
      exact hi.failed id hrej
    · exact hc hrej _ hwritten
  · rw [hg]
    exact Job.has_effect hhas

/-- An alert writes the end of a torrent that `GetIdByName` took for this one, or
an error. -/
theorem RejectInv.handleAlert {f : FoundAlert} (hi : RejectInv env s)
    (hc : f.alert = .torrentFinished → f.id ≠ "" → s.rejecting env f.id = false) :
    RejectInv env { s with
      generation := { s.generation with
        infoManager := f.alert.write env f.torrentName f.id s.generation.infoManager }
      handling := none } := by
  refine ⟨fun id => Torrent.Alert.tId_write.trans (hi.keys id), fun id hrej => ?_, hi.reports,
    hi.sent, fun d hd => (hi.call d hd).frame rfl (fun _ => id)
      fun _ => Torrent.Alert.has_write.mpr⟩
  rcases Torrent.Alert.tStatus_write_cases env f.torrentName f.id f.alert
    s.generation.infoManager id with hsame | herror | ⟨hfin, rfl, hne⟩
  · exact (congrArg convertTorrentStatus hsame).trans (hi.failed id hrej)
  · exact congrArg convertTorrentStatus herror
  · exact absurd hrej (Bool.eq_false_iff.mp (hc hfin hne))

/-- **One step**, where nothing hides the error. -/
theorem RejectInv.step (hi : RejectInv env s) (hc : ReportsErrors env s a)
    (h : Daemons cfg env uuid s a s') : RejectInv env s' := by
  cases h with
  | controller hcb hstep => exact hi.controller hcb hstep
  | reads _ hg =>
    have hm := infoManager_of_nextRead hg
    exact ⟨hm ▸ hi.keys, hm ▸ hi.failed, hi.reports, hi.sent,
      fun d hd => (hi.call d hd).frame rfl (fun _ => id) fun _ => hm ▸ id⟩
  | returns hb hg hstep =>
    have hm := infoManager_of_nextRead hg
    refine ⟨hm ▸ hi.keys, hm ▸ hi.failed, fun m hr hrej => ?_, hi.sent,
      fun d hd => absurd hd (hi.no_call hb (fun _ _ h => by cases h) d)⟩
    rcases report_of_bodyStep hstep hr with hold | hnew
    · exact hi.reports m hold hrej
    · rw [hb] at hnew
      cases hnew
  | downloadAsync hb => exact hi.downloadAsync hb
  | download hd hmoves | addThrew hd hmoves => exact hi.download hd hmoves
  | returned hd _ hstep => exact hi.returned hd hstep
  | threw hd hpc hstep =>
    refine hi.threw hd hpc (fun tInfo rest hb => ?_) hstep
    simpa only [ReportsErrors, hb] using hc
  | updateTorrentInfo hb hid hst hstep => exact hi.updateTorrentInfo hb hid hst hstep
  | job hj hg => exact hi.job (Torrent.infoManager_of_job hj hg) (hc _ hj)
  | alert => exact ⟨hi.keys, hi.failed, hi.reports, hi.sent,
      fun d hd => (hi.call d hd).frame rfl (fun _ => id) fun _ => id⟩
  | handleAlert hf => exact hi.handleAlert (hc _ hf)

/-- **The invariant holds in the runs in which nothing hides an error.** -/
theorem reject_of_reachable
    (h : (daemonMachine cfg env uuid).ReachableUnder (ReportsErrors env) s) : RejectInv env s := by
  refine h.invariant ?_ fun _ _ _ hi hc hs => hi.step hc (daemons_of_step hs)
  rintro _ rfl
  refine ⟨fun _ => rfl, fun _ hrej => ?_, fun _ hr => ?_, fun later m earlier heq => ?_,
    fun _ hd => ?_⟩
  · cases hrej
  · cases hr
  · exact absurd heq.symm (List.append_ne_nil_of_right_ne_nil _ (List.cons_ne_nil _ _))
  · cases hd

/-- **A rejected download is reported as an error** in the runs in which
nothing hides it: until the torrent is downloaded or generated anew every
report of it carries `ERROR`, and no server takes it for generated or
downloaded on such a report. -/
theorem rejected_reports
    (h : (daemonMachine cfg env uuid).ReachableUnder (ReportsErrors env) s)
    (later mid earlier : List Entry) (m : RpcTorrentInfo)
    (hhistory : s.history = later ++ .sent m :: (mid ++ .threw m.id :: earlier))
    (hmid : ∀ e ∈ mid, e ≠ .downloadAsync m.id ∧ e ≠ .createTorrent m.id) :
    m.status = .error ∧ ∀ (dInfo : Client.DaemonInfo) (server : Server.ServerHandler),
      (Server.updateTorrentStatus dInfo m server).torrentDeque = server.torrentDeque ∧
      (Server.updateTorrentStatus dInfo m server).t2DownloadMap = server.t2DownloadMap ∧
      (Server.updateTorrentStatus dInfo m server).t2UpdateMap = server.t2UpdateMap := by
  have hst : m.status = .error :=
    (reject_of_reachable h).sent later m _ hhistory (rejected_append hmid)
  refine ⟨hst, fun dInfo server => ?_⟩
  rw [Server.updateTorrentStatus_eq_addTask (by simp [hst]) (by simp [hst])]
  exact ⟨rfl, rfl, rfl⟩

/-- One torrent to download is received. -/
def receiveDownload (tInfo : RpcTorrentInfo) : List ControllerAction :=
  startAndPoll [.downloadTorrent] ++
    [.client (.body .next), .client (.body .next), .client .work, .client .work, .client .work,
      .client .work, .client .work, .client (.body .next), .client (.body (.torrents [tInfo])),
      .client (.body .next)]

/-- Its link is refused and the exception handled. -/
def rejectOnce (tInfo : RpcTorrentInfo) : List DaemonAction :=
  (receiveDownload tInfo).map .controller ++
    List.replicate 8 (.downloadAsync "") ++
    [.controller (.client (.body .next)), .controller (.client (.body .next)),
      .controller (.client (.body .reported))]

/-- A torrent with a link that is none. -/
def noMagnet (status : RpcStatus) : RpcTorrentInfo := ⟨"t", "magnet:", "", status, 0, ""⟩

/-- A message that says `ERROR` itself is reported as an error. -/
theorem rejectOnce_reports : ∃ s,
    (daemonMachine ⟨"/torrents", "/projects"⟩ Torrent.oneLink "a").ReachableUnder
      (ReportsErrors Torrent.oneLink) s ∧
    s.history = [.sent (noMagnet .error), .threw "t", .downloadAsync "t"] ∧
    (noMagnet .error).status = .error ∧
    ∀ (dInfo : Client.DaemonInfo) (server : Server.ServerHandler),
      (Server.updateTorrentStatus dInfo (noMagnet .error) server).torrentDeque =
        server.torrentDeque ∧
      (Server.updateTorrentStatus dInfo (noMagnet .error) server).t2DownloadMap =
        server.t2DownloadMap ∧
      (Server.updateTorrentStatus dInfo (noMagnet .error) server).t2UpdateMap =
        server.t2UpdateMap := by
  have hrun : (((daemonMachine ⟨"/torrents", "/projects"⟩ Torrent.oneLink "a").restrict
      (ReportsErrors Torrent.oneLink)).exec .new (rejectOnce (noMagnet .error))).map
      DaemonState.history = some [.sent (noMagnet .error), .threw "t", .downloadAsync "t"] := by
    decide
  obtain ⟨s, hs, hhistory⟩ := Option.map_eq_some_iff.mp hrun
  have hreach := System.reachableUnder_of_exec _ rfl hs
  exact ⟨s, hreach, hhistory,
    rejected_reports hreach [] [] [.downloadAsync "t"] (noMagnet .error) hhistory
      fun _ he => absurd he List.not_mem_nil⟩

/-- **A rejected download reported as generated**: the exception is answered
with the server's own message. -/
theorem rejectOnce_generated :
    ¬ ∀ (cfg : Config) (env : Environment) (uuid : String) (s : DaemonState),
      (daemonMachine cfg env uuid).Reachable s → ∀ (later mid earlier : List Entry)
      (m : RpcTorrentInfo), s.history = later ++ .sent m :: (mid ++ .threw m.id :: earlier) →
      (∀ e ∈ mid, e ≠ .downloadAsync m.id ∧ e ≠ .createTorrent m.id) → m.status = .error := by
  intro h
  have hrun : ((daemonMachine ⟨"/torrents", "/projects"⟩ Torrent.oneLink "a").exec .new
      (rejectOnce (noMagnet .generated))).map DaemonState.history =
      some [.sent (noMagnet .generated), .threw "t", .downloadAsync "t"] := by
    decide
  obtain ⟨s, hs, hhistory⟩ := Option.map_eq_some_iff.mp hrun
  have hst := h _ _ _ s (System.reachable_of_exec _ rfl hs) [] [] [.downloadAsync "t"]
    (noMagnet .generated) hhistory fun _ he => absurd he List.not_mem_nil
  cases hst

end Runs

end Controller

end VerAI
