import VerAI.Server.Handler
/-!
# A client and its server

The client of one daemon with the server that answers it. The requests of
its worker come one after another, so each is one step of both: the server
handles it, and the client goes on with the answer. Callbacks are as open as
they are for the client alone.

One `UPDATE_TORRENT_STATUS` task makes the client report every torrent the
server lists, and the server answers a report of an unfinished torrent by a
task of that kind. What comes back for one task is the number of unfinished
torrents among those reported: the tasks are as many as before for one, and
more for two.
-/

namespace VerAI

namespace Server

open Transition (System)
open Client (Body Call ClientAction ClientState ClientTask DaemonInfo Event TaskType WorkerStep
  clientMachine clients_of_step)
open Torrent (RpcTorrentInfo)
open Worker (ThreadAction ThreadInv ThreadState threads_of_step)

/-- The client and the server. `isFirst` is the static variable of
`ServerHandler::Handshake`. -/
structure LoopState where
  client : ClientState
  server : ServerHandler
  isFirst : Bool

/-- A step of the client that needs no answer, or the request its running
task is at. `newUuid` is what `GenerateUUID` gives on the server. -/
inductive LoopAction
  | client (a : ClientAction)
  | rpc (newUuid : String)

/-- The client gets it from the server. -/
def isAnswer : Event → Bool
  | .handshake _ _ => true
  | .tasks _ => true
  | .torrents _ => true
  | .reported => true
  | _ => false

/-- What the server does with a request, and what it answers. -/
def serve (info : DaemonInfo) (newUuid : String) (s : ServerHandler) : Call → Event × ServerHandler
  | .getTaskList =>
    let (taskList, s) := getTaskList info s
    (.tasks taskList, s)
  | .getInfoForGenerateTorrents =>
    let (list, s) := getInfoForGenerateTorrents info newUuid s
    (.torrents list, s)
  | .getTorrentsForDownload =>
    let (list, s) := getTorrentsForDownload info s
    (.torrents list, s)
  | .getTorrentsForUpdateStatus => (.torrents (getTorrentsForUpdateStatus info s), s)
  | .updateTorrentStatus tInfo _ _ => (.reported, updateTorrentStatus info tInfo s)

def loopStep (uuid : String) (s : LoopState) : LoopAction → Option LoopState
  | .client a =>
    match a with
    | .body e =>
      if isAnswer e then none
      else ((clientMachine uuid).step s.client (.body e)).map fun c => { s with client := c }
    | a => ((clientMachine uuid).step s.client a).map fun c => { s with client := c }
  | .rpc newUuid =>
    match s.client.body with
    | .handshake =>
      let (dInfo, server) := handshake uuid s.isFirst s.server
      ((clientMachine uuid).step s.client (.body (.handshake true dInfo))).map fun c =>
        ⟨c, server, false⟩
    | .call c info =>
      let (e, server) := serve info newUuid s.server c
      ((clientMachine uuid).step s.client (.body e)).map fun t => ⟨t, server, s.isFirst⟩
    | _ => none

/-- **The machine of a client and its server.** -/
def loopMachine (uuid : String) : System LoopState LoopAction where
  init s := s = ⟨.new, .new, true⟩
  step := loopStep uuid

/-- The `UPDATE_TORRENT_STATUS` tasks the server has for a daemon. -/
def ServerHandler.polls (daemon : String) (s : ServerHandler) : ℕ :=
  (s.tasks.getD daemon []).count .updateTorrentStatus

/-- **The `UPDATE_TORRENT_STATUS` tasks still to be run** for a daemon: those
the server has, and those in the queue, the batch and the deferred list of
the client. -/
def LoopState.polls (daemon : String) (s : LoopState) : ℕ :=
  s.server.polls daemon + s.client.tasksWorker.waiting.count .updateTorrentTask

/-- A torrent the server asks about again. -/
def unfinished (tInfo : RpcTorrentInfo) : Bool :=
  tInfo.status ≠ .generated ∧ tInfo.status ≠ .downloaded

/-- `UpdateTorrentInfo` of a listed torrent gives an unfinished one. -/
def LoopAction.findsUnfinished : LoopAction → Bool
  | .client (.body (.updateTorrentInfo tInfo)) => unfinished tInfo
  | _ => false

/-- A step of the running task, of the deferred tasks, or a request. -/
def LoopAction.ofWorker : LoopAction → Bool
  | .client (.body _) => true
  | .client .deliver => true
  | .client (.deffered _) => true
  | .rpc _ => true
  | _ => false

/-! ## The server -/

section Handler

variable {daemon : String} {dInfo : DaemonInfo} {tInfo : RpcTorrentInfo} {s : ServerHandler}

theorem polls_addTask (id : String) (taskType : TaskType) :
    (addTask id taskType s).polls daemon =
      s.polls daemon + (decide (id = daemon ∧ taskType = .updateTorrentStatus)).toNat := by
  simp only [ServerHandler.polls, addTask, Std.TreeMap.getD_insert]
  by_cases hid : id = daemon
  · subst hid
    by_cases htype : taskType = .updateTorrentStatus
    · simp [htype]
    · simp [htype]
  · simp [hid]

theorem polls_downloadTorrent (id : String) : (downloadTorrent id s).polls daemon = s.polls daemon
    := by
  unfold downloadTorrent
  split
  · rfl
  · rw [polls_addTask, decide_eq_false (by simp), Bool.toNat_false, Nat.add_zero]
    rfl

/-- **What a report does to the tasks.** -/
theorem polls_updateTorrentStatus : (updateTorrentStatus dInfo tInfo s).polls daemon =
    s.polls daemon + (decide (dInfo.uuid = daemon) && unfinished tInfo).toNat := by
  have hfold : ∀ (ids : List String) (s : ServerHandler), (ids.foldl
      (fun s id => if id ≠ dInfo.uuid then downloadTorrent id s else s) s).polls daemon =
        s.polls daemon := by
    intro ids
    induction ids with
    | nil => exact fun _ => rfl
    | cons id ids ih =>
      intro s
      rw [List.foldl_cons, ih]
      split
      · exact polls_downloadTorrent id
      · rfl
  by_cases hg : tInfo.status = .generated
  · have hnot : unfinished tInfo = false := by simp [unfinished, hg]
    simp only [updateTorrentStatus, hg, hnot, Bool.and_false, Bool.toNat_false, Nat.add_zero]
    split
    · rfl
    · rw [Std.TreeSet.foldl_eq_foldl_toList, hfold]
      rfl
  · by_cases hd : tInfo.status = .downloaded
    · have hnot : unfinished tInfo = false := by simp [unfinished, hd]
      simp only [updateTorrentStatus, hd, hnot, Bool.and_false, Bool.toNat_false, Nat.add_zero]
      rfl
    · rw [updateTorrentStatus_eq_addTask hg hd, polls_addTask]
      simp [unfinished, hg, hd]

end Handler

/-! ## The client -/

section Task

variable {uuid : String} {c c' : ClientState} {a : ClientAction} {e : Event}

/-- A request of `UpdateTorrentTask`. -/
def ofPoll : Call → Bool
  | .getTorrentsForUpdateStatus => true
  | .updateTorrentStatus _ .polled _ => true
  | _ => false

/-- The body is that of `UpdateTorrentTask`, or has returned. -/
def inPoll : Body → Bool
  | .getInfo c => ofPoll c
  | .call c _ => ofPoll c
  | .updates _ => true
  | .returned => true
  | _ => false

/-- A report of an unfinished torrent. -/
def reportsUnfinished : Call → Bool
  | .updateTorrentStatus tInfo _ _ => unfinished tInfo
  | _ => false

/-- Such a report is about to be sent. -/
def unsent : Body → ℕ
  | .getInfo c => (reportsUnfinished c).toNat
  | .call c _ => (reportsUnfinished c).toNat
  | _ => 0

/-- The request is made under the client's own name. -/
def OwnCall (c : ClientState) : Prop :=
  ∀ call info, c.body = .call call info → info = c.clientInfo

/-- **A step of the working thread** that takes no task out: only the last
step of `Stop` drops some. -/
theorem count_of_worker {b : ThreadAction ClientTask} {t : ThreadState ClientTask}
    (hw : ThreadInv c.tasksWorker) (h : WorkerStep c b t) (htake : b.taken t = [])
    (hadd : b.added.count .updateTorrentTask = 0) :
    t.waiting.count .updateTorrentTask ≤ c.tasksWorker.waiting.count .updateTorrentTask ∧
    (b ≠ .control →
      t.waiting.count .updateTorrentTask = c.tasksWorker.waiting.count .updateTorrentTask) := by
  have hsteps := threads_of_step h
  by_cases hs : b = .control ∧ ∃ d, c.tasksWorker.control = .stopClear d
  · obtain ⟨rfl, d, hc⟩ := hs
    exact ⟨(Worker.waiting_stopClear hsteps hc).count_le _, fun hne => absurd rfl hne⟩
  · have hperm := (hsteps.waiting hw fun hb d hc => hs ⟨hb, d, hc⟩).count_eq .updateTorrentTask
    rw [htake, List.nil_append, List.count_append, hadd, Nat.zero_add] at hperm
    exact ⟨hperm.le, fun _ => hperm⟩

/-- **The other threads** leave the body alone, and the tasks but for `Stop`. -/
theorem count_of_clients (hw : ThreadInv c.tasksWorker) (h : Client.Clients uuid c a c')
    (hwork : a ≠ .work) (hbody : ∀ e, a ≠ .body e) :
    c'.body = c.body ∧
    c'.tasksWorker.waiting.count .updateTorrentTask ≤
      c.tasksWorker.waiting.count .updateTorrentTask ∧
    (LoopAction.ofWorker (.client a) = true → c'.clientInfo = c.clientInfo ∧
      c'.tasksWorker.waiting.count .updateTorrentTask =
        c.tasksWorker.waiting.count .updateTorrentTask) := by
  cases h with
  | work => exact absurd rfl hwork
  | body => exact absurd rfl (hbody _)
  | destroy _ ht | runWorker _ ht | stopWorker _ ht =>
    exact ⟨rfl, (count_of_worker hw ht rfl rfl).1, fun h => by cases h⟩
  | control _ ht => exact ⟨rfl, (count_of_worker hw ht rfl rfl).1, fun h => by cases h⟩
  | started _ _ ht => exact ⟨rfl, (count_of_worker hw ht rfl rfl).1, fun h => by cases h⟩
  | deliver ht =>
    obtain ⟨hle, heq⟩ := count_of_worker hw ht rfl rfl
    exact ⟨rfl, hle, fun _ => ⟨rfl, heq (by simp)⟩⟩
  | deffered ha ht =>
    have hadd := Client.added_of_isHandlerStep ha
    obtain ⟨hle, heq⟩ := count_of_worker hw ht rfl (by rw [hadd]; rfl)
    exact ⟨rfl, hle, fun _ => ⟨rfl, heq (by simp)⟩⟩
  | _ => exact ⟨rfl, le_rfl, fun h => by cases h⟩

/-- After an answer the loop over the list begins or goes on. -/
theorem updates_of_answer {call : Call} {body : Body} (hc : ofPoll call = true)
    (h : call.answer e = some body) : isAnswer e = true ∧ ∃ rest, body = .updates rest := by
  unfold Call.answer at h
  split at h
  case h_4 => exact ⟨rfl, _, (Option.some.inj h).symm⟩
  case h_6 => exact ⟨rfl, _, (Option.some.inj h).symm⟩
  case h_7 => cases h
  all_goals cases hc

/-- **A step of the body** of `UpdateTorrentTask`. -/
theorem poll_of_bodies (h : Client.Bodies uuid c e c') (hb : inPoll c.body = true)
    (hc' : c'.body ≠ .crashed) :
    inPoll c'.body = true ∧ c'.tasksWorker = c.tasksWorker ∧ c'.clientInfo = c.clientInfo ∧
    OwnCall c' ∧ (isAnswer e = true → unsent c'.body = 0) ∧
    (isAnswer e = false → unsent c'.body =
      unsent c.body + (LoopAction.findsUnfinished (.client (.body e))).toNat) := by
  cases h with
  | @getInfo call hbody =>
    rw [hbody] at hb ⊢
    exact ⟨hb, rfl, rfl, fun _ _ heq => (Body.call.inj heq).2.symm, (fun h => by cases h),
      fun _ => rfl⟩
  | call hbody _ hans =>
    rw [hbody] at hb
    obtain ⟨hanswer, rest, rfl⟩ := updates_of_answer hb hans
    exact ⟨rfl, rfl, rfl, (fun _ _ heq => by cases heq), fun _ => rfl,
      fun hno => absurd (hanswer.symm.trans hno) (by decide)⟩
  | update hbody =>
    rw [hbody]
    exact ⟨rfl, rfl, rfl, (fun _ _ heq => by cases heq), (fun h => by cases h),
      fun _ => (Nat.zero_add _).symm⟩
  | updated hbody =>
    rw [hbody]
    exact ⟨rfl, rfl, rfl, (fun _ _ heq => by cases heq), fun _ => rfl, fun _ => rfl⟩
  | crash => exact absurd rfl hc'
  | accepted hbody | refused hbody | handshakeFailed hbody | accept hbody | runs hbody
  | stopped hbody | addTask hbody | tasksAdded hbody | generate hbody | generated hbody
  | created hbody | download hbody | downloaded hbody | downloadAsync hbody | throws hbody
  | rejected hbody =>
    rw [hbody] at hb
    cases hb

end Task

/-! ## Both -/

section Loop

variable {uuid : String} {s s' t : LoopState} {a : LoopAction} {as : List LoopAction}

/-- **What some steps of the loop do** while `UpdateTorrentTask` runs: of the
unfinished torrents found, each is one more task, for the daemon whose name
the client has, unless another thread steps in. -/
structure Polls (s s' : LoopState) (found : ℕ) (undisturbed : Prop) : Prop where
  inPoll : inPoll s'.client.body = true
  le : ∀ daemon, s'.polls daemon + unsent s'.client.body ≤
    s.polls daemon + unsent s.client.body + found
  exact : undisturbed → OwnCall s.client →
    OwnCall s'.client ∧ s'.client.clientInfo = s.client.clientInfo ∧
      s'.polls s.client.clientInfo.uuid + unsent s'.client.body =
        s.polls s.client.clientInfo.uuid + unsent s.client.body + found

theorem Polls.refl (h : Server.inPoll s.client.body = true) : Polls s s 0 True :=
  ⟨h, fun _ => le_rfl, fun _ ho => ⟨ho, rfl, rfl⟩⟩

theorem Polls.trans {n m : ℕ} {p q : Prop} (h : Polls s s' n p) (h' : Polls s' t m q) :
    Polls s t (n + m) (p ∧ q) where
  inPoll := h'.inPoll
  le daemon := by
    have := h.le daemon
    have := h'.le daemon
    omega
  exact hpq ho := by
    obtain ⟨ho', hinfo, heq⟩ := h.exact hpq.1 ho
    obtain ⟨ho'', hinfo', heq'⟩ := h'.exact hpq.2 ho'
    rw [hinfo] at heq'
    exact ⟨ho'', hinfo'.trans hinfo, by omega⟩

/-- A step of the loop is one of the client. -/
theorem client_of_step (h : (loopMachine uuid).step s a = some s') :
    ∃ b, (clientMachine uuid).step s.client b = some s'.client := by
  cases a with
  | client b =>
    cases b with
    | body e =>
      obtain ⟨-, h⟩ := Option.ite_none_left_eq_some.mp h
      obtain ⟨c, hc, rfl⟩ := Option.map_eq_some_iff.mp h
      exact ⟨_, hc⟩
    | _ =>
      obtain ⟨c, hc, rfl⟩ := Option.map_eq_some_iff.mp h
      exact ⟨_, hc⟩
  | rpc newUuid =>
    simp only [loopMachine, loopStep] at h
    split at h
    case h_1 =>
      obtain ⟨c, hc, rfl⟩ := Option.map_eq_some_iff.mp h
      exact ⟨_, hc⟩
    case h_2 =>
      obtain ⟨c, hc, rfl⟩ := Option.map_eq_some_iff.mp h
      exact ⟨_, hc⟩
    case h_3 => cases h

theorem polls_serve {call : Call} (info : DaemonInfo) (newUuid : String) (server : ServerHandler)
    (daemon : String) (hcall : ofPoll call = true) :
    (serve info newUuid server call).2.polls daemon = server.polls daemon +
      (decide (info.uuid = daemon) && reportsUnfinished call).toNat := by
  cases call with
  | getTorrentsForUpdateStatus =>
    have hnone : reportsUnfinished .getTorrentsForUpdateStatus = false := rfl
    rw [hnone, Bool.and_false, Bool.toNat_false, Nat.add_zero]
    rfl
  | updateTorrentStatus => exact polls_updateTorrentStatus
  | _ => cases hcall

/-- **A request of `UpdateTorrentTask`** turns the report into a task. -/
theorem polls_of_serve {call : Call} {info : DaemonInfo} {newUuid : String} {c : ClientState}
    (hb : s.client.body = .call call info) (hcall : ofPoll call = true)
    (hc : (clientMachine uuid).step s.client
      (.body (serve info newUuid s.server call).1) = some c)
    (hne : c.body ≠ .crashed) :
    Polls s ⟨c, (serve info newUuid s.server call).2, s.isFirst⟩ 0 True := by
  have hanswer : isAnswer (serve info newUuid s.server call).1 = true := by
    cases call with
    | getTorrentsForUpdateStatus | updateTorrentStatus => rfl
    | _ => cases hcall
  cases clients_of_step hc with
  | body hbody =>
    have hin : inPoll s.client.body = true := by rw [hb]; exact hcall
    obtain ⟨hin', hworker, hinfo, hown, hsent, -⟩ := poll_of_bodies hbody hin hne
    have hunsent : unsent s.client.body = (reportsUnfinished call).toNat := by rw [hb]; rfl
    have hpolls : ∀ daemon, LoopState.polls daemon
        ⟨c, (serve info newUuid s.server call).2, s.isFirst⟩ = s.polls daemon +
          (decide (info.uuid = daemon) && reportsUnfinished call).toNat := by
      intro daemon
      rw [LoopState.polls, LoopState.polls, polls_serve info newUuid s.server daemon hcall, hworker]
      omega
    refine ⟨hin', fun daemon => ?_, fun _ ho => ⟨hown, hinfo, ?_⟩⟩
    · rw [hpolls, hsent hanswer, hunsent]
      have : (decide (info.uuid = daemon) && reportsUnfinished call).toNat ≤
          (reportsUnfinished call).toNat := by
        cases decide (info.uuid = daemon) <;> simp
      show _ + _ ≤ _
      omega
    · rw [hpolls, hsent hanswer, hunsent, ho call info hb, decide_eq_true rfl, Bool.true_and]

/-- **One step** while `UpdateTorrentTask` runs. -/
theorem polls_of_step (hw : ThreadInv s.client.tasksWorker)
    (h : (loopMachine uuid).step s a = some s') (ha : a ≠ .client .work)
    (hb : inPoll s.client.body = true) (hne : s'.client.body ≠ .crashed) :
    Polls s s' a.findsUnfinished.toNat (a.ofWorker = true) := by
  cases a with
  | client b =>
    by_cases hbody : ∃ e, b = .body e
    · obtain ⟨e, rfl⟩ := hbody
      obtain ⟨hanswer, h⟩ := Option.ite_none_left_eq_some.mp h
      obtain ⟨c, hc, rfl⟩ := Option.map_eq_some_iff.mp h
      cases clients_of_step hc with
      | body hsteps =>
        obtain ⟨hin, hworker, hinfo, hown, -, hsent⟩ := poll_of_bodies hsteps hb hne
        have hcount := hsent (Bool.eq_false_iff.mpr hanswer)
        refine ⟨hin, fun daemon => ?_, fun _ _ => ⟨hown, hinfo, ?_⟩⟩
        · simp only [LoopState.polls, hworker, hcount]
          omega
        · simp only [LoopState.polls, hworker, hcount]
          omega
    · have hstep : ((clientMachine uuid).step s.client b).map (fun c => { s with client := c }) =
          some s' := by
        cases b with
        | body e => exact absurd ⟨e, rfl⟩ hbody
        | _ => exact h
      obtain ⟨c, hc, rfl⟩ := Option.map_eq_some_iff.mp hstep
      obtain ⟨hsame, hle, heq⟩ := count_of_clients hw (clients_of_step hc)
        (fun hb => ha (congrArg _ hb)) fun e he => hbody ⟨e, he⟩
      have hnone : (LoopAction.client b).findsUnfinished = false := by
        cases b with
        | body e => exact absurd ⟨e, rfl⟩ hbody
        | _ => rfl
      rw [hnone]
      refine ⟨by rw [hsame]; exact hb, fun daemon => ?_, fun hq ho => ?_⟩
      · simp only [LoopState.polls, hsame]
        simp only [Bool.toNat_false]
        omega
      · obtain ⟨hinfo, hcount⟩ := heq hq
        refine ⟨fun call info hcall => ?_, hinfo, ?_⟩
        · rw [hinfo]
          exact ho call info (hsame ▸ hcall)
        · simp only [LoopState.polls, hsame, hcount]
          rfl
  | rpc newUuid =>
    simp only [loopMachine, loopStep] at h
    split at h
    case h_1 hbody =>
      rw [hbody] at hb
      cases hb
    case h_2 call info hbody =>
      obtain ⟨c, hc, rfl⟩ := Option.map_eq_some_iff.mp h
      have hcall : ofPoll call = true := by rw [hbody] at hb; exact hb
      obtain ⟨hin, hle, hexact⟩ := polls_of_serve hbody hcall hc hne
      exact ⟨hin, hle, fun _ => hexact trivial⟩
    case h_3 => cases h

/-- A process that has ended stays as it is. -/
theorem eq_of_crashed (hb : s.client.body = .crashed)
    (h : (loopMachine uuid).exec s as = some s') : s' = s := by
  cases as with
  | nil => exact (Option.some.inj h).symm
  | cons a as =>
    obtain ⟨t, ht, -⟩ := Option.bind_eq_some_iff.mp h
    obtain ⟨b, hstep⟩ := client_of_step ht
    obtain ⟨halive, -⟩ := Option.ite_none_right_eq_some.mp hstep
    simp [ClientState.alive, hb] at halive

/-- **The steps while `UpdateTorrentTask` runs.** -/
theorem polls_of_exec (hr : (clientMachine uuid).Reachable s.client)
    (h : (loopMachine uuid).exec s as = some s') (has : ∀ a ∈ as, a ≠ .client .work)
    (hb : inPoll s.client.body = true) (hne : s'.client.body ≠ .crashed) :
    Polls s s' (as.countP LoopAction.findsUnfinished) (∀ a ∈ as, a.ofWorker = true) := by
  induction as generalizing s with
  | nil =>
    obtain rfl := Option.some.inj h
    obtain ⟨hin, hle, hexact⟩ := Polls.refl hb
    exact ⟨hin, hle, fun _ => hexact trivial⟩
  | cons a as ih =>
    obtain ⟨t, ht, hrest⟩ := Option.bind_eq_some_iff.mp h
    have hnet : t.client.body ≠ .crashed := fun hc => hne (eq_of_crashed hc hrest ▸ hc)
    obtain ⟨b, hclient⟩ := client_of_step ht
    have hw := Worker.threadInv_of_reachable (Client.worker_of_reachable hr)
    have hone := polls_of_step hw ht (has a (List.mem_cons_self ..)) hb hnet
    have hmore := ih (hr.next hclient) hrest (fun a ha => has a (List.mem_cons_of_mem _ ha))
      hone.inPoll
    obtain ⟨hin, hle, hexact⟩ := hone.trans hmore
    have hsum : a.findsUnfinished.toNat + as.countP LoopAction.findsUnfinished =
        (a :: as).countP LoopAction.findsUnfinished := by
      rw [List.countP_cons]
      cases a.findsUnfinished <;> simp [Nat.add_comm]
    rw [hsum] at hle hexact
    exact ⟨hin, hle, fun hall => hexact (List.forall_mem_cons.mp hall)⟩

/-- The task that `Work` starts is one fewer. -/
theorem polls_of_work (hw : ThreadInv s.client.tasksWorker)
    (h : (loopMachine uuid).step s (.client .work) = some s')
    (hb : s'.client.body = ClientTask.updateTorrentTask.entry) (daemon : String) :
    s'.polls daemon + 1 = s.polls daemon ∧ s'.client.clientInfo = s.client.clientInfo := by
  obtain ⟨c, hc, rfl⟩ := Option.map_eq_some_iff.mp h
  cases clients_of_step hc with
  | @work t _ ht =>
    obtain ⟨-, hnone⟩ | ⟨task, hone, hentry⟩ := Client.running_cases t
    · exact absurd (hb.symm.trans hnone) (by simp [ClientTask.entry])
    · have htask : task = .updateTorrentTask := by
        have := hb.symm.trans hentry
        cases task <;> simp_all [ClientTask.entry]
      have hperm := (Client.waiting_work hw ht).count_eq .updateTorrentTask
      rw [hone, htask, List.count_append, List.count_singleton_self] at hperm
      refine ⟨?_, rfl⟩
      simp only [LoopState.polls, ← hperm]
      omega

end Loop

/-! ## Every round -/

/-- **When status polling does not multiply.** A client takes an
`UPDATE_TORRENT_STATUS` task and its body runs to the end, whatever the state
of the server. Where at most one of the listed torrents is found unfinished,
no daemon has more such tasks than before; where it is found of two, and no
other thread steps in, the client's daemon has more. -/
theorem polls_le_iff {uuid : String} {s started s' : LoopState} {as : List LoopAction}
    (hr : (clientMachine uuid).Reachable s.client)
    (hwork : (loopMachine uuid).step s (.client .work) = some started)
    (hentry : started.client.body = ClientTask.updateTorrentTask.entry)
    (hexec : (loopMachine uuid).exec started as = some s')
    (has : ∀ a ∈ as, a ≠ .client .work) (hend : s'.client.body = .returned) :
    (as.countP LoopAction.findsUnfinished ≤ 1 → ∀ daemon, s'.polls daemon ≤ s.polls daemon) ∧
    ((∀ a ∈ as, a.ofWorker = true) →
      (s'.polls s.client.clientInfo.uuid ≤ s.polls s.client.clientInfo.uuid ↔
        as.countP LoopAction.findsUnfinished ≤ 1)) := by
  have hw := Worker.threadInv_of_reachable (Client.worker_of_reachable hr)
  obtain ⟨b, hstarted⟩ := client_of_step hwork
  have htaken := polls_of_work hw hwork hentry
  have hin : inPoll started.client.body = true := by rw [hentry]; rfl
  have hunsent : unsent started.client.body = 0 := by rw [hentry]; rfl
  have hsent : unsent s'.client.body = 0 := by rw [hend]; rfl
  have hpolls := polls_of_exec (hr.next hstarted) hexec has hin (by simp [hend])
  refine ⟨fun hone daemon => ?_, fun hquiet => ?_⟩
  · have := hpolls.le daemon
    have := (htaken daemon).1
    omega
  · have hown : OwnCall started.client := fun call info hcall => by
      rw [hentry] at hcall
      cases hcall
    obtain ⟨-, -, hexact⟩ := hpolls.exact hquiet hown
    obtain ⟨htask, hinfo⟩ := htaken s.client.clientInfo.uuid
    rw [hinfo] at hexact
    omega

/-- A client about to take an `UPDATE_TORRENT_STATUS` task it was sent. -/
def upToTask : List ClientAction :=
  Client.pollOnce [.updateTorrentStatus] ++
    [.body .next, .body .next, .work, .work, .work, .work]

/-- A torrent still being downloaded. -/
def pendingTorrent (id : String) : RpcTorrentInfo := ⟨id, "", "", .downloading, 0, ""⟩

/-- A server that lists these torrents for the daemon `a`. -/
def listing (list : List RpcTorrentInfo) : ServerHandler :=
  { ServerHandler.new with t2UpdateMap := Std.TreeMap.insert ∅ "a" list }

/-- The list is read, and each of its torrents reported. -/
def pollRound (list : List RpcTorrentInfo) : List LoopAction :=
  [.client (.body .next), .rpc ""] ++
    list.flatMap (fun tInfo =>
      [.client (.body (.updateTorrentInfo tInfo)), .client (.body .next), .rpc ""]) ++
    [.client (.body .next)]

/-- The body entered, the tasks before and after the task, and the body left,
of a round with these torrents. -/
def roundOf (list : List RpcTorrentInfo) : Option (String × Body × ℕ × ℕ × Body) :=
  ((clientMachine "a").exec .new upToTask).bind fun c =>
    let s : LoopState := ⟨c, listing list, false⟩
    ((loopMachine "a").step s (.client .work)).bind fun started =>
      ((loopMachine "a").exec started (pollRound list)).map fun s' =>
        (c.clientInfo.uuid, started.client.body, s.polls "a", s'.polls "a", s'.client.body)

theorem roundOf_eq_some {list : List RpcTorrentInfo} {r : String × Body × ℕ × ℕ × Body}
    (h : roundOf list = some r) : ∃ s started s' : LoopState,
      (clientMachine "a").Reachable s.client ∧
      (loopMachine "a").step s (.client .work) = some started ∧
      (loopMachine "a").exec started (pollRound list) = some s' ∧
      r = (s.client.clientInfo.uuid, started.client.body, s.polls "a", s'.polls "a",
        s'.client.body) := by
  obtain ⟨c, hc, h⟩ := Option.bind_eq_some_iff.mp h
  obtain ⟨started, hstarted, h⟩ := Option.bind_eq_some_iff.mp h
  obtain ⟨s', hs', rfl⟩ := Option.map_eq_some_iff.mp h
  exact ⟨_, started, s', System.reachable_of_exec _ rfl hc, hstarted, hs', rfl⟩

/-- One torrent, one task for one. -/
theorem pollRound_one : ∃ s s' : LoopState, s.polls "a" = 1 ∧ s'.polls "a" = 1 ∧
    s'.polls s.client.clientInfo.uuid ≤ s.polls s.client.clientInfo.uuid := by
  have hrun : roundOf [pendingTorrent "x"] =
      some ("a", .getInfo .getTorrentsForUpdateStatus, 1, 1, .returned) := by decide
  obtain ⟨s, started, s', hr, hwork, hexec, heq⟩ := roundOf_eq_some hrun
  simp only [Prod.mk.injEq] at heq
  obtain ⟨-, hentry, hbefore, hafter, hend⟩ := heq
  have hquiet : ∀ a ∈ pollRound [pendingTorrent "x"], a ≠ .client .work ∧ a.ofWorker = true := by
    simp [pollRound, LoopAction.ofWorker]
  have hiff := (polls_le_iff hr hwork hentry.symm hexec (fun a ha => (hquiet a ha).1)
    hend.symm).2 fun a ha => (hquiet a ha).2
  exact ⟨s, s', hbefore.symm, hafter.symm, hiff.mpr (by decide)⟩

/-- **Two torrents, two tasks for one.** -/
theorem pollRound_two : ¬ ∀ (uuid : String) (s started s' : LoopState) (as : List LoopAction),
    (clientMachine uuid).Reachable s.client →
    (loopMachine uuid).step s (.client .work) = some started →
    started.client.body = ClientTask.updateTorrentTask.entry →
    (loopMachine uuid).exec started as = some s' → s'.client.body = .returned →
    (∀ a ∈ as, a ≠ .client .work) →
    s'.polls s.client.clientInfo.uuid ≤ s.polls s.client.clientInfo.uuid := by
  intro h
  have hrun : roundOf [pendingTorrent "x", pendingTorrent "y"] =
      some ("a", .getInfo .getTorrentsForUpdateStatus, 1, 2, .returned) := by decide
  obtain ⟨s, started, s', hr, hwork, hexec, heq⟩ := roundOf_eq_some hrun
  simp only [Prod.mk.injEq] at heq
  obtain ⟨hid, hentry, hbefore, hafter, hend⟩ := heq
  have hle := h "a" s started s' _ hr hwork hentry.symm hexec hend.symm (by simp [pollRound])
  rw [← hid, ← hbefore, ← hafter] at hle
  exact absurd hle (by decide)

end Server

end VerAI
