import VerAI.Worker.Tasks
import VerAI.Torrent.Info
/-!
# The client of the daemon

`GRPCClient` runs its tasks on one working thread. A task is a member
function wrapped by `CreateTask`; while `Work` stands in its `Run()`, the
client stands somewhere in the body of that function, and `Work` goes on when
the body has returned. `Start`, `Stop` and the destructor are called by one
controlling thread. `mtxTask` is held through `Start` and `Stop`; the other
sections under it are one step each, which waits while they hold it.

What the server answers is open: any result of a handshake, any list read
from a stream, with or without an error at its end. So is what the callbacks
do. A call is one step together with its answer, since its thread waits in
between. A call through a null `stub` ends the process.
-/

namespace VerAI

namespace Client

open Transition (System)
open Worker (ThreadState ThreadAction ThreadInv threadMachine threads_of_step)
open Torrent (RpcTorrentInfo)

/-- `DaemonRPC::Task::TaskType`, with the values the enumeration has no name
for. -/
inductive TaskType
  | generateMagent
  | downloadTorrent
  | updateTorrentStatus
  | updateTaskList
  | makeHandshake
  | unrecognized (value : ℤ)
  deriving DecidableEq, Repr

/-- `DaemonRPC::DaemonInfo::Status` -/
inductive AuthStatus
  | failed
  | ok
  | unrecognized (value : ℤ)
  deriving DecidableEq, Repr

/-- `DaemonRPC::DaemonInfo` -/
structure DaemonInfo where
  uuid : String := ""
  authTocken : String := ""
  authStatus : AuthStatus := .failed
  deriving DecidableEq, Repr

/-- The member functions run as tasks. -/
inductive ClientTask
  | downloadTorrentTask
  | createTorrentTask
  | updateTorrentTask
  | handshakeTask
  | updateTasksTask
  deriving DecidableEq, Repr

/-- `GRPCClient::CreateTask` -/
def createTask : TaskType → Option ClientTask
  | .downloadTorrent => some .downloadTorrentTask
  | .generateMagent => some .createTorrentTask
  | .updateTorrentStatus => some .updateTorrentTask
  | .makeHandshake => some .handshakeTask
  | .updateTaskList => some .updateTasksTask
  | .unrecognized _ => none

/-- The requests that carry the client's `DaemonInfo`. -/
inductive Rpc
  | getTaskList
  | getInfoForGenerateTorrents
  | getTorrentsForDownload
  | getTorrentsForUpdateStatus
  | updateTorrentStatus (tInfo : RpcTorrentInfo)
  deriving DecidableEq, Repr

/-- Who called `UpdateTorrentStatus`: the handler of the exception of
`DownloadAsync`, or the loop of `UpdateTorrentTask`. -/
inductive Reporter
  | rejected
  | polled
  deriving DecidableEq, Repr

/-- A request being made, with what its loop has left. -/
inductive Call
  | getTaskList
  | getInfoForGenerateTorrents
  | getTorrentsForDownload
  | getTorrentsForUpdateStatus
  | updateTorrentStatus (tInfo : RpcTorrentInfo) (reporter : Reporter) (rest : List RpcTorrentInfo)
  deriving DecidableEq, Repr

def Call.rpc : Call → Rpc
  | .getTaskList => .getTaskList
  | .getInfoForGenerateTorrents => .getInfoForGenerateTorrents
  | .getTorrentsForDownload => .getTorrentsForDownload
  | .getTorrentsForUpdateStatus => .getTorrentsForUpdateStatus
  | .updateTorrentStatus tInfo _ _ => .updateTorrentStatus tInfo

/-- Where the body of the running task stands. -/
inductive Body
  /-- No task runs. -/
  | idle
  /-- At the call of `Handshake`. -/
  | handshake
  | handshakeFailed
  | accept (dInfo : DaemonInfo)
  /-- At `if(IsRun())` of `UpdateTasksTask`. -/
  | testRun
  /-- At `GetClientInfo()`. -/
  | getInfo (c : Call)
  | call (c : Call) (info : DaemonInfo)
  /-- In the loop over the task list. -/
  | addTasks (taskList : List TaskType)
  /-- In the loop of the callback `GenerateTorrent`. -/
  | generates (tInfoList : List RpcTorrentInfo)
  /-- In `GenerateTorrent` of one torrent. -/
  | generating (tInfo : RpcTorrentInfo) (rest : List RpcTorrentInfo)
  /-- In the loop of the callback `DownloadTorrent`. -/
  | downloads (torrents : List RpcTorrentInfo)
  /-- In `DownloadAsync`. -/
  | downloading (tInfo : RpcTorrentInfo) (rest : List RpcTorrentInfo)
  /-- In the handler of its exception. -/
  | rejected (tInfo : RpcTorrentInfo) (rest : List RpcTorrentInfo)
  /-- In the loop of `UpdateTorrentTask`. -/
  | updates (torrentList : List RpcTorrentInfo)
  | returned
  /-- A null `stub` was used. -/
  | crashed
  deriving DecidableEq, Repr

/-- Where a task starts. -/
def ClientTask.entry : ClientTask → Body
  | .downloadTorrentTask => .getInfo .getTorrentsForDownload
  | .createTorrentTask => .getInfo .getInfoForGenerateTorrents
  | .updateTorrentTask => .getInfo .getTorrentsForUpdateStatus
  | .handshakeTask => .handshake
  | .updateTasksTask => .testRun

/-- No task is in the middle of its body. -/
def Body.resting : Body → Bool
  | idle => true
  | returned => true
  | _ => false

/-- What a step of a body gets from outside: the answer of the server, what a
callback did, or nothing. -/
inductive Event
  | next
  | handshake (ok : Bool) (dInfo : DaemonInfo)
  | tasks (taskList : List TaskType)
  | torrents (torrentList : List RpcTorrentInfo)
  | reported
  | downloadAsync (throws : Bool)
  | updateTorrentInfo (tInfo : RpcTorrentInfo)
  deriving DecidableEq, Repr

/-- A message sent to the server; a handshake with its answer. -/
inductive Message
  | handshake (uuid : String) (ok : Bool) (dInfo : DaemonInfo)
  | request (rpc : Rpc) (info : DaemonInfo)
  deriving DecidableEq, Repr

/-- Where the controlling thread stands. -/
inductive ClientPc
  | idle
  /-- In `Start`, before `tasksWorker.Run()`. -/
  | runWorker
  | running
  /-- In `Stop`, before `tasksWorker.Stop()`. -/
  | stopWorker
  | stopping
  /-- In the destructor. -/
  | destroying
  deriving DecidableEq, Repr

/-- `GRPCClient`, with the place of the task it runs. `stub` says whether the
pointer is set. No variables of the code are `log`, the messages with the
latest first, `armed`, set when `Start` has added its task, `received`, the
tasks of task lists that keep the client polling, and `stopBegun`. -/
structure ClientState where
  tasksWorker : ThreadState ClientTask
  pc : ClientPc
  isRun : Bool
  stub : Bool
  clientInfo : DaemonInfo
  updateTimeSec : ℤ
  body : Body
  log : List Message
  armed : Bool
  received : ℕ
  stopBegun : Bool
  deriving DecidableEq, Repr

/-- A call or the next step of the controlling thread, a step of the worker,
of the deferred tasks or of the body of the running task. -/
inductive ClientAction
  | setUpdateTaskListTime (sec : ℤ)
  | start
  | stop
  | destroy
  | control
  | work
  | deliver
  | deffered (a : Worker.DefferedAction (Option ClientTask))
  | body (e : Event)

/-- The task that runs keeps the client polling, now or after its next step. -/
def ClientTask.keepAlive : ClientTask → Bool
  | .handshakeTask => true
  | .updateTasksTask => true
  | _ => false

/-- The same of a task of a list. -/
def TaskType.keepAlive (taskType : TaskType) : Bool := (createTask taskType).any (·.keepAlive)

/-- The body after an answer. -/
def Call.answer (c : Call) (e : Event) : Option Body :=
  match c, e with
  | .getTaskList, .tasks taskList => some (.addTasks taskList)
  | .getInfoForGenerateTorrents, .torrents list => some (.generates list)
  | .getTorrentsForDownload, .torrents list => some (.downloads list)
  | .getTorrentsForUpdateStatus, .torrents list => some (.updates list)
  | .updateTorrentStatus _ .rejected rest, .reported => some (.downloads rest)
  | .updateTorrentStatus _ .polled rest, .reported => some (.updates rest)
  | _, _ => none

namespace ClientState

/-- `GRPCClient::GRPCClient` -/
def new : ClientState where
  tasksWorker := .new
  pc := .idle
  isRun := false
  stub := false
  clientInfo := {}
  updateTimeSec := 30
  body := .idle
  log := []
  armed := false
  received := 0
  stopBegun := false

/-- `mtxTask` is held by the controlling thread. -/
def locked (s : ClientState) : Bool :=
  s.pc = .runWorker ∨ s.pc = .running ∨ s.pc = .stopWorker ∨ s.pc = .stopping

/-- A step of the working thread. -/
def onWorker (s : ClientState) (a : ThreadAction ClientTask) : Option ClientState :=
  ((threadMachine ClientTask).step s.tasksWorker a).map fun t => { s with tasksWorker := t }

/-- `GRPCClient::AddTask` -/
def addTask (s : ClientState) (taskType : TaskType) : Option ClientState :=
  s.onWorker (.main (.enqueueTask (createTask taskType)))

/-- `GRPCClient::AddTaskAfterTimeOut` -/
def addTaskAfterTimeOut (s : ClientState) (taskType : TaskType) (ms : BitVec 32) :
    Option ClientState :=
  s.onWorker (.deffered (.enqueueTaskAfterTimeOut (createTask taskType) ms))

/-- `updateTimeSec.count() * 1000`, as the `unsigned int` of the call. -/
def updateMs (s : ClientState) : BitVec 32 := BitVec.ofInt 32 (s.updateTimeSec * 1000)

def goto (s : ClientState) (body : Body) : ClientState := { s with body := body }

/-- A section under `mtxTask`. -/
def whenUnlocked (s : ClientState) (s' : Option ClientState) : Option ClientState :=
  if s.locked then none else s'

/-- The next step of the body of the running task. -/
def bodyStep (uuid : String) (s : ClientState) (e : Event) : Option ClientState :=
  match s.body, e with
  | .handshake, .handshake ok dInfo =>
    if s.stub then
      some { s with
        body := if ok ∧ dInfo.authStatus = .ok then .accept dInfo else .handshakeFailed
        log := .handshake uuid ok dInfo :: s.log }
    else none
  | .handshake, .next => if s.stub then none else some (s.goto .crashed)
  | .handshakeFailed, .next =>
    (s.addTaskAfterTimeOut .makeHandshake s.updateMs).map (·.goto .returned)
  | .accept dInfo, .next =>
    s.whenUnlocked ((addTask { s with clientInfo := dInfo } .updateTaskList).map (·.goto .returned))
  | .testRun, .next =>
    s.whenUnlocked (some (s.goto (if s.isRun then .getInfo .getTaskList else .returned)))
  | .getInfo c, .next => s.whenUnlocked (some (s.goto (.call c s.clientInfo)))
  | .call c info, e =>
    if s.stub then
      (c.answer e).map fun body => { s with body := body, log := .request c.rpc info :: s.log }
    else if e = .next then some (s.goto .crashed)
    else none
  | .addTasks (taskType :: rest), .next =>
    (s.addTask taskType).map fun t =>
      { t with body := .addTasks rest, received := s.received + taskType.keepAlive.toNat }
  | .addTasks [], .next =>
    (s.addTaskAfterTimeOut .updateTaskList s.updateMs).map (·.goto .returned)
  | .generates (tInfo :: rest), .next => some (s.goto (.generating tInfo rest))
  | .generates [], .next => (s.addTaskAfterTimeOut .updateTorrentStatus 30).map (·.goto .returned)
  | .generating _ rest, .next => some (s.goto (.generates rest))
  | .downloads (tInfo :: rest), .next => some (s.goto (.downloading tInfo rest))
  | .downloads [], .next => (s.addTask .updateTorrentStatus).map (·.goto .returned)
  | .downloading tInfo rest, .downloadAsync throws =>
    some (s.goto (if throws then .rejected tInfo rest else .downloads rest))
  | .rejected tInfo rest, .next =>
    some (s.goto (.getInfo (.updateTorrentStatus tInfo .rejected rest)))
  | .updates (_ :: rest), .updateTorrentInfo tInfo =>
    some (s.goto (.getInfo (.updateTorrentStatus tInfo .polled rest)))
  | .updates [], .next => some (s.goto .returned)
  | _, _ => none

/-- The next step of the controlling thread. -/
def controlStep (s : ClientState) : Option ClientState :=
  match s.pc with
  | .idle => none
  | .runWorker => (s.onWorker .run).map fun t => { t with pc := .running }
  | .running =>
    if s.tasksWorker.control = .idle then
      (addTask { s with isRun := true } .makeHandshake).map fun t =>
        { t with pc := .idle, armed := true }
    else s.onWorker .control
  | .stopWorker => (s.onWorker .stop).map fun t => { t with pc := .stopping }
  | .stopping =>
    if s.tasksWorker.control = .idle then
      some { s with stub := false, clientInfo := {}, pc := .idle }
    else s.onWorker .control
  | .destroying => s.onWorker .control

/-- The process still runs. -/
def alive (s : ClientState) : Bool := s.body ≠ .crashed ∧ s.tasksWorker.control ≠ .terminated

/-- The body of the task `Work` stands in. -/
def entered (t : ThreadState ClientTask) : Body :=
  match t.running with
  | [] => .idle
  | task :: _ => task.entry

end ClientState

/-- The steps of the deferred tasks that are no call. -/
def isHandlerStep : Worker.DefferedAction (Option ClientTask) → Bool
  | .tick _ => true
  | .lock => true
  | .whileRunning => true
  | .wake _ => true
  | _ => false

/-- A step of a process that still runs. -/
def clientStep (uuid : String) (s : ClientState) : ClientAction → Option ClientState
  | .setUpdateTaskListTime sec => some { s with updateTimeSec := sec }
  | .start =>
    if s.pc = .idle then
      some (if s.isRun then s else { s with stub := true, pc := .runWorker })
    else none
  | .stop =>
    if s.pc = .idle then
      some (if s.isRun then { s with isRun := false, stopBegun := true, pc := .stopWorker } else s)
    else none
  | .destroy =>
    if s.pc = .idle then (s.onWorker .destroy).map fun t => { t with pc := .destroying } else none
  | .control => s.controlStep
  | .work =>
    if s.body.resting then
      (s.onWorker (.main .work)).map fun t => t.goto (ClientState.entered t.tasksWorker)
    else none
  | .deliver => s.onWorker .deliver
  | .deffered a => if isHandlerStep a then s.onWorker (.deffered a) else none
  | .body e => s.bodyStep uuid e

/-- **The machine of the client** of one uuid. -/
def clientMachine (uuid : String) : System ClientState ClientAction where
  init s := s = .new
  step s a := if s.alive then clientStep uuid s a else none

/-! ## The steps -/

section Steps

variable {uuid : String} {s s' : ClientState} {a : ClientAction} {e : Event}

/-- The working thread takes a step. -/
abbrev WorkerStep (s : ClientState) (a : ThreadAction ClientTask) (t : ThreadState ClientTask) :
    Prop :=
  (threadMachine ClientTask).step s.tasksWorker a = some t

/-- The steps of a body one by one, each with what it found. -/
inductive Bodies (uuid : String) (s : ClientState) : Event → ClientState → Prop
  | accepted {dInfo : DaemonInfo} : s.body = .handshake → s.stub = true → dInfo.authStatus = .ok →
      Bodies uuid s (.handshake true dInfo)
        { s with body := .accept dInfo, log := .handshake uuid true dInfo :: s.log }
  | refused {ok : Bool} {dInfo : DaemonInfo} : s.body = .handshake → s.stub = true →
      ¬ (ok = true ∧ dInfo.authStatus = .ok) →
      Bodies uuid s (.handshake ok dInfo)
        { s with body := .handshakeFailed, log := .handshake uuid ok dInfo :: s.log }
  | handshakeFailed {t : ThreadState ClientTask} : s.body = .handshakeFailed →
      WorkerStep s (.deffered (.enqueueTaskAfterTimeOut (some .handshakeTask) s.updateMs)) t →
      Bodies uuid s .next { s with tasksWorker := t, body := .returned }
  | accept {dInfo : DaemonInfo} {t : ThreadState ClientTask} : s.body = .accept dInfo →
      s.locked = false → WorkerStep s (.main (.enqueueTask (some .updateTasksTask))) t →
      Bodies uuid s .next { s with tasksWorker := t, clientInfo := dInfo, body := .returned }
  | runs : s.body = .testRun → s.locked = false → s.isRun = true →
      Bodies uuid s .next (s.goto (.getInfo .getTaskList))
  | stopped : s.body = .testRun → s.locked = false → s.isRun = false →
      Bodies uuid s .next (s.goto .returned)
  | getInfo {c : Call} : s.body = .getInfo c → s.locked = false →
      Bodies uuid s .next (s.goto (.call c s.clientInfo))
  | call {c : Call} {info : DaemonInfo} {e : Event} {body : Body} : s.body = .call c info →
      s.stub = true → c.answer e = some body →
      Bodies uuid s e { s with body := body, log := .request c.rpc info :: s.log }
  | addTask {taskType : TaskType} {rest : List TaskType} {t : ThreadState ClientTask} :
      s.body = .addTasks (taskType :: rest) →
      WorkerStep s (.main (.enqueueTask (createTask taskType))) t →
      Bodies uuid s .next { s with
        tasksWorker := t
        body := .addTasks rest
        received := s.received + taskType.keepAlive.toNat }
  | tasksAdded {t : ThreadState ClientTask} : s.body = .addTasks [] →
      WorkerStep s (.deffered (.enqueueTaskAfterTimeOut (some .updateTasksTask) s.updateMs)) t →
      Bodies uuid s .next { s with tasksWorker := t, body := .returned }
  | generate {tInfo : RpcTorrentInfo} {rest : List RpcTorrentInfo} :
      s.body = .generates (tInfo :: rest) → Bodies uuid s .next (s.goto (.generating tInfo rest))
  | generated {t : ThreadState ClientTask} : s.body = .generates [] →
      WorkerStep s (.deffered (.enqueueTaskAfterTimeOut (some .updateTorrentTask) 30)) t →
      Bodies uuid s .next { s with tasksWorker := t, body := .returned }
  | created {tInfo : RpcTorrentInfo} {rest : List RpcTorrentInfo} :
      s.body = .generating tInfo rest → Bodies uuid s .next (s.goto (.generates rest))
  | download {tInfo : RpcTorrentInfo} {rest : List RpcTorrentInfo} :
      s.body = .downloads (tInfo :: rest) → Bodies uuid s .next (s.goto (.downloading tInfo rest))
  | downloaded {t : ThreadState ClientTask} : s.body = .downloads [] →
      WorkerStep s (.main (.enqueueTask (some .updateTorrentTask))) t →
      Bodies uuid s .next { s with tasksWorker := t, body := .returned }
  | downloadAsync {tInfo : RpcTorrentInfo} {rest : List RpcTorrentInfo} :
      s.body = .downloading tInfo rest →
      Bodies uuid s (.downloadAsync false) (s.goto (.downloads rest))
  | throws {tInfo : RpcTorrentInfo} {rest : List RpcTorrentInfo} :
      s.body = .downloading tInfo rest →
      Bodies uuid s (.downloadAsync true) (s.goto (.rejected tInfo rest))
  | rejected {tInfo : RpcTorrentInfo} {rest : List RpcTorrentInfo} :
      s.body = .rejected tInfo rest →
      Bodies uuid s .next (s.goto (.getInfo (.updateTorrentStatus tInfo .rejected rest)))
  | update {ti tInfo : RpcTorrentInfo} {rest : List RpcTorrentInfo} :
      s.body = .updates (ti :: rest) →
      Bodies uuid s (.updateTorrentInfo tInfo)
        (s.goto (.getInfo (.updateTorrentStatus tInfo .polled rest)))
  | updated : s.body = .updates [] → Bodies uuid s .next (s.goto .returned)
  | crash : s.body = .handshake ∨ (∃ c info, s.body = .call c info) → s.stub = false →
      Bodies uuid s .next (s.goto .crashed)

/-- The steps of the client one by one. -/
inductive Clients (uuid : String) (s : ClientState) : ClientAction → ClientState → Prop
  | setUpdateTaskListTime {sec : ℤ} :
      Clients uuid s (.setUpdateTaskListTime sec) { s with updateTimeSec := sec }
  | startAgain : s.pc = .idle → s.isRun = true → Clients uuid s .start s
  | start : s.pc = .idle → s.isRun = false →
      Clients uuid s .start { s with stub := true, pc := .runWorker }
  | stopAgain : s.pc = .idle → s.isRun = false → Clients uuid s .stop s
  | stop : s.pc = .idle → s.isRun = true →
      Clients uuid s .stop { s with isRun := false, stopBegun := true, pc := .stopWorker }
  | destroy {t : ThreadState ClientTask} : s.pc = .idle → WorkerStep s .destroy t →
      Clients uuid s .destroy { s with tasksWorker := t, pc := .destroying }
  | runWorker {t : ThreadState ClientTask} : s.pc = .runWorker → WorkerStep s .run t →
      Clients uuid s .control { s with tasksWorker := t, pc := .running }
  | started {t : ThreadState ClientTask} : s.pc = .running → s.tasksWorker.control = .idle →
      WorkerStep s (.main (.enqueueTask (some .handshakeTask))) t →
      Clients uuid s .control
        { s with tasksWorker := t, isRun := true, pc := .idle, armed := true }
  | stopWorker {t : ThreadState ClientTask} : s.pc = .stopWorker → WorkerStep s .stop t →
      Clients uuid s .control { s with tasksWorker := t, pc := .stopping }
  | stopped : s.pc = .stopping → s.tasksWorker.control = .idle →
      Clients uuid s .control { s with stub := false, clientInfo := {}, pc := .idle }
  | control {t : ThreadState ClientTask} : s.pc = .running ∨ s.pc = .stopping ∨ s.pc = .destroying →
      WorkerStep s .control t → Clients uuid s .control { s with tasksWorker := t }
  | work {t : ThreadState ClientTask} : s.body.resting = true → WorkerStep s (.main .work) t →
      Clients uuid s .work { s with tasksWorker := t, body := ClientState.entered t }
  | deliver {t : ThreadState ClientTask} : WorkerStep s .deliver t →
      Clients uuid s .deliver { s with tasksWorker := t }
  | deffered {a : Worker.DefferedAction (Option ClientTask)} {t : ThreadState ClientTask} :
      isHandlerStep a = true → WorkerStep s (.deffered a) t →
      Clients uuid s (.deffered a) { s with tasksWorker := t }
  | body {e : Event} {s' : ClientState} : Bodies uuid s e s' → Clients uuid s (.body e) s'

theorem onWorker_eq_some_iff {a : ThreadAction ClientTask} : s.onWorker a = some s' ↔
    ∃ t, WorkerStep s a t ∧ s' = { s with tasksWorker := t } := by
  simp only [ClientState.onWorker, Option.map_eq_some_iff, eq_comm (b := s')]

/-- A step that ends with one of the worker. -/
theorem map_onWorker_eq_some {a : ThreadAction ClientTask} {f : ClientState → ClientState}
    (h : (s.onWorker a).map f = some s') :
    ∃ t, WorkerStep s a t ∧ s' = f { s with tasksWorker := t } := by
  obtain ⟨r, hr, rfl⟩ := Option.map_eq_some_iff.mp h
  obtain ⟨t, ht, rfl⟩ := onWorker_eq_some_iff.mp hr
  exact ⟨t, ht, rfl⟩

/-- **What a step of a body can be.** -/
theorem bodies_of_bodyStep (h : s.bodyStep uuid e = some s') : Bodies uuid s e s' := by
  unfold ClientState.bodyStep at h
  split at h
  case h_1 ok dInfo hb =>
    obtain ⟨hstub, h⟩ := Option.ite_none_right_eq_some.mp h
    obtain rfl := Option.some.inj h
    by_cases hok : ok = true ∧ dInfo.authStatus = .ok
    · rw [if_pos hok]
      obtain ⟨rfl, hauth⟩ := hok
      exact .accepted hb hstub hauth
    · rw [if_neg hok]
      exact .refused hb hstub hok
  case h_2 hb =>
    obtain ⟨hstub, h⟩ := Option.ite_none_left_eq_some.mp h
    exact Option.some.inj h ▸ .crash (.inl hb) (Bool.eq_false_iff.mpr hstub)
  case h_3 hb =>
    obtain ⟨w, hw, rfl⟩ := map_onWorker_eq_some h
    exact .handshakeFailed hb hw
  case h_4 dInfo hb =>
    obtain ⟨hlock, h⟩ := Option.ite_none_left_eq_some.mp h
    obtain ⟨w, hw, rfl⟩ := map_onWorker_eq_some h
    exact .accept hb (Bool.eq_false_iff.mpr hlock) hw
  case h_5 hb =>
    obtain ⟨hlock, h⟩ := Option.ite_none_left_eq_some.mp h
    obtain rfl := Option.some.inj h
    by_cases hrun : s.isRun = true
    · rw [if_pos hrun]
      exact .runs hb (Bool.eq_false_iff.mpr hlock) hrun
    · rw [if_neg hrun]
      exact .stopped hb (Bool.eq_false_iff.mpr hlock) (Bool.eq_false_iff.mpr hrun)
  case h_6 c hb =>
    obtain ⟨hlock, h⟩ := Option.ite_none_left_eq_some.mp h
    exact Option.some.inj h ▸ .getInfo hb (Bool.eq_false_iff.mpr hlock)
  case h_7 c info hb =>
    split at h
    case isTrue hstub =>
      obtain ⟨body, hbody, rfl⟩ := Option.map_eq_some_iff.mp h
      exact .call hb hstub hbody
    case isFalse hstub =>
      obtain ⟨rfl, h⟩ := Option.ite_none_right_eq_some.mp h
      exact Option.some.inj h ▸ .crash (.inr ⟨c, info, hb⟩) (Bool.eq_false_iff.mpr hstub)
  case h_8 taskType rest hb =>
    obtain ⟨w, hw, rfl⟩ := map_onWorker_eq_some h
    exact .addTask hb hw
  case h_9 hb =>
    obtain ⟨w, hw, rfl⟩ := map_onWorker_eq_some h
    exact .tasksAdded hb hw
  case h_10 hb => exact Option.some.inj h ▸ .generate hb
  case h_11 hb =>
    obtain ⟨w, hw, rfl⟩ := map_onWorker_eq_some h
    exact .generated hb hw
  case h_12 hb => exact Option.some.inj h ▸ .created hb
  case h_13 hb => exact Option.some.inj h ▸ .download hb
  case h_14 hb =>
    obtain ⟨w, hw, rfl⟩ := map_onWorker_eq_some h
    exact .downloaded hb hw
  case h_15 throws hb =>
    obtain rfl := Option.some.inj h
    cases throws
    · exact .downloadAsync hb
    · exact .throws hb
  case h_16 hb => exact Option.some.inj h ▸ .rejected hb
  case h_17 hb => exact Option.some.inj h ▸ .update hb
  case h_18 hb => exact Option.some.inj h ▸ .updated hb
  case h_19 => cases h

theorem clients_of_controlStep (h : s.controlStep = some s') : Clients uuid s .control s' := by
  unfold ClientState.controlStep at h
  split at h
  case h_1 => cases h
  case h_2 hpc =>
    obtain ⟨w, hw, rfl⟩ := map_onWorker_eq_some h
    exact .runWorker hpc hw
  case h_3 hpc =>
    split at h
    case isTrue hc =>
      obtain ⟨w, hw, rfl⟩ := map_onWorker_eq_some h
      exact .started hpc hc hw
    case isFalse =>
      obtain ⟨w, hw, rfl⟩ := onWorker_eq_some_iff.mp h
      exact .control (.inl hpc) hw
  case h_4 hpc =>
    obtain ⟨w, hw, rfl⟩ := map_onWorker_eq_some h
    exact .stopWorker hpc hw
  case h_5 hpc =>
    split at h
    case isTrue hc => exact Option.some.inj h ▸ .stopped hpc hc
    case isFalse =>
      obtain ⟨w, hw, rfl⟩ := onWorker_eq_some_iff.mp h
      exact .control (.inr (.inl hpc)) hw
  case h_6 hpc =>
    obtain ⟨w, hw, rfl⟩ := onWorker_eq_some_iff.mp h
    exact .control (.inr (.inr hpc)) hw

/-- **What a step of the client can be.** -/
theorem clients_of_step (h : (clientMachine uuid).step s a = some s') : Clients uuid s a s' := by
  obtain ⟨-, h⟩ := Option.ite_none_right_eq_some.mp h
  rcases a with sec | _ | _ | _ | _ | _ | _ | a | e
  · exact Option.some.inj h ▸ .setUpdateTaskListTime
  · obtain ⟨hpc, h⟩ := Option.ite_none_right_eq_some.mp h
    obtain rfl := Option.some.inj h
    by_cases hrun : s.isRun = true
    · rw [if_pos hrun]
      exact .startAgain hpc hrun
    · rw [if_neg hrun]
      exact .start hpc (Bool.eq_false_iff.mpr hrun)
  · obtain ⟨hpc, h⟩ := Option.ite_none_right_eq_some.mp h
    obtain rfl := Option.some.inj h
    by_cases hrun : s.isRun = true
    · rw [if_pos hrun]
      exact .stop hpc hrun
    · rw [if_neg hrun]
      exact .stopAgain hpc (Bool.eq_false_iff.mpr hrun)
  · obtain ⟨hpc, h⟩ := Option.ite_none_right_eq_some.mp h
    obtain ⟨w, hw, rfl⟩ := map_onWorker_eq_some h
    exact .destroy hpc hw
  · exact clients_of_controlStep h
  · obtain ⟨hrest, h⟩ := Option.ite_none_right_eq_some.mp h
    obtain ⟨w, hw, rfl⟩ := map_onWorker_eq_some h
    exact .work hrest hw
  · obtain ⟨w, hw, rfl⟩ := onWorker_eq_some_iff.mp h
    exact .deliver hw
  · obtain ⟨ha, h⟩ := Option.ite_none_right_eq_some.mp h
    obtain ⟨w, hw, rfl⟩ := onWorker_eq_some_iff.mp h
    exact .deffered ha hw
  · exact .body (bodies_of_bodyStep h)

/-! ## The working thread of the client -/

theorem Bodies.worker_leads (h : Bodies uuid s e s') :
    (threadMachine ClientTask).Leads s.tasksWorker s'.tasksWorker := by
  cases h with
  | handshakeFailed _ ht | accept _ _ ht | addTask _ ht | tasksAdded _ ht | generated _ ht
  | downloaded _ ht => exact .single ht
  | _ => exact .refl _

/-- **The client runs a working thread.** -/
theorem Clients.worker_leads (h : Clients uuid s a s') :
    (threadMachine ClientTask).Leads s.tasksWorker s'.tasksWorker := by
  cases h with
  | destroy _ ht | runWorker _ ht | started _ _ ht | stopWorker _ ht | control _ ht | work _ ht
  | deliver ht | deffered _ ht => exact .single ht
  | body hb => exact hb.worker_leads
  | _ => exact .refl _

theorem worker_of_reachable (h : (clientMachine uuid).Reachable s) :
    (threadMachine ClientTask).Reachable s.tasksWorker :=
  h.invariant (I := fun s => (threadMachine ClientTask).Reachable s.tasksWorker)
    (fun _ hs => hs ▸ .init rfl) fun _ _ _ hi _ hs => hi.leads (clients_of_step hs).worker_leads

variable {t : ThreadState ClientTask} {task : Option ClientTask}

/-- What `EnqueueTask` does to the tasks waiting. -/
theorem waiting_enqueueTask (hi : ThreadInv s.tasksWorker)
    (h : WorkerStep s (.main (.enqueueTask task)) t) :
    t.waiting.Perm (task.toList ++ s.tasksWorker.waiting) :=
  (threads_of_step h).waiting hi fun ha => by cases ha

/-- `EnqueueTaskAfterTimeOut` does the same. -/
theorem waiting_enqueueTaskAfterTimeOut {ms : BitVec 32} (hi : ThreadInv s.tasksWorker)
    (h : WorkerStep s (.deffered (.enqueueTaskAfterTimeOut task ms)) t) :
    t.waiting.Perm (task.toList ++ s.tasksWorker.waiting) :=
  (threads_of_step h).waiting hi fun ha => by cases ha

/-- The task that starts was waiting. -/
theorem waiting_work (hi : ThreadInv s.tasksWorker) (h : WorkerStep s (.main .work) t) :
    (t.running ++ t.waiting).Perm s.tasksWorker.waiting :=
  (threads_of_step h).waiting hi fun ha => by cases ha

theorem added_of_isHandlerStep {b : Worker.DefferedAction (Option ClientTask)}
    (h : isHandlerStep b = true) : (ThreadAction.deffered b).added = [] := by
  cases b with
  | enqueueTaskAfterTimeOut => cases h
  | _ => rfl

/-- No task runs that does not stand in its `Run()`. -/
theorem running_cases (t : ThreadState ClientTask) :
    (t.running = [] ∧ ClientState.entered t = .idle) ∨
    ∃ task, t.running = [task] ∧ ClientState.entered t = task.entry := by
  unfold ClientState.entered ThreadState.running
  cases t.main.pc with
  | runBatch task | runPopped task => exact .inr ⟨task.task, rfl, rfl⟩
  | _ => exact .inl ⟨rfl, rfl⟩

/-! ## The controlling thread -/

/-- What the controlling thread has done, as the flags tell it. -/
structure ControlInv (s : ClientState) : Prop where
  stopped : s.tasksWorker.stopCalled = true → s.stopBegun = true ∨ s.pc = .destroying
  stopping : s.pc = .stopWorker ∨ s.pc = .stopping → s.stopBegun = true
  starting : s.pc = .runWorker ∨ s.pc = .running →
    s.stub = true ∧ (s.armed = false ∨ s.stopBegun = true)
  polls : s.armed = true → s.stopBegun = false → s.isRun = true ∧ s.stub = true

/-- A body leaves the controlling thread alone. -/
theorem Bodies.control (h : Bodies uuid s e s') :
    s'.pc = s.pc ∧ s'.isRun = s.isRun ∧ s'.stub = s.stub ∧ s'.armed = s.armed ∧
      s'.stopBegun = s.stopBegun ∧ s'.tasksWorker.stopCalled = s.tasksWorker.stopCalled := by
  cases h with
  | handshakeFailed _ ht | accept _ _ ht | addTask _ ht | tasksAdded _ ht | generated _ ht
  | downloaded _ ht =>
    exact ⟨rfl, rfl, rfl, rfl, rfl, (threads_of_step ht).stopCalled (by simp) (by simp)⟩
  | _ => exact ⟨rfl, rfl, rfl, rfl, rfl, rfl⟩

/-- `stopBegun` stays set. -/
theorem Clients.stopBegun (h : Clients uuid s a s') (hs : s'.stopBegun = false) :
    s.stopBegun = false := by
  cases h with
  | stop => cases hs
  | body hb => exact hb.control.2.2.2.2.1.symm.trans hs
  | _ => exact hs

theorem ControlInv.step (hi : ControlInv s) (h : Clients uuid s a s') : ControlInv s' := by
  cases h with
  | setUpdateTaskListTime | startAgain | stopAgain => exact ⟨hi.1, hi.2, hi.3, hi.4⟩
  | start hpc hrun =>
    refine ⟨fun hs => .inl ((hi.stopped hs).resolve_right (by simp [hpc])), nofun,
      fun _ => ⟨rfl, ?_⟩, fun ha hs => ?_⟩
    · by_contra hnot
      simp only [not_or, Bool.not_eq_false, Bool.not_eq_true] at hnot
      have hup := (hi.polls hnot.1 hnot.2).1
      exact absurd (hrun.symm.trans hup) (by decide)
    · exact absurd (hrun.symm.trans (hi.polls ha hs).1) (by decide)
  | stop => exact ⟨fun _ => .inl rfl, fun _ => rfl, nofun, fun _ hs => by cases hs⟩
  | destroy => exact ⟨fun _ => .inr rfl, nofun, nofun, hi.polls⟩
  | runWorker hpc ht =>
    have hsame := (threads_of_step ht).stopCalled (by simp) (by simp)
    refine ⟨fun hs => .inl ?_, nofun, fun _ => hi.starting (.inl hpc), hi.polls⟩
    exact (hi.stopped (hsame ▸ hs)).resolve_right (by simp [hpc])
  | started hpc _ ht =>
    have hsame := (threads_of_step ht).stopCalled (by simp) (by simp)
    refine ⟨fun hs => .inl ?_, nofun, nofun, fun _ _ => ⟨rfl, (hi.starting (.inr hpc)).1⟩⟩
    exact (hi.stopped (hsame ▸ hs)).resolve_right (by simp [hpc])
  | stopWorker hpc =>
    have hbegun := hi.stopping (.inl hpc)
    exact ⟨fun _ => .inl hbegun, fun _ => hbegun, nofun, hi.polls⟩
  | stopped hpc =>
    have hbegun := hi.stopping (.inr hpc)
    exact ⟨fun _ => .inl hbegun, nofun, nofun,
      fun _ hs => absurd (hbegun.symm.trans hs) (by decide)⟩
  | control _ ht | work _ ht | deliver ht | deffered _ ht =>
    have hsame := (threads_of_step ht).stopCalled (by simp) (by simp)
    exact ⟨fun hs => hi.stopped (hsame ▸ hs), hi.stopping, hi.starting, hi.polls⟩
  | body hb =>
    obtain ⟨hpc, hrun, hstub, harmed, hbegun, hcalled⟩ := hb.control
    exact ⟨by rw [hcalled, hbegun, hpc]; exact hi.stopped, by rw [hpc, hbegun]; exact hi.stopping,
      by rw [hpc, hstub, harmed, hbegun]; exact hi.starting,
      by rw [harmed, hbegun, hrun, hstub]; exact hi.polls⟩

/-- **The controlling thread's invariant holds along every run.** -/
theorem control_of_reachable (h : (clientMachine uuid).Reachable s) : ControlInv s :=
  h.invariant (fun _ hs => hs ▸ ⟨nofun, nofun, nofun, nofun⟩) fun _ _ _ hi _ hs =>
    hi.step (clients_of_step hs)

/-- `Start`, an accepted handshake and a task list. -/
def pollOnce (taskList : List TaskType) : List ClientAction :=
  [.start, .control, .control, .control, .control, .work, .work, .work, .work,
    .body (.handshake true ⟨"a", "token", .ok⟩), .body .next, .work, .work, .work, .work, .work,
    .body .next, .body .next, .body (.tasks taskList)]

end Steps

end Client

end VerAI
