import VerAI.Lib.Splits
import VerAI.Client.Client
/-!
# No request before an accepted handshake

The client keeps no flag that says it is authorised. What keeps its requests
behind the handshake is the tasks: `Start` adds a `HandshakeTask`, a handshake
that fails adds another one, and every other task comes from an accepted one.
So as long as no handshake was accepted every task waiting is a
`HandshakeTask`, and from then on `clientInfo` is the `DaemonInfo` of the
latest handshake accepted: a failed one does not write it. `Stop` clears it,
and what runs after that is not covered here.
-/

namespace VerAI

namespace Client

open Transition (System)
open Splits (forall_split_cons)
open Worker (ThreadState ThreadAction ThreadInv threads_of_step)

/-- The `DaemonInfo` of a handshake that was accepted. -/
def Message.accepted : Message → Option DaemonInfo
  | .handshake _ ok dInfo => if ok ∧ dInfo.authStatus = .ok then some dInfo else none
  | .request _ _ => none

/-- The one accepted last, in a log with the latest message first. -/
def lastAccepted (log : List Message) : Option DaemonInfo := log.findSome? Message.accepted

/-- Every request carries the `DaemonInfo` of the last handshake accepted
before it. -/
def Authorised (log : List Message) : Prop :=
  ∀ later rpc info earlier, log = later ++ .request rpc info :: earlier →
    lastAccepted earlier = some info

/-- The bodies of a client whose handshake was not accepted yet. -/
def Body.early : Body → Bool
  | .idle => true
  | .handshake => true
  | .handshakeFailed => true
  | .returned => true
  | .crashed => true
  | _ => false

/-- The `DaemonInfo` about to be stored. -/
def Body.accepting : Body → Option DaemonInfo
  | .accept dInfo => some dInfo
  | _ => none

/-- The `DaemonInfo` of the request being made. -/
def Body.calling : Body → Option DaemonInfo
  | .call _ info => some info
  | _ => none

section Runs

variable {uuid : String} {s s' : ClientState} {a : ClientAction} {e : Event}
  {t : ThreadState ClientTask}

theorem authorised_cons {m : Message} {log : List Message} (h : Authorised log)
    (hm : ∀ rpc info, m = .request rpc info → lastAccepted log = some info) :
    Authorised (m :: log) := by
  intro later rpc info earlier heq
  have hlog : ∀ later m earlier, log = later ++ m :: earlier →
      ∀ rpc info, m = .request rpc info → lastAccepted earlier = some info := by
    rintro later _ earlier heq rpc info rfl
    exact h later rpc info earlier heq
  exact forall_split_cons (P := fun earlier m => ∀ rpc info, m = .request rpc info →
    lastAccepted earlier = some info) hlog hm later _ earlier heq rpc info rfl

/-- What is known of the client before a `Stop`. -/
structure HandshakeInv (s : ClientState) : Prop where
  authorised : Authorised s.log
  /-- Without an accepted handshake there is nothing to run but handshakes. -/
  early : lastAccepted s.log = none →
    (∀ task ∈ s.tasksWorker.waiting, task = .handshakeTask) ∧ s.body.early = true
  accepting : ∀ dInfo ∈ s.body.accepting, lastAccepted s.log = some dInfo
  /-- And with one, `clientInfo` is what it returned. -/
  stored : lastAccepted s.log ≠ none → s.body.accepting = none →
    lastAccepted s.log = some s.clientInfo
  calling : ∀ info ∈ s.body.calling, lastAccepted s.log = some info

theorem HandshakeInv.known (hi : HandshakeInv s) (hb : s.body.early = false) :
    lastAccepted s.log ≠ none := by
  intro hnone
  have hearly := (hi.early hnone).2
  rw [hb] at hearly
  cases hearly

/-- A body past an accepted handshake moves on. -/
theorem HandshakeInv.move (hi : HandshakeInv s) (hb : s.body.early = false)
    (hnot : s.body.accepting = none) (hlog : s'.log = s.log)
    (hinfo : s'.clientInfo = s.clientInfo) (hnot' : s'.body.accepting = none)
    (hcall : ∀ info ∈ s'.body.calling, info = s.clientInfo) : HandshakeInv s' where
  authorised := hlog ▸ hi.authorised
  early hnone := absurd (hlog ▸ hnone) (hi.known hb)
  accepting dInfo h := by
    rw [hnot'] at h
    cases h
  stored _ _ := by
    rw [hlog, hinfo]
    exact hi.stored (hi.known hb) hnot
  calling info h := by
    rw [hlog, hcall info h]
    exact hi.stored (hi.known hb) hnot

/-- The controlling thread and the deferred tasks bring no other task in. -/
theorem HandshakeInv.worker {b : ThreadAction ClientTask} (hi : HandshakeInv s)
    (hw : ThreadInv s.tasksWorker) (h : WorkerStep s b s'.tasksWorker)
    (hadd : ∀ task ∈ b.added, task = .handshakeTask) (hlog : s'.log = s.log)
    (hinfo : s'.clientInfo = s.clientInfo) (hbody : s'.body = s.body) : HandshakeInv s' where
  authorised := hlog ▸ hi.authorised
  early hnone := by
    obtain ⟨hall, hearly⟩ := hi.early (hlog ▸ hnone)
    refine ⟨fun task htask => ?_, hbody ▸ hearly⟩
    have hmem := (threads_of_step h).mem_waiting hw (List.mem_append_right _ htask)
    exact (List.mem_append.mp hmem).elim (hadd task) (hall task)
  accepting := by
    rw [hlog, hbody]
    exact hi.accepting
  stored := by
    rw [hlog, hinfo, hbody]
    exact hi.stored
  calling := by
    rw [hlog, hbody]
    exact hi.calling

theorem lastAccepted_cons_of_none {m : Message} {log : List Message} (h : m.accepted = none) :
    lastAccepted (m :: log) = lastAccepted log := by
  rw [lastAccepted, List.findSome?_cons, h]
  rfl

theorem answer_known {c : Call} {body : Body} (h : c.answer e = some body) :
    body.accepting = none ∧ body.calling = none := by
  unfold Call.answer at h
  split at h
  case h_7 => cases h
  all_goals exact Option.some.inj h ▸ ⟨rfl, rfl⟩

/-- **A step of a body.** -/
theorem HandshakeInv.body_step (hi : HandshakeInv s) (hw : ThreadInv s.tasksWorker)
    (h : Bodies uuid s e s') : HandshakeInv s' := by
  cases h with
  | @accepted dInfo hb _ hauth =>
    have hlast : lastAccepted (.handshake uuid true dInfo :: s.log) = some dInfo := by
      simp [lastAccepted, Message.accepted, hauth]
    refine ⟨authorised_cons hi.authorised (fun _ _ h => by cases h), fun hnone => ?_,
      fun d hd => ?_, fun _ hnot => ?_, (fun _ hc => by cases hc)⟩
    · exact absurd (hlast.symm.trans hnone) (by simp)
    · exact hlast.trans hd
    · cases hnot
  | @refused ok dInfo hb _ hauth =>
    have hlast : lastAccepted (.handshake uuid ok dInfo :: s.log) = lastAccepted s.log :=
      lastAccepted_cons_of_none (if_neg hauth)
    refine ⟨authorised_cons hi.authorised (fun _ _ h => by cases h), fun hnone => ?_,
      (fun _ hd => by cases hd), fun hne _ => ?_, (fun _ hc => by cases hc)⟩
    · exact ⟨(hi.early (hlast ▸ hnone)).1, rfl⟩
    · exact hlast.trans (hi.stored (hlast ▸ hne) (by rw [hb]; rfl))
  | handshakeFailed hb ht =>
    refine ⟨hi.authorised, fun hnone => ⟨fun task htask => ?_, rfl⟩, (fun _ hd => by cases hd),
      fun hne _ => hi.stored hne (by rw [hb]; rfl), (fun _ hc => by cases hc)⟩
    have hmem := (waiting_enqueueTaskAfterTimeOut hw ht).mem_iff.mp htask
    rcases List.mem_append.mp hmem with hnew | hold
    · exact List.mem_singleton.mp hnew
    · exact (hi.early hnone).1 task hold
  | @accept dInfo _ hb =>
    have hlast : lastAccepted s.log = some dInfo := hi.accepting dInfo (by rw [hb]; rfl)
    exact ⟨hi.authorised, fun hnone => absurd (hlast.symm.trans hnone) (by simp),
      (fun _ hd => by cases hd), fun _ _ => hlast, (fun _ hc => by cases hc)⟩
  | @call c info _ body hb _ hans =>
    have hlast : lastAccepted (.request c.rpc info :: s.log) = lastAccepted s.log :=
      lastAccepted_cons_of_none rfl
    have hinfo : lastAccepted s.log = some info := hi.calling info (by rw [hb]; rfl)
    obtain ⟨hnot, hdone⟩ := answer_known hans
    refine ⟨authorised_cons hi.authorised ?_, fun hnone => ?_, fun d hd => ?_, fun _ _ => ?_,
      fun info' hc => ?_⟩
    · rintro rpc info' heq
      obtain ⟨-, rfl⟩ := Message.request.inj heq
      exact hinfo
    · exact absurd (hinfo.symm.trans (hlast.symm.trans hnone)) (by simp)
    · cases hnot.symm.trans hd
    · exact hlast.trans (hi.stored (by simp [hinfo]) (by rw [hb]; rfl))
    · cases hdone.symm.trans hc
  | crash hb =>
    have hnot : s.body.accepting = none := by
      obtain hb | ⟨c, info, hb⟩ := hb
      · rw [hb]
        rfl
      · rw [hb]
        rfl
    exact ⟨hi.authorised, fun hnone => ⟨(hi.early hnone).1, rfl⟩, (fun _ hd => by cases hd),
      fun hne _ => hi.stored hne hnot, (fun _ hc => by cases hc)⟩
  | getInfo hb =>
    refine hi.move (by rw [hb]; rfl) (by rw [hb]; rfl) rfl rfl rfl fun info h => ?_
    exact (Option.some.inj h).symm
  | runs hb | stopped hb | addTask hb | tasksAdded hb | generate hb | generated hb | created hb
  | download hb | downloaded hb | downloadAsync hb | throws hb | rejected hb | update hb
  | updated hb =>
    exact hi.move (by rw [hb]; rfl) (by rw [hb]; rfl) rfl rfl rfl fun _ hc => by cases hc

/-- **A step of the client**, up to a `Stop`. -/
theorem HandshakeInv.step (hi : HandshakeInv s) (hw : ThreadInv s.tasksWorker) (hc : ControlInv s)
    (h : Clients uuid s a s') (hs : s'.stopBegun = false) : HandshakeInv s' := by
  cases h with
  | setUpdateTaskListTime | startAgain | start | stopAgain =>
    exact ⟨hi.authorised, hi.early, hi.accepting, hi.stored, hi.calling⟩
  | stop => cases hs
  | stopped hpc => exact absurd ((hc.stopping (.inr hpc)).symm.trans hs) (by decide)
  | destroy _ ht | runWorker _ ht | stopWorker _ ht | control _ ht | deliver ht =>
    exact hi.worker hw ht (fun _ htask => by cases htask) rfl rfl rfl
  | deffered ha ht =>
    have hadd := added_of_isHandlerStep ha
    exact hi.worker hw ht (fun task htask => absurd (hadd ▸ htask) List.not_mem_nil) rfl rfl rfl
  | started _ _ ht =>
    exact hi.worker hw ht (fun task htask => List.mem_singleton.mp htask) rfl rfl rfl
  | @work t hrest ht =>
    have hmem : ∀ task ∈ t.running ++ t.waiting, task ∈ s.tasksWorker.waiting :=
      fun task htask => (waiting_work hw ht).mem_iff.mp htask
    have hentry : (ClientState.entered t).accepting = none ∧
        (ClientState.entered t).calling = none := by
      obtain ⟨-, hbody⟩ | ⟨task, -, hbody⟩ := running_cases t
      · rw [hbody]
        exact ⟨rfl, rfl⟩
      · rw [hbody]
        cases task <;> exact ⟨rfl, rfl⟩
    refine ⟨hi.authorised, fun hnone => ⟨fun task htask => ?_, ?_⟩,
      (fun d hd => by cases hentry.1.symm.trans hd), fun hne _ => ?_,
      (fun info hc => by cases hentry.2.symm.trans hc)⟩
    · exact (hi.early hnone).1 task (hmem task (List.mem_append_right _ htask))
    · obtain ⟨-, hbody⟩ | ⟨task, hrun, hbody⟩ := running_cases t
      · simp [hbody, Body.early]
      · -- the only task there is to start is a handshake
        have hfirst := (hi.early hnone).1 task (hmem task (by simp [hrun]))
        simp [hbody, hfirst, ClientTask.entry, Body.early]
    · refine hi.stored hne ?_
      cases hb : s.body with
      | accept =>
        rw [hb] at hrest
        cases hrest
      | _ => rfl
  | body hb => exact hi.body_step hw hb

theorem handshake_of_reachable (h : (clientMachine uuid).Reachable s) (hs : s.stopBegun = false) :
    HandshakeInv s := by
  induction h with
  | init hinit =>
    obtain rfl := hinit
    exact ⟨fun later _ _ _ heq => by simp [ClientState.new] at heq, fun _ => ⟨nofun, rfl⟩, nofun,
      fun hne => absurd rfl hne, nofun⟩
  | @step s s' a hreach _ hstep ih =>
    have hclients := clients_of_step hstep
    have hw := Worker.threadInv_of_reachable (worker_of_reachable hreach)
    exact (ih (hclients.stopBegun hs)).step hw (control_of_reachable hreach) hclients hs

/-- **No request before an accepted handshake.** In every run up to a `Stop`,
every request carries the `DaemonInfo` that the last handshake accepted before
it returned. -/
theorem requests_authorised (h : (clientMachine uuid).Reachable s) (hs : s.stopBegun = false) :
    ∀ later rpc info earlier, s.log = later ++ .request rpc info :: earlier →
      lastAccepted earlier = some info :=
  (handshake_of_reachable h hs).authorised

/-- The requests of `Start`, an accepted handshake and a task list. -/
theorem pollOnce_authorised : ∃ s, (clientMachine "a").Reachable s ∧
    s.log = [.request .getTaskList ⟨"a", "token", .ok⟩, .handshake "a" true ⟨"a", "token", .ok⟩] ∧
    ∀ later rpc info earlier, s.log = later ++ .request rpc info :: earlier →
      lastAccepted earlier = some info := by
  have hrun : ((clientMachine "a").exec .new (pollOnce [])).map (fun s => (s.stopBegun, s.log)) =
      some (false, [.request .getTaskList ⟨"a", "token", .ok⟩,
        .handshake "a" true ⟨"a", "token", .ok⟩]) := by decide
  obtain ⟨s, hs, hview⟩ := Option.map_eq_some_iff.mp hrun
  obtain ⟨hbegun, hlog⟩ := Prod.mk.inj hview
  have hreach : (clientMachine "a").Reachable s := System.reachable_of_exec _ rfl hs
  exact ⟨s, hreach, hlog, requests_authorised hreach hbegun⟩

end Runs

end Client

end VerAI
