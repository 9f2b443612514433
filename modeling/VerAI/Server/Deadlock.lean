import VerAI.Server.Threads
/-!
# Where calls of the handler wait for each other

Each of the members is touched under its own mutex only, so the methods race
for none of them. The mutexes have no order: `UpdateTorrentStatus` and
`Handshake` lock `mtxTDownload` under `mtxTDeque`, and
`GetTorrentsForDownload` locks them the other way round. A thread in the one
and a thread in the other can wait for each other, and no other deadlock is
possible. Without calls of `GetTorrentsForDownload` there is none.
-/

namespace VerAI

namespace Server

open Transition (System)
open Transition.Locks (Action Awaits Descends Discipline Disciplined Embraced Fits Instr Kept
  LockState Next Stuck acc_of_reachable advance fits_nil fits_op guarded kept_of_reachable machine
  needs_disjoint)
open Client (DaemonInfo Event TaskType)
open Torrent (RpcTorrentInfo)

namespace Threads

/-- The mutexes of the members an operation touches. -/
def needs : ServerOp → List ServerMutex
  | .pushTask _ _ => [.mtxTDeque]
  | .addDownload _ => [.mtxTDeque, .mtxTDownload]
  | .addUpdate _ _ => [.mtxTUpdate]
  | .removeUpdate _ _ => [.mtxTUpdate]
  | .findUpdates _ => [.mtxTUpdate]
  | .findDownloads _ => [.mtxTDownload]
  | .eraseDownloads _ => [.mtxTDownload]
  | .ret _ _ => []
  | _ => [.mtxTDeque]

/-- The mutexes a method may hold where the operation stands in it; in all of
the methods, or in those that are not `GetTorrentsForDownload`. -/
def within (all : Bool) : ServerOp → List ServerMutex
  | .pushTask _ _ => [.mtxTDeque, .mtxTDownload]
  | .addDownload _ => [.mtxTDeque, .mtxTDownload]
  | .addUpdate _ _ => [.mtxTDeque, .mtxTDownload, .mtxTUpdate]
  | .removeUpdate _ _ => [.mtxTDeque, .mtxTUpdate]
  | .findUpdates _ => [.mtxTUpdate]
  | .findDownloads _ => if all then [.mtxTDownload] else []
  | .eraseDownloads _ => [.mtxTDownload]
  | .ret _ _ => [.mtxTDeque, .mtxTDownload, .mtxTUpdate]
  | _ => [.mtxTDeque]

/-- What is locked under what. -/
def after (all : Bool) : ServerMutex → List ServerMutex
  | .mtxTDeque => [.mtxTDownload, .mtxTUpdate]
  | .mtxTDownload => if all then [.mtxTDeque, .mtxTUpdate] else [.mtxTUpdate]
  | .mtxTUpdate => []

/-- The mutexes in the order the other methods lock them. -/
def order : ServerMutex → ℕ
  | .mtxTDeque => 2
  | .mtxTDownload => 1
  | .mtxTUpdate => 0

/-- **The discipline of the handler.** -/
def discipline (all : Bool) : Discipline ServerMutex ServerOp where
  needs k m := m ∈ needs k
  within k m := m ∈ within all k
  after m m' := m' ∈ after all m

section Fits

variable {all : Bool} {least most : ServerMutex → Prop}

/-- `AddTask` keeps to the order of the mutexes where only `mtxTDeque` is held, or
`mtxTDownload` is where it is allowed to be. -/
theorem fits_addTask {uuid : String} {taskType : TaskType}
    (h : ∀ m, most m → m = .mtxTDeque ∨ all = true ∧ m = .mtxTDownload) :
    Fits (discipline all) least most (addTask uuid taskType) := by
  refine .guarded ?_ (fits_op ?_ ?_)
  · intro m hm
    obtain rfl | ⟨rfl, rfl⟩ := h m hm
    · exact .inl rfl
    · exact .inr (by simp [discipline, after])
  · simp [discipline, needs]
  · rintro m (hm | rfl)
    · obtain rfl | ⟨-, rfl⟩ := h m hm
      · simp [discipline, within]
      · simp [discipline, within]
    · simp [discipline, within]

/-- `Add2UpdateList` locks the last mutex of the order. -/
theorem fits_add2UpdateList {id : String} {info : RpcTorrentInfo}
    (h : ∀ m, most m → m ≠ .mtxTUpdate) :
    Fits (discipline all) least most (add2UpdateList id info) := by
  refine .guarded ?_ (fits_op ?_ ?_)
  · intro m hm
    cases m with
    | mtxTUpdate => exact absurd rfl (h _ hm)
    | mtxTDeque => exact .inr (by simp [discipline, after])
    | mtxTDownload => exact .inr (by cases all <;> simp [discipline, after])
  · simp [discipline, needs]
  · intro m _
    cases m <;> simp [discipline, within]

/-- So does `RemoveFromUpdateList`. -/
theorem fits_removeFromUpdateList {id : String} {info : RpcTorrentInfo}
    (h : ∀ m, most m → m = .mtxTDeque) :
    Fits (discipline all) least most (removeFromUpdateList id info) := by
  refine .guarded ?_ (fits_op ?_ ?_)
  · intro m hm
    obtain rfl := h m hm
    exact .inr (by simp [discipline, after])
  · simp [discipline, needs]
  · rintro m (hm | rfl)
    · obtain rfl := h m hm
      simp [discipline, within]
    · simp [discipline, within]

/-- `Add2DownloadList` is called under `mtxTDeque`. -/
theorem fits_add2DownloadList {id : String} (hleast : least .mtxTDeque)
    (h : ∀ m, most m → m = .mtxTDeque) :
    Fits (discipline all) least most (add2DownloadList id) := by
  refine .guarded ?_ (fits_op ?_ ?_)
  · intro m hm
    obtain rfl := h m hm
    exact .inr (by simp [discipline, after])
  · intro m hm
    simp only [discipline, needs, List.mem_cons, List.not_mem_nil, or_false] at hm
    obtain rfl | rfl := hm
    · exact .inl hleast
    · exact .inr rfl
  · rintro m (hm | rfl)
    · obtain rfl := h m hm
      simp [discipline, within]
    · simp [discipline, within]

/-- An operation under `mtxTDeque` alone. -/
theorem fits_deque {k : ServerOp} (hneeds : needs k = [.mtxTDeque])
    (hwithin : .mtxTDeque ∈ within all k) (hleast : least .mtxTDeque)
    (h : ∀ m, most m → m = .mtxTDeque) : Fits (discipline all) least most [.op k] := by
  refine fits_op (fun m hm => ?_) fun m hm => ?_
  · have hm : m ∈ needs k := hm
    rw [hneeds, List.mem_singleton] at hm
    exact hm ▸ hleast
  · obtain rfl := h m hm
    exact hwithin

/-- To return locks nothing. -/
theorem fits_ret {uuid : String} {e : Event} :
    Fits (discipline all) least most [.op (.ret uuid e)] := by
  refine fits_op (by simp [discipline, needs]) fun m _ => ?_
  cases m <;> simp [discipline, within]

/-- `DownloadTorrent` locks `mtxTDeque` before what it calls locks others. -/
theorem fits_downloadTorrent {daemonId : String} (h : ∀ m, most m → m = .mtxTDeque) :
    Fits (discipline all) least most (downloadTorrent daemonId) := by
  refine .guarded (fun m hm => .inl (h m hm)) (fits_deque rfl (by simp [within]) (.inr rfl) ?_)
  rintro m (hm | rfl)
  · exact h m hm
  · rfl

/-- What an operation goes on with keeps the discipline. -/
theorem fits_exec (k : ServerOp) (s : ServerData) :
    Fits (discipline all) ((discipline all).needs k) ((discipline all).within k) (exec k s).2 := by
  have hdeque : ∀ {k : ServerOp}, within all k = [.mtxTDeque] →
      ∀ m, (discipline all).within k m → m = .mtxTDeque := fun hk m hm => by
    simpa [discipline, hk] using hm
  cases k with
  | testFirst uuid =>
    have hmost := hdeque (k := .testFirst uuid) rfl
    show Fits _ _ _ (ite _ _ _)
    split
    · refine (fits_addTask fun m hm => .inl (hmost m hm)).append
        ((fits_addTask fun m hm => .inl (hmost m hm)).append
          (fits_deque rfl (by simp [within]) (by simp [discipline, needs]) hmost))
    · exact fits_downloadTorrent hmost
  | forUuids uuid =>
    refine Fits.flatMap (fun e => ?_) _
    split
    · exact fits_downloadTorrent (hdeque rfl)
    · exact fits_nil
  | testDeque daemonId =>
    have hmost := hdeque (k := .testDeque daemonId) rfl
    have hleast : (discipline all).needs (.testDeque daemonId) .mtxTDeque := by
      simp [discipline, needs]
    show Fits _ _ _ (ite _ _ _)
    split
    · exact fits_nil
    · exact (fits_add2DownloadList hleast hmost).append
        ((fits_deque rfl (by simp [within]) hleast hmost).append
          (fits_addTask fun m hm => .inl (hmost m hm)))
  | takeTasks uuid => exact fits_ret
  | findUuid uuid newUuid =>
    have hmost := hdeque (k := .findUuid uuid newUuid) rfl
    show Fits _ _ _ (ite _ _ _)
    split
    · refine (fits_add2UpdateList fun m hm => ?_).append fits_ret
      rw [hmost m hm]
      decide
    · exact fits_ret
  | findUpdates uuid => exact fits_ret
  | findDownloads uuid =>
    have hmost : ∀ m, (discipline all).within (.findDownloads uuid) m →
        all = true ∧ m = .mtxTDownload := fun m hm => by
      cases all with
      | true => exact ⟨rfl, by simpa [discipline, within] using hm⟩
      | false => simp [discipline, within] at hm
    simp only [exec]
    split
    · refine (Fits.flatMap (fun info => fits_add2UpdateList fun m hm => ?_) _).append
        (Fits.append (l := [_]) (fits_op (fun m hm => hm) fun m hm => ?_)
          ((fits_addTask fun m hm => .inr (hmost m hm)).append fits_ret))
      · rw [(hmost m hm).2]
        decide
      · rw [(hmost m hm).2]
        simp [discipline, within]
    · exact fits_ret
  | _ => exact fits_nil

/-- The calls that lock `mtxTDeque` first, if any other. -/
def DequeFirst (r : Request) : Prop := ∀ info, r ≠ .getTorrentsForDownload info

/-- **Every method keeps the discipline**, `GetTorrentsForDownload` only the weaker one. -/
theorem fits_program {r : Request} (hr : all = true ∨ DequeFirst r) :
    Fits (discipline all) (fun _ => False) (fun _ => False) (program r) := by
  have hone : ∀ {m m' : ServerMutex}, False ∨ m' = m → m' = m := fun h => h.resolve_left id
  cases r with
  | handshake uuid =>
    refine .guarded (fun _ hm => hm.elim) ?_
    exact (fits_deque (k := .emplaceUuid uuid) rfl (by simp [within]) (.inr rfl)
      fun _ => hone).append
      ((fits_deque (k := .testFirst uuid) rfl (by simp [within]) (.inr rfl) fun _ => hone).append
        fits_ret)
  | updateTorrentStatus dInfo tInfo =>
    refine Fits.append (.guarded (fun _ hm => hm.elim) ?_) fits_ret
    split
    · split
      · exact fits_nil
      · exact (fits_deque (k := .pushDeque tInfo) rfl (by simp [within]) (.inr rfl)
          fun _ => hone).append ((fits_removeFromUpdateList fun _ => hone).append
            (fits_deque rfl (by simp [within]) (.inr rfl) fun _ => hone))
    · exact fits_removeFromUpdateList fun _ => hone
    all_goals exact fits_addTask fun _ hm => .inl (hone hm)
  | getTaskList info =>
    exact .guarded (fun _ hm => hm.elim)
      (fits_deque rfl (by simp [within]) (.inr rfl) fun _ => hone)
  | getInfoForGenerateTorrents info newUuid =>
    exact .guarded (fun _ hm => hm.elim)
      (fits_deque rfl (by simp [within]) (.inr rfl) fun _ => hone)
  | getTorrentsForUpdateStatus info =>
    refine .guarded (fun _ hm => hm.elim) (fits_op ?_ ?_)
    · simp [discipline, needs]
    · rintro m (hm | rfl)
      · exact hm.elim
      · simp [discipline, within]
  | getTorrentsForDownload info =>
    obtain rfl := hr.resolve_right fun h => h info rfl
    refine .guarded (fun _ hm => hm.elim) (fits_op ?_ ?_)
    · simp [discipline, needs]
    · rintro m (hm | rfl)
      · exact hm.elim
      · simp [discipline, within]

/-- So do the operations and what they go on with. -/
theorem disciplined (all : Bool) :
    Disciplined (discipline all) exec program fun r => all = true ∨ DequeFirst r :=
  ⟨fits_exec, fun _ => fits_program⟩

end Fits

/-- How much an operation can go on with. -/
def rank : ServerOp → ℕ
  | .testFirst _ => 2
  | .forUuids _ => 2
  | .testDeque _ => 1
  | .takeTasks _ => 1
  | .findUuid _ _ => 1
  | .findUpdates _ => 1
  | .findDownloads _ => 1
  | _ => 0

/-- **What an operation goes on with is less than itself.** -/
theorem descends : Descends exec rank := by
  intro k s
  cases k with
  | testFirst uuid =>
    simp only [exec]
    split
    · simp [addTask, guarded, Instr.rank, rank]
    · simp [downloadTorrent, guarded, Instr.rank, rank]
  | forUuids uuid =>
    have hone : ∀ e, ∀ i ∈ downloadTorrent e, i.rank rank ≤ 2 := by
      simp [downloadTorrent, guarded, Instr.rank, rank]
    intro i hi
    obtain ⟨e, -, hi⟩ := List.mem_flatMap.mp hi
    split at hi
    · exact hone e i hi
    · cases hi
  | testDeque daemonId =>
    simp only [exec]
    split
    · simp
    · simp [add2DownloadList, addTask, guarded, Instr.rank, rank]
  | takeTasks uuid => simp [exec, Instr.rank, rank]
  | findUuid uuid newUuid =>
    simp only [exec]
    split
    · simp [add2UpdateList, guarded, Instr.rank, rank]
    · simp [Instr.rank, rank]
  | findUpdates uuid => simp [exec, Instr.rank, rank]
  | findDownloads uuid =>
    have hone : ∀ info, ∀ i ∈ add2UpdateList uuid info, i.rank rank ≤ 1 := by
      simp [add2UpdateList, guarded, Instr.rank, rank]
    simp only [exec]
    split
    · refine List.forall_mem_append.mpr ⟨fun i hi => ?_, ?_⟩
      · obtain ⟨info, -, hi⟩ := List.mem_flatMap.mp hi
        exact hone info i hi
      · simp [addTask, guarded, Instr.rank, rank]
    · simp [Instr.rank, rank]
  | _ => exact List.forall_mem_nil _

/-! ## What touches what -/

/-- The members under a mutex are the same. -/
def Agree (s s' : ServerState) : ServerMutex → Prop
  | .mtxTDeque => s.handler.uuids = s'.handler.uuids ∧
      s.handler.torrentDeque = s'.handler.torrentDeque ∧ s.handler.tasks = s'.handler.tasks ∧
      s.isFirst = s'.isFirst
  | .mtxTDownload => s.handler.t2DownloadMap = s'.handler.t2DownloadMap
  | .mtxTUpdate => s.handler.t2UpdateMap = s'.handler.t2UpdateMap

section Frame

variable {k k' : ServerOp} {s s' s'' : ServerState} {m : ServerMutex}

theorem Agree.symm (h : Agree s s' m) : Agree s' s m := by
  cases m with
  | mtxTDeque => exact ⟨h.1.symm, h.2.1.symm, h.2.2.1.symm, h.2.2.2.symm⟩
  | _ => exact Eq.symm h

theorem Agree.trans (h : Agree s s' m) (h' : Agree s' s'' m) : Agree s s'' m := by
  cases m with
  | mtxTDeque =>
    exact ⟨h.1.trans h'.1, h.2.1.trans h'.2.1, h.2.2.1.trans h'.2.2.1, h.2.2.2.trans h'.2.2.2⟩
  | _ => exact Eq.trans h h'

/-- Data that agrees under every mutex is the same. -/
theorem eq_of_agree (h : ∀ m, Agree s s' m) : s = s' := by
  obtain ⟨⟨uuids, deque, tasks, downloads, updates⟩, isFirst⟩ := s
  obtain ⟨⟨uuids', deque', tasks', downloads', updates'⟩, isFirst'⟩ := s'
  obtain ⟨rfl, rfl, rfl, rfl⟩ := h .mtxTDeque
  obtain rfl : downloads = downloads' := h .mtxTDownload
  obtain rfl : updates = updates' := h .mtxTUpdate
  rfl

/-- **An operation leaves the members it does not need** as they are. -/
theorem agree_exec (hm : m ∉ needs k) (d : ServerData) :
    Agree (exec k d).1.server d.server m := by
  cases k with
  | addDownload daemonId =>
    cases m with
    | mtxTUpdate =>
      simp only [exec]
      split
      · rfl
      · rfl
    | _ => simp [needs] at hm
  | addUpdate id info | removeUpdate id info | findUpdates uuid =>
    cases m with
    | mtxTDeque => exact ⟨rfl, rfl, rfl, rfl⟩
    | mtxTDownload => rfl
    | mtxTUpdate => simp [needs] at hm
  | findDownloads uuid | eraseDownloads uuid =>
    cases m with
    | mtxTDeque => exact ⟨rfl, rfl, rfl, rfl⟩
    | mtxTDownload => simp [needs] at hm
    | mtxTUpdate => rfl
  | ret uuid e =>
    cases m with
    | mtxTDeque => exact ⟨rfl, rfl, rfl, rfl⟩
    | _ => rfl
  | _ =>
    cases m with
    | mtxTDeque => simp [needs] at hm
    | _ => rfl

/-- **What an operation does hangs on the members it needs** alone. -/
theorem exec_congr {d d' : ServerData} (h : ∀ m ∈ needs k, Agree d.server d'.server m) :
    (exec k d).2 = (exec k d').2 ∧
      ∀ m ∈ needs k, Agree (exec k d).1.server (exec k d').1.server m := by
  obtain ⟨⟨⟨uuids, deque, tasks, downloads, updates⟩, isFirst⟩, answers⟩ := d
  obtain ⟨⟨⟨uuids', deque', tasks', downloads', updates'⟩, isFirst'⟩, answers'⟩ := d'
  cases k with
  | addDownload daemonId =>
    obtain ⟨rfl, rfl, rfl, rfl⟩ := h .mtxTDeque (by simp [needs])
    obtain rfl : downloads = downloads' := h .mtxTDownload (by simp [needs])
    refine ⟨rfl, fun m hm => ?_⟩
    simp only [exec]
    cases m with
    | mtxTUpdate => simp [needs] at hm
    | mtxTDeque =>
      cases deque with
      | nil => exact ⟨rfl, rfl, rfl, rfl⟩
      | cons first rest => exact ⟨rfl, rfl, rfl, rfl⟩
    | mtxTDownload =>
      cases deque with
      | nil => rfl
      | cons first rest => rfl
  | addUpdate id info | removeUpdate id info | findUpdates uuid =>
    obtain rfl : updates = updates' := h .mtxTUpdate (by simp [needs])
    refine ⟨rfl, fun m hm => ?_⟩
    obtain rfl := List.mem_singleton.mp hm
    rfl
  | findDownloads uuid | eraseDownloads uuid =>
    obtain rfl : downloads = downloads' := h .mtxTDownload (by simp [needs])
    refine ⟨rfl, fun m hm => ?_⟩
    obtain rfl := List.mem_singleton.mp hm
    rfl
  | ret uuid e => exact ⟨rfl, fun _ hm => absurd hm List.not_mem_nil⟩
  | _ =>
    obtain ⟨rfl, rfl, rfl, rfl⟩ := h .mtxTDeque (by simp [needs])
    refine ⟨rfl, fun m hm => ?_⟩
    obtain rfl := List.mem_singleton.mp hm
    exact ⟨rfl, rfl, rfl, rfl⟩

/-- **Operations that touch different members** do not see one another. -/
theorem commute (h : ∀ m, m ∈ needs k → m ∉ needs k') (d : ServerData) :
    (exec k (exec k' d).1).2 = (exec k d).2 ∧
      (exec k (exec k' d).1).1.server = (exec k' (exec k d).1).1.server := by
  have hk : ∀ m ∈ needs k, Agree (exec k' d).1.server d.server m := fun m hm =>
    agree_exec (h m hm) d
  have hk' : ∀ m ∈ needs k', Agree (exec k d).1.server d.server m := fun m hm =>
    agree_exec (fun hm' => h m hm' hm) d
  refine ⟨(exec_congr hk).1, eq_of_agree fun m => ?_⟩
  by_cases hm : m ∈ needs k
  · exact ((exec_congr hk).2 m hm).trans (agree_exec (h m hm) _).symm
  · refine (agree_exec hm _).trans ?_
    by_cases hm' : m ∈ needs k'
    · exact ((exec_congr hk').2 m hm').symm
    · exact ((agree_exec hm' d).trans (agree_exec hm d).symm).trans (agree_exec hm' _).symm

end Frame

end Threads

open Threads (DequeFirst discipline disciplined descends needs exec program)

/-- **The machine of the threads** that call the handler. -/
def threadMachine (θ : Type) [DecidableEq θ] :
    System (LockState θ ServerMutex ServerOp ServerData) (Action θ Request) :=
  machine exec program ⟨⟨.new, true⟩, []⟩

section Runs

variable {θ : Type} [DecidableEq θ] {s s' : LockState θ ServerMutex ServerOp ServerData} {t t' : θ}

/-- So the threads keep to it in every run. -/
theorem kept_of_calls (h : (threadMachine θ).Reachable s) : Kept (discipline true) s :=
  kept_of_reachable (disciplined true) (h.mono fun _ a _ => by
    cases a with
    | begin t r => exact .inl rfl
    | advance t => trivial)

/-- **A call that finds the server idle** is answered as the calls one at a time
are. -/
theorem serve_of_idle (h : (threadMachine θ).Reachable s) (hidle : ∀ t, s.code t = []) (t : θ)
    (r : Request) : ∃ s', (threadMachine θ).Leads s s' ∧ (∀ t, s'.code t = []) ∧
      s'.data = s.data.serve r := by
  have hbegin : (threadMachine θ).step s (.begin t r) =
      some { s with code := Function.update s.code t (program r) } := by
    simp [threadMachine, machine, hidle t]
  have hruns := Threads.runs_program (s := s.data) r
  obtain ⟨s', hleads, hend⟩ := Transition.Locks.leads_of_runs (t := t)
    (s := { s with code := Function.update s.code t (program r) }) (disciplined true)
    (kept_of_calls (h.next hbegin)) (fun t' ht' => (Function.update_of_ne ht' ..).trans (hidle t'))
    (Function.update_self t (program r) s.code ▸ hruns)
  exact ⟨s', .trans (.single hbegin) hleads, hend⟩

/-- **Two calls about to touch the handler** at the same time touch different
members, and it is the same in which order they do so. -/
theorem commute_of_calls {k k' : ServerOp} {rest rest' : List (Instr ServerMutex ServerOp)}
    (h : (threadMachine θ).Reachable s) (hne : t ≠ t') (ht : s.code t = .op k :: rest)
    (ht' : s.code t' = .op k' :: rest') :
    (∀ m ∈ needs k, m ∉ needs k') ∧
      (exec k (exec k' s.data).1).2 = (exec k s.data).2 ∧
      (exec k' (exec k s.data).1).2 = (exec k' s.data).2 ∧
      (exec k (exec k' s.data).1).1.server = (exec k' (exec k s.data).1).1.server := by
  have hdisjoint : ∀ m ∈ needs k, m ∉ needs k' := fun m hm =>
    needs_disjoint (kept_of_calls h) ht ht' hne hm
  have hkk' := Threads.commute hdisjoint s.data
  exact ⟨hdisjoint, hkk'.1, (Threads.commute (fun m hm hm' => hdisjoint m hm' hm) s.data).1,
    hkk'.2⟩

/-- A call, as far as these many steps. -/
def calls (t : Bool) (r : Request) (steps : ℕ) : List (Action Bool Request) :=
  .begin t r :: List.replicate steps (.advance t)

/-- A daemon registers while another one asks what to report on. -/
theorem emplace_commutes : ∃ s : ServerData,
    (∀ m ∈ needs (.findUpdates "b"), m ∉ needs (.emplaceUuid "a")) ∧
      (exec (.findUpdates "b") (exec (.emplaceUuid "a") s).1).1.server =
        (exec (.emplaceUuid "a") (exec (.findUpdates "b") s).1).1.server := by
  obtain ⟨s, hs⟩ := Option.isSome_iff_exists.mp
    (show ((threadMachine Bool).exec ⟨fun _ => [], fun _ => .free, ⟨⟨.new, true⟩, []⟩⟩
      (calls true (.handshake "a") 1 ++
        calls false (.getTorrentsForUpdateStatus ⟨"b", "", .ok⟩) 1)).isSome by decide)
  have hr : (threadMachine Bool).Reachable s := System.reachable_of_exec _ rfl hs
  obtain rfl := Option.some.inj hs
  have hfind : ∀ s, (threadMachine Bool).Reachable s →
      s.code false = .op (.findUpdates "b") :: (s.code false).tail →
      s.code true = .op (.emplaceUuid "a") :: (s.code true).tail → _ := fun s hr hb ha =>
    commute_of_calls hr (by decide) hb ha
  obtain ⟨hdisjoint, -, -, hsame⟩ := hfind _ hr rfl rfl
  exact ⟨_, hdisjoint, hsame⟩

/-- Where no call can go on, one waits under `mtxTDownload` for `mtxTDeque`. -/
theorem embraced_of_stuck (hk : Kept (discipline true) s) (hstuck : Stuck exec s)
    (hbusy : s.code t ≠ []) : ∃ t t', Embraced s t t' .mtxTDownload .mtxTDeque := by
  -- nothing is waited for under `mtxTUpdate`
  have hupdate : ∀ t, ¬ Awaits s t .mtxTUpdate := fun t ha => by
    obtain ⟨t', m, -, -, -, hafter⟩ := hstuck.exists_awaits hk ha
    simp [discipline, Threads.after] at hafter
  have hdownload : ∀ t, Awaits s t .mtxTDownload →
      ∃ t', 0 < s.held t' .mtxTDownload ∧ Awaits s t' .mtxTDeque := fun t ha => by
    obtain ⟨t', m, -, hheld, ha', hafter⟩ := hstuck.exists_awaits hk ha
    cases m with
    | mtxTDeque => exact ⟨t', hheld, ha'⟩
    | mtxTDownload => simp [discipline, Threads.after] at hafter
    | mtxTUpdate => exact absurd ha' (hupdate t')
  have hdeque : ∀ t, Awaits s t .mtxTDeque →
      ∃ t', t' ≠ t ∧ 0 < s.held t' .mtxTDeque ∧ Awaits s t' .mtxTDownload := fun t ha => by
    obtain ⟨t', m, hne, hheld, ha', hafter⟩ := hstuck.exists_awaits hk ha
    cases m with
    | mtxTDeque => simp [discipline, Threads.after] at hafter
    | mtxTDownload => exact ⟨t', hne, hheld, ha'⟩
    | mtxTUpdate => exact absurd ha' (hupdate t')
  -- from a wait for `mtxTDownload` to its holder, and on to the holder of `mtxTDeque`
  have hall : ∀ t, Awaits s t .mtxTDownload → ∃ t t', Embraced s t t' .mtxTDownload .mtxTDeque :=
    fun t ha => by
      obtain ⟨t₁, hheld, ha₁⟩ := hdownload t ha
      obtain ⟨t₂, hne, hheld₂, ha₂⟩ := hdeque t₁ ha₁
      exact ⟨t₁, t₂, hne.symm, hheld, ha₁, hheld₂, ha₂⟩
  obtain ⟨m, hm⟩ := (Transition.Locks.awaits_of_advance_eq_none hk (hstuck t)).resolve_left hbusy
  cases m with
  | mtxTDeque =>
    obtain ⟨t', -, -, ha'⟩ := hdeque t hm
    exact hall t' ha'
  | mtxTDownload => exact hall t hm
  | mtxTUpdate => exact absurd hm (hupdate t)

/-- It stays so for ever. -/
theorem embraced_of_leads (h : Embraced s t t' .mtxTDownload .mtxTDeque)
    (hl : (threadMachine θ).Leads s s') : Embraced s' t t' .mtxTDownload .mtxTDeque := by
  obtain ⟨as, has⟩ := hl
  induction as generalizing s with
  | nil => exact Option.some.inj has ▸ h
  | cons a as ih =>
    obtain ⟨s₁, hs, has⟩ := Option.bind_eq_some_iff.mp has
    exact ih (h.next hs) has

/-- What is locked under what has an end where `GetTorrentsForDownload` is not
called. -/
theorem wellFounded_after : WellFounded fun m' m => (discipline false).after m m' := by
  refine Subrelation.wf (r := InvImage (· < ·) Threads.order) ?_
    (InvImage.wf Threads.order wellFounded_lt)
  intro m' m h
  have h : m' ∈ Threads.after false m := h
  show Threads.order m' < Threads.order m
  cases m with
  | mtxTDeque =>
    simp only [Threads.after, List.mem_cons, List.not_mem_nil, or_false] at h
    obtain rfl | rfl := h
    all_goals decide
  | mtxTDownload =>
    obtain rfl : m' = .mtxTUpdate := by simpa [Threads.after] using h
    decide
  | mtxTUpdate => cases h

/-- **The calls come to rest**, and where they do so without having returned,
a thread that holds `mtxTDownload` and one that holds `mtxTDeque` wait for
each other's mutex, for ever. No run without a call of `GetTorrentsForDownload`
ends so. -/
theorem calls_rest (h : (threadMachine θ).Reachable s) :
    Acc (Next exec) s ∧
      (Stuck exec s → (∀ t, s.code t = []) ∨
        (∃ t t', ∀ s', (threadMachine θ).Leads s s' →
          Embraced s' t t' .mtxTDownload .mtxTDeque) ∧
        ¬ (threadMachine θ).ReachableUnder (fun _ a => a.Begins DequeFirst) s) := by
  refine ⟨acc_of_reachable descends h, fun hstuck => ?_⟩
  by_cases hidle : ∀ t, s.code t = []
  · exact .inl hidle
  obtain ⟨t, hbusy⟩ := not_forall.mp hidle
  refine .inr ⟨?_, fun hunder => hidle ?_⟩
  · obtain ⟨t, t', he⟩ := embraced_of_stuck (kept_of_calls h) hstuck hbusy
    exact ⟨t, t', fun s' hl => embraced_of_leads he hl⟩
  -- without `GetTorrentsForDownload` the mutexes have an order
  · refine Stuck.idle (kept_of_reachable (disciplined false) (hunder.mono fun _ a ha => ?_))
      wellFounded_after hstuck
    cases a with
    | begin t r => exact .inr ha
    | advance t => trivial

/-- Daemon `a` reports a torrent, and a second one while `b` fetches the first. -/
def embrace : List (Action Bool Request) :=
  let a : DaemonInfo := ⟨"a", "Some tocken", .ok⟩
  let b : DaemonInfo := ⟨"b", "Some tocken", .ok⟩
  calls true (.handshake "a") 12 ++ (calls true (.handshake "b") 8 ++
    (calls true (.updateTorrentStatus a ⟨"1", "magnet:1", "", .generated, 100, ""⟩) 18 ++
      (calls false (.getTorrentsForDownload b) 6 ++
        calls true (.updateTorrentStatus a ⟨"2", "magnet:2", "", .generated, 100, ""⟩) 8)))

/-- **Two daemons can stop the server.** -/
theorem embrace_rests : ∃ s : LockState Bool ServerMutex ServerOp ServerData,
    (threadMachine Bool).Reachable s ∧ Stuck exec s ∧ ∃ t t', ∀ s',
      (threadMachine Bool).Leads s s' → Embraced s' t t' .mtxTDownload .mtxTDeque := by
  have hrun : (((threadMachine Bool).exec ⟨fun _ => [], fun _ => .free, ⟨⟨.new, true⟩, []⟩⟩
      embrace).any fun s => (advance exec s true).isNone && (advance exec s false).isNone &&
        !(s.code true).isEmpty) = true := by
    decide
  obtain ⟨s, hs, hend⟩ := (Option.any_eq_true ..).mp hrun
  simp only [Bool.and_eq_true, Option.isNone_iff_eq_none, Bool.not_eq_true',
    List.isEmpty_eq_false_iff] at hend
  obtain ⟨⟨htrue, hfalse⟩, hbusy⟩ := hend
  have hr : (threadMachine Bool).Reachable s := System.reachable_of_exec embrace rfl hs
  have hstuck : Stuck exec s := fun t => by
    cases t with
    | false => exact hfalse
    | true => exact htrue
  exact ⟨s, hr, hstuck, (((calls_rest hr).2 hstuck).resolve_left fun h => hbusy (h true)).1⟩

end Runs

end Server

end VerAI
