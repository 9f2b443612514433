import VerAI.Server.Ledger
/-!
# Which tasks a daemon is handed

The tasks queued for a daemon are handed to it in their order and none twice.
So they can be counted from the calls made: what each kind of task was queued
for tells how many of it a daemon gets.
-/

namespace VerAI

namespace Server

open Transition (System)
open Client (TaskType)
open Torrent (RpcTorrentInfo)

/-- The daemon of the first handshake. -/
def firstHandshake (as : List Request) : Option String :=
  as.findSome? fun a => match a with
    | .handshake uuid => some uuid
    | _ => none

/-- A daemon reports a torrent it has not finished. -/
def isUnfinishedReport (e : String) : Request → Bool
  | .updateTorrentStatus dInfo tInfo =>
    dInfo.uuid = e ∧ tInfo.status ≠ .generated ∧ tInfo.status ≠ .downloaded
  | _ => false

section

variable {e : String} {s : ServerState} {as : List Request}

/-- The first handshake of a server just started, taken as a list. -/
def opening (s : ServerState) : Request → List String
  | .handshake uuid => if s.isFirst then [uuid] else []
  | _ => []

/-- The flag of the first handshake is cleared by one. -/
theorem isFirst_step {a : Request} : (serverStep s a).isFirst =
    (s.isFirst && (firstHandshake [a]).isNone) := by
  cases a with
  | handshake uuid => simp [serverStep, firstHandshake]
  | _ => simp [serverStep, firstHandshake]

/-- So the task that comes with it is given once in a run. -/
theorem collect_opening (s : ServerState) (as : List Request) :
    serverMachine.collect opening s as = if s.isFirst then (firstHandshake as).toList else [] := by
  induction as generalizing s with
  | nil => simp [firstHandshake]
  | cons a as ih =>
    rw [collect_cons, ih, isFirst_step]
    cases hfirst : s.isFirst with
    | false => cases a <;> simp [opening, hfirst]
    | true => cases a <;> simp [opening, hfirst, firstHandshake]

/-- A list without empty answers. -/
def nonempty (answers : List (List RpcTorrentInfo)) : List (List RpcTorrentInfo) :=
  answers.filter fun list => list ≠ []

/-- `GENERATE_MAGENT` is queued by the first handshake only. -/
theorem count_generateMagent {a : Request} :
    (queues e s a).count .generateMagent = (opening s a).count e := by
  cases a with
  | handshake uuid =>
    cases hfirst : s.isFirst with
    | true => by_cases he : uuid = e <;> simp [queues, opening, hfirst, he]
    | false => simp [queues, opening, hfirst, List.count_eq_zero]
  | updateTorrentStatus dInfo tInfo =>
    simp only [queues, opening, List.count_nil, List.count_eq_zero]
    split
    · simp
    · split
      all_goals simp
  | getTorrentsForDownload info =>
    simp only [queues, opening, List.count_nil, List.count_eq_zero]
    split
    all_goals simp
  | _ => rfl

/-- `UPDATE_TORRENT_STATUS` is queued by the first handshake, a report of an
unfinished torrent and a fetch that brings something. -/
theorem count_updateTorrentStatus {a : Request} : (queues e s a).count .updateTorrentStatus =
    (opening s a).count e + (isUnfinishedReport e a).toNat +
      (nonempty (fetched e s a)).length := by
  cases a with
  | handshake uuid =>
    cases hfirst : s.isFirst with
    | true =>
      by_cases he : uuid = e <;>
        simp [queues, opening, hfirst, he, isUnfinishedReport, fetched, nonempty]
    | false =>
      simp [queues, opening, hfirst, isUnfinishedReport, fetched, nonempty, List.count_eq_zero]
  | updateTorrentStatus dInfo tInfo =>
    simp only [queues, opening, isUnfinishedReport, fetched, nonempty]
    by_cases hg : tInfo.status = .generated
    · simp [hg, List.count_eq_zero]
    · by_cases he : dInfo.uuid = e <;> by_cases hd : tInfo.status = .downloaded <;>
        simp [hg, he, hd]
  | getTorrentsForDownload info =>
    simp only [queues, opening, isUnfinishedReport, fetched, nonempty, getTorrentsForDownload_fst]
    by_cases he : info.uuid = e
    · subst he
      by_cases hd : s.handler.downloads info.uuid = [] <;> simp [hd]
    · simp [he]
  | _ => rfl

/-- Nothing else is queued but `DOWNLOAD_TORRENT`. -/
theorem mem_queues {a : Request} {task : TaskType} (h : task ∈ queues e s a) :
    task = .generateMagent ∨ task = .updateTorrentStatus ∨ task = .downloadTorrent := by
  cases a with
  | handshake uuid =>
    simp only [queues] at h
    split at h
    · split at h
      · simp only [List.mem_cons, List.not_mem_nil, or_false] at h
        exact h.imp_right .inl
      · cases h
    · simp only [List.mem_map] at h
      obtain ⟨-, -, rfl⟩ := h
      exact .inr (.inr rfl)
  | updateTorrentStatus dInfo tInfo =>
    simp only [queues] at h
    split at h
    · simp only [List.mem_map] at h
      obtain ⟨-, -, rfl⟩ := h
      exact .inr (.inr rfl)
    · split at h
      · exact .inr (.inl (List.mem_singleton.mp h))
      · cases h
  | getTorrentsForDownload info =>
    simp only [queues] at h
    split at h
    · exact .inr (.inl (List.mem_singleton.mp h))
    · cases h
  | _ => cases h

/-- The polls of a run, counted call by call. -/
theorem collect_updateTorrentStatus (s : ServerState) (as : List Request) :
    (serverMachine.collect (queues e) s as).count .updateTorrentStatus =
      (serverMachine.collect opening s as).count e + as.countP (isUnfinishedReport e) +
        (nonempty (serverMachine.collect (fetched e) s as)).length := by
  induction as generalizing s with
  | nil => rfl
  | cons a as ih =>
    have hone := count_updateTorrentStatus (e := e) (s := s) (a := a)
    -- the first call's share of the three counts, and that of the others
    have hcons : (isUnfinishedReport e a).toNat + as.countP (isUnfinishedReport e) =
        (a :: as).countP (isUnfinishedReport e) := by
      rw [List.countP_cons]
      cases isUnfinishedReport e a <;> simp [Nat.add_comm]
    have hsplit : ∀ l l' : List (List RpcTorrentInfo),
        (nonempty (l ++ l')).length = (nonempty l).length + (nonempty l').length := fun l l' => by
      rw [nonempty, List.filter_append, List.length_append]
      rfl
    simp only [collect_cons, List.count_append, hsplit, ← hcons, ih, hone]
    omega

/-- **The tasks of a daemon**, handed over or still queued: one
`GENERATE_MAGENT` for the daemon of the first handshake and none for any
other; an `UPDATE_TORRENT_STATUS` for that handshake, for each report of an
unfinished torrent and for each answer that gives it torrents to download; and
otherwise only `DOWNLOAD_TORRENT`. -/
theorem tasks_counted (e : String) (as : List Request) :
    let given := collected (handed e) as ++ (after as).handler.queued e
    given.count .generateMagent = (firstHandshake as).toList.count e ∧
    given.count .updateTorrentStatus = (firstHandshake as).toList.count e +
      as.countP (isUnfinishedReport e) + (nonempty (collected (fetched e) as)).length ∧
    ∀ task ∈ given, task = .generateMagent ∨ task = .updateTorrentStatus ∨
      task = .downloadTorrent := by
  have hopening : collected opening as = (firstHandshake as).toList := collect_opening _ as
  simp only [← queues_balance, ← hopening]
  refine ⟨?_, collect_updateTorrentStatus _ as, fun task htask => ?_⟩
  · exact collected_rel (R := fun l l' => l.count TaskType.generateMagent = l'.count e) rfl
      (fun l l' k k' h h' => by rw [List.count_append, List.count_append, h, h'])
      fun _ _ _ => count_generateMagent
  · obtain ⟨-, a, -, t, -, -, h⟩ := System.mem_collect htask
    exact mem_queues h

end

end Server

end VerAI
