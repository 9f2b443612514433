import VerAI.Lib.Ledger
import VerAI.Server.Offers
import Mathlib.Data.List.Induction
import Mathlib.Data.List.Perm.Subperm
/-!
# What becomes of the torrents reported

A torrent reported as generated goes through the queue to the download list of
one daemon, and from there into an answer of `GetTorrentsForDownload`. The
ledger of a run sets what came in against what went out: the reports against
the torrents dealt, the torrents dealt to a daemon against what it was
answered, and the tasks given to it against what it was handed.
-/

namespace VerAI

namespace Server

open Transition (System)
open Client (DaemonInfo Event TaskType)
open Torrent (RpcTorrentInfo)

/-- What the server answers. -/
def answer (s : ServerState) : Request → Event
  | .handshake uuid => .handshake true (handshake uuid s.isFirst s.handler).1
  | .updateTorrentStatus _ _ => .reported
  | .getTaskList info => .tasks (getTaskList info s.handler).1
  | .getInfoForGenerateTorrents info newUuid =>
    .torrents (getInfoForGenerateTorrents info newUuid s.handler).1
  | .getTorrentsForUpdateStatus info => .torrents (getTorrentsForUpdateStatus info s.handler)
  | .getTorrentsForDownload info => .torrents (getTorrentsForDownload info s.handler).1

/-- The torrent a call puts into the queue. -/
def reported : Request → List RpcTorrentInfo
  | .updateTorrentStatus _ tInfo =>
    if tInfo.status = .generated ∧ tInfo.link.isEmpty = false then [tInfo] else []
  | _ => []

/-- The torrents a call takes off the queue, with the daemon each is for. -/
def deals (s : ServerState) : Request → List (String × RpcTorrentInfo)
  | .handshake uuid => if s.isFirst then [] else [uuid].zip s.handler.torrentDeque
  | .updateTorrentStatus dInfo tInfo =>
    if tInfo.status = .generated ∧ tInfo.link.isEmpty = false then
      dealt dInfo.uuid tInfo s.handler
    else []
  | _ => []

/-- Those among them that are for one daemon. -/
def shareOf (e : String) (dealt : List (String × RpcTorrentInfo)) : List RpcTorrentInfo :=
  (dealt.filter fun d => d.1 = e).map Prod.snd

/-- The torrents of a list put on another one by one. -/
def merged (list added : List RpcTorrentInfo) : List RpcTorrentInfo :=
  added.foldl (fun list info => updateOrAdd info list) list

/-- The answers of `GetTorrentsForDownload` to one daemon. -/
def fetched (e : String) (s : ServerState) : Request → List (List RpcTorrentInfo)
  | .getTorrentsForDownload info =>
    if info.uuid = e then [(getTorrentsForDownload info s.handler).1] else []
  | _ => []

/-- The tasks `GetTaskList` hands to one daemon. -/
def handed (e : String) (s : ServerState) : Request → List TaskType
  | .getTaskList info => if info.uuid = e then (getTaskList info s.handler).1 else []
  | _ => []

/-- The tasks a call queues for one daemon. -/
def queues (e : String) (s : ServerState) : Request → List TaskType
  | .handshake uuid =>
    if s.isFirst then if uuid = e then [.generateMagent, .updateTorrentStatus] else []
    else (shareOf e (deals s (.handshake uuid))).map fun _ => .downloadTorrent
  | .updateTorrentStatus dInfo tInfo =>
    if tInfo.status = .generated then
      (shareOf e (deals s (.updateTorrentStatus dInfo tInfo))).map fun _ => .downloadTorrent
    else if dInfo.uuid = e ∧ tInfo.status ≠ .downloaded then [.updateTorrentStatus] else []
  | .getTorrentsForDownload info =>
    if info.uuid = e ∧ s.handler.downloads e ≠ [] then [.updateTorrentStatus] else []
  | _ => []

/-! ## The queue is dealt out -/

section

variable {e : String} {es : List String} {s s' : ServerHandler}

/-- The share of a daemon in two deals, one after the other. -/
theorem shareOf_append {l l' : List (String × RpcTorrentInfo)} :
    shareOf e (l ++ l') = shareOf e l ++ shareOf e l' := by
  rw [shareOf, List.filter_append, List.map_append]
  rfl

/-- Its share in a deal that begins with a torrent. -/
theorem shareOf_cons {p : String × RpcTorrentInfo} {l : List (String × RpcTorrentInfo)} :
    shareOf e (p :: l) = (if p.1 = e then [p.2] else []) ++ shareOf e l := by
  by_cases h : p.1 = e
  · simp [shareOf, h]
  · simp [shareOf, h]

/-- To merge two lists is to merge one after the other. -/
theorem merged_append {list l l' : List RpcTorrentInfo} :
    merged list (l ++ l') = merged (merged list l) l' :=
  List.foldl_append ..

/-- A round of deals takes one torrent for each daemon off the queue. -/
theorem torrentDeque_deal : (es.foldl (fun s e => downloadTorrent e s) s).torrentDeque =
    s.torrentDeque.drop es.length := by
  induction es generalizing s with
  | nil => rfl
  | cons e' es ih =>
    rw [List.foldl_cons, ih, torrentDeque_downloadTorrent, List.drop_drop, List.length_cons,
      Nat.add_comm]

/-- What it adds to the download list of a daemon is its share. -/
theorem downloads_deal : (es.foldl (fun s e => downloadTorrent e s) s).downloads e =
    merged (s.downloads e) (shareOf e (es.zip s.torrentDeque)) := by
  induction es generalizing s with
  | nil => rfl
  | cons e' es ih =>
    rw [List.foldl_cons, ih, torrentDeque_downloadTorrent, downloads_downloadTorrent]
    cases hdeque : s.torrentDeque with
    | nil => simp [shareOf]
    | cons first rest =>
      rw [List.zip_cons_cons, shareOf_cons, merged_append]
      by_cases he : e' = e
      · simp [he, merged]
      · simp [he, merged]

/-- And a task for each torrent of the share. -/
theorem queued_deal : (es.foldl (fun s e => downloadTorrent e s) s).queued e =
    s.queued e ++ (shareOf e (es.zip s.torrentDeque)).map fun _ => .downloadTorrent := by
  induction es generalizing s with
  | nil => simp [shareOf]
  | cons e' es ih =>
    rw [List.foldl_cons, ih, torrentDeque_downloadTorrent, queued_downloadTorrent]
    cases hdeque : s.torrentDeque with
    | nil => simp [shareOf]
    | cons first rest =>
      rw [List.zip_cons_cons, shareOf_cons]
      by_cases he : e' = e
      · simp [he]
      · simp [he]

/-- What is dealt and what is left are the queue. -/
theorem map_snd_zip_append_drop {l : List RpcTorrentInfo} :
    (es.zip l).map Prod.snd ++ l.drop es.length = l := by
  induction es generalizing l with
  | nil => rfl
  | cons e es ih =>
    cases l with
    | nil => rfl
    | cons first rest =>
      rw [List.zip_cons_cons, List.map_cons, List.length_cons, List.drop_succ_cons,
        List.cons_append, ih]

end

/-! ## One call -/

section

variable {e : String} {s : ServerState} {a : Request} {h h' : ServerHandler}

/-- `AddTask` queues a task for the one daemon. -/
theorem queued_addTask {id : String} {taskType : TaskType} : (addTask id taskType h).queued e =
    h.queued e ++ if id = e then [taskType] else [] := by
  simp only [ServerHandler.queued, addTask, Std.TreeMap.getD_insert,
    Std.LawfulEqCmp.compare_eq_iff_eq]
  by_cases hid : id = e
  · simp [hid]
  · simp [hid]

/-- A daemon with an entry has a torrent to download. -/
def Listed (h : ServerHandler) : Prop :=
  ∀ (e : String) (list : List RpcTorrentInfo), h.t2DownloadMap[e]? = some list → list ≠ []

/-- A deal keeps the download lists merged. -/
theorem listed_downloadTorrent {id : String} (hl : Listed h) : Listed (downloadTorrent id h) := by
  intro e list hlist
  unfold downloadTorrent at hlist
  split at hlist
  · exact hl e list hlist
  · simp only [addTask, add2DownloadList, updateOrAddTorrent, Std.TreeMap.getElem?_insert] at hlist
    split at hlist
    · obtain rfl := Option.some.inj hlist
      cases h.t2DownloadMap.getD id [] with
      | nil => exact List.cons_ne_nil _ _
      | cons it rest =>
        rw [updateOrAdd]
        split
        · exact List.cons_ne_nil _ _
        · exact List.cons_ne_nil _ _
    · exact hl e list hlist

/-- So does a round of deals. -/
theorem listed_deal {es : List String} (hl : Listed h) :
    Listed (es.foldl (fun s e => downloadTorrent e s) h) := by
  induction es generalizing h with
  | nil => exact hl
  | cons e es ih => exact ih (listed_downloadTorrent hl)

/-- **What a call does** to the queue, to the download list of a daemon and to
its tasks. -/
structure Entry (e : String) (s : ServerState) (a : Request) : Prop where
  queue : s.handler.torrentDeque ++ reported a =
    (deals s a).map Prod.snd ++ (serverStep s a).handler.torrentDeque
  list : fetched e s a = [] ∧ (serverStep s a).handler.downloads e =
      merged (s.handler.downloads e) (shareOf e (deals s a)) ∨
    fetched e s a = [s.handler.downloads e] ∧ shareOf e (deals s a) = [] ∧
      (serverStep s a).handler.downloads e = []
  tasks : s.handler.queued e ++ queues e s a = handed e s a ++ (serverStep s a).handler.queued e

/-- A call that deals the queue out. -/
theorem entry_of_deal (es : List String) (h : ServerHandler)
    (hstep : (serverStep s a).handler = es.foldl (fun s e => downloadTorrent e s) h)
    (hdeals : deals s a = es.zip h.torrentDeque)
    (hqueue : h.torrentDeque = s.handler.torrentDeque ++ reported a)
    (hlist : h.t2DownloadMap = s.handler.t2DownloadMap) (htasks : h.tasks = s.handler.tasks)
    (hfetched : fetched e s a = []) (hhanded : handed e s a = [])
    (hqueues : queues e s a = (shareOf e (deals s a)).map fun _ => .downloadTorrent) :
    Entry e s a where
  queue := by
    rw [hstep, torrentDeque_deal, hdeals, ← hqueue, map_snd_zip_append_drop]
  list := .inl ⟨hfetched, by
    rw [hstep, downloads_deal, hdeals, ServerHandler.downloads, ServerHandler.downloads, hlist]⟩
  tasks := by
    rw [hstep, queued_deal, hqueues, hdeals, hhanded, ServerHandler.queued, ServerHandler.queued,
      htasks]
    rfl

/-- A call that deals nothing out. -/
theorem entry_of_quiet (tasks : List TaskType) (hreported : reported a = [])
    (hdeals : deals s a = [])
    (hqueue : (serverStep s a).handler.torrentDeque = s.handler.torrentDeque)
    (hlist : (serverStep s a).handler.t2DownloadMap = s.handler.t2DownloadMap)
    (hfetched : fetched e s a = []) (hhanded : handed e s a = [])
    (hqueues : queues e s a = tasks)
    (htasks : (serverStep s a).handler.queued e = s.handler.queued e ++ tasks) :
    Entry e s a where
  queue := by rw [hreported, hdeals, hqueue, List.append_nil, List.map_nil, List.nil_append]
  list := .inl ⟨hfetched, by
    rw [hdeals, ServerHandler.downloads, ServerHandler.downloads, hlist]
    rfl⟩
  tasks := by rw [hqueues, htasks, hhanded, List.nil_append]

/-- The ledger of a handshake. -/
theorem entry_handshake (uuid : String) : Entry e s (.handshake uuid) := by
  cases hfirst : s.isFirst with
  | true =>
    refine entry_of_quiet _ rfl (by simp [deals, hfirst]) ?_ ?_ rfl rfl
      (by simp only [queues, hfirst, if_true]; rfl) ?_
    · simp only [serverStep, handshake, hfirst, if_true]
      rfl
    · simp only [serverStep, handshake, hfirst, if_true]
      rfl
    · simp only [serverStep, handshake, hfirst, if_true, queued_addTask]
      by_cases he : uuid = e
      · simp [he, ServerHandler.queued]
      · simp [he, ServerHandler.queued]
  | false =>
    refine entry_of_deal [uuid]
      { s.handler with uuids := s.handler.uuids.insert uuid } ?_ ?_ ?_ rfl rfl rfl rfl ?_
    · simp [serverStep, handshake, hfirst]
    · simp [deals, hfirst]
    · simp [reported]
    · simp [queues, hfirst]

/-- The ledger of a report, one case for each status. -/
theorem entry_updateTorrentStatus (dInfo : DaemonInfo) (tInfo : RpcTorrentInfo) :
    Entry e s (.updateTorrentStatus dInfo tInfo) := by
  by_cases hg : tInfo.status = .generated
  · cases hl : tInfo.link.isEmpty with
    | true =>
      have hstep : (serverStep s (.updateTorrentStatus dInfo tInfo)).handler = s.handler := by
        simp [serverStep, updateTorrentStatus, hg, hl]
      refine entry_of_quiet [] ?_ ?_ ?_ ?_ rfl rfl ?_ ?_
      · simp [reported, hl]
      · simp [deals, hl]
      · rw [hstep]
      · rw [hstep]
      · simp [queues, hg, deals, hl, shareOf]
      · rw [hstep, List.append_nil]
    | false =>
      refine entry_of_deal (others dInfo.uuid s.handler)
        (removeFromUpdateList dInfo.uuid tInfo
          { s.handler with torrentDeque := s.handler.torrentDeque ++ [tInfo] })
        (updateTorrentStatus_generated hg hl) ?_ ?_ rfl rfl rfl rfl ?_
      · simp [deals, hg, hl, dealt, removeFromUpdateList]
      · simp [reported, hg, hl, removeFromUpdateList]
      · simp [queues, hg]
  · have hnone : reported (.updateTorrentStatus dInfo tInfo) = [] := by simp [reported, hg]
    have hdeals : deals s (.updateTorrentStatus dInfo tInfo) = [] := by simp [deals, hg]
    by_cases hd : tInfo.status = .downloaded
    · have hstep : (serverStep s (.updateTorrentStatus dInfo tInfo)).handler =
          removeFromUpdateList dInfo.uuid tInfo s.handler := by
        simp [serverStep, updateTorrentStatus, hd]
      refine entry_of_quiet [] hnone hdeals ?_ ?_ rfl rfl ?_ ?_
      · rw [hstep]
        rfl
      · rw [hstep]
        rfl
      · simp [queues, hd]
      · rw [hstep, List.append_nil]
        rfl
    · have hstep : (serverStep s (.updateTorrentStatus dInfo tInfo)).handler =
          addTask dInfo.uuid .updateTorrentStatus s.handler :=
        updateTorrentStatus_eq_addTask hg hd
      refine entry_of_quiet (if dInfo.uuid = e then [.updateTorrentStatus] else []) hnone hdeals
        ?_ ?_ rfl rfl ?_ ?_
      · rw [hstep]
        rfl
      · rw [hstep]
        rfl
      · simp [queues, hg, hd]
      · rw [hstep, queued_addTask]

/-- The ledger of a poll: the queued tasks are handed out. -/
theorem entry_getTaskList (info : DaemonInfo) : Entry e s (.getTaskList info) where
  queue := List.append_nil _
  list := .inl ⟨rfl, rfl⟩
  tasks := by
    simp only [queues, handed, serverStep, getTaskList, ServerHandler.queued,
      Std.TreeMap.getD_erase, Std.LawfulEqCmp.compare_eq_iff_eq]
    by_cases he : info.uuid = e
    · simp [he]
    · simp [he]

/-- The ledger of a question what to generate. -/
theorem entry_getInfoForGenerateTorrents (info : DaemonInfo) (newUuid : String) :
    Entry e s (.getInfoForGenerateTorrents info newUuid) := by
  by_cases hin : s.handler.uuids.contains info.uuid = true
  · refine entry_of_quiet [] rfl rfl ?_ ?_ rfl rfl rfl ?_
    all_goals simp [serverStep, getInfoForGenerateTorrents, hin, add2UpdateList,
      ServerHandler.queued]
  · refine entry_of_quiet [] rfl rfl ?_ ?_ rfl rfl rfl ?_
    all_goals simp [serverStep, getInfoForGenerateTorrents, hin]

/-- The handler after the torrents of a list were put on the update list. -/
theorem foldl_add2UpdateList (id : String) (list : List RpcTorrentInfo) (h : ServerHandler) :
    list.foldl (fun s item => add2UpdateList id item s) h =
      { h with t2UpdateMap :=
        list.foldl (fun infoMap item => updateOrAddTorrent id item infoMap) h.t2UpdateMap } := by
  induction list generalizing h with
  | nil => rfl
  | cons item list ih =>
    rw [List.foldl_cons, ih]
    rfl

/-- The ledger of a fetch: the download list is handed out. -/
theorem entry_getTorrentsForDownload (hs : Listed s.handler) (info : DaemonInfo) :
    Entry e s (.getTorrentsForDownload info) := by
  have hqueue : (serverStep s (.getTorrentsForDownload info)).handler.torrentDeque =
      s.handler.torrentDeque := by
    simp only [serverStep, getTorrentsForDownload, foldl_add2UpdateList]
    split
    all_goals rfl
  have hdeals : shareOf e (deals s (.getTorrentsForDownload info)) = [] := rfl
  have hempty : s.handler.downloads info.uuid = [] ↔
      s.handler.t2DownloadMap[info.uuid]? = none := by
    rw [ServerHandler.downloads, Std.TreeMap.getD_eq_getD_getElem?]
    cases hmap : s.handler.t2DownloadMap[info.uuid]? with
    | none => simp
    | some list => simpa using hs _ _ hmap
  cases hmap : s.handler.t2DownloadMap[info.uuid]? with
  | none =>
    have hnone := hempty.mpr hmap
    have hstep : (serverStep s (.getTorrentsForDownload info)).handler = s.handler := by
      simp only [serverStep, getTorrentsForDownload, hmap]
    refine ⟨by rw [hstep]; exact List.append_nil _, ?_, ?_⟩
    · by_cases he : info.uuid = e
      · subst he
        exact .inr ⟨by simp only [fetched, if_true, getTorrentsForDownload_fst], rfl,
          by rw [hstep, hnone]⟩
      · exact .inl ⟨by simp only [fetched, if_neg he], by rw [hstep]; rfl⟩
    · have hnot : ¬ (info.uuid = e ∧ s.handler.downloads e ≠ []) := by
        rintro ⟨rfl, hne⟩
        exact hne hnone
      rw [hstep, queues, if_neg hnot, List.append_nil]
      rfl
  | some list =>
    have hsome : s.handler.downloads info.uuid ≠ [] := fun h => by
      rw [hempty.mp h] at hmap
      cases hmap
    refine ⟨by rw [hqueue]; exact List.append_nil _, ?_, ?_⟩
    · have hlist : (serverStep s (.getTorrentsForDownload info)).handler.downloads e =
          if info.uuid = e then [] else s.handler.downloads e := by
        simp only [serverStep, getTorrentsForDownload, hmap, foldl_add2UpdateList,
          ServerHandler.downloads, addTask, Std.TreeMap.getD_erase,
          Std.LawfulEqCmp.compare_eq_iff_eq]
      by_cases he : info.uuid = e
      · subst he
        exact .inr ⟨by simp only [fetched, if_true, getTorrentsForDownload_fst], rfl,
          by rw [hlist, if_pos rfl]⟩
      · exact .inl ⟨by simp only [fetched, if_neg he], by rw [hlist, if_neg he]; rfl⟩
    · have htasks : (serverStep s (.getTorrentsForDownload info)).handler.queued e =
          s.handler.queued e ++ if info.uuid = e then [.updateTorrentStatus] else [] := by
        simp only [serverStep, getTorrentsForDownload, hmap, foldl_add2UpdateList, queued_addTask]
        rfl
      rw [htasks, queues]
      by_cases he : info.uuid = e
      · subst he
        rw [if_pos ⟨rfl, hsome⟩, if_pos rfl]
        rfl
      · rw [if_neg fun h => he h.1, if_neg he]
        rfl

/-- **What any call does.** -/
theorem entry (hs : Listed s.handler) : Entry e s a := by
  cases a with
  | handshake uuid => exact entry_handshake uuid
  | updateTorrentStatus dInfo tInfo => exact entry_updateTorrentStatus dInfo tInfo
  | getTaskList info => exact entry_getTaskList info
  | getInfoForGenerateTorrents info newUuid => exact entry_getInfoForGenerateTorrents info newUuid
  | getTorrentsForUpdateStatus info =>
    exact entry_of_quiet [] rfl rfl rfl rfl rfl rfl rfl (List.append_nil _).symm
  | getTorrentsForDownload info => exact entry_getTorrentsForDownload hs info

/-- Every call keeps the download lists merged. -/
theorem listed_step (hs : Listed s.handler) : Listed (serverStep s a).handler := by
  cases a with
  | handshake uuid =>
    cases hfirst : s.isFirst with
    | true =>
      simp only [serverStep, handshake, hfirst, if_true]
      exact hs
    | false =>
      simp only [serverStep, handshake, hfirst, Bool.false_eq_true, if_false]
      exact listed_downloadTorrent hs
  | updateTorrentStatus dInfo tInfo =>
    by_cases hg : tInfo.status = .generated
    · cases hl : tInfo.link.isEmpty with
      | true =>
        simp only [serverStep, updateTorrentStatus, hg, hl, if_true]
        exact hs
      | false =>
        simp only [serverStep, updateTorrentStatus_generated hg hl]
        exact listed_deal hs
    · by_cases hd : tInfo.status = .downloaded
      · simp only [serverStep, updateTorrentStatus, hd]
        exact hs
      · simp only [serverStep, updateTorrentStatus_eq_addTask hg hd]
        exact hs
  | getTaskList info => exact hs
  | getInfoForGenerateTorrents info newUuid =>
    simp only [serverStep, getInfoForGenerateTorrents]
    split
    · exact hs
    · exact hs
  | getTorrentsForUpdateStatus info => exact hs
  | getTorrentsForDownload info =>
    simp only [serverStep, getTorrentsForDownload, foldl_add2UpdateList]
    split
    · intro e list hlist
      simp only [addTask, Std.TreeMap.getElem?_erase] at hlist
      exact hs e list (Option.ite_none_left_eq_some.mp hlist).2
    · exact hs

/-- So they are in every run. -/
theorem listed_of_reachable (h : serverMachine.Reachable s) : Listed s.handler := by
  refine h.invariant (I := fun s => Listed s.handler) ?_ ?_
  · rintro s rfl e list hlist
    simp [ServerHandler.new] at hlist
  · intro s a s' hs _ hstep
    obtain rfl := Option.some.inj hstep
    exact listed_step hs

end

/-! ## A run -/

/-- The server after these calls. -/
def after (as : List Request) : ServerState := as.foldl serverStep ⟨.new, true⟩

/-- What the calls of a run give out. -/
def collected {β : Type} (out : ServerState → Request → List β) (as : List Request) : List β :=
  serverMachine.collect out ⟨.new, true⟩ as

/-- **The balance of a run.** The torrents dealt are those reported, in the
order of the reports, up to those still queued. What a daemon was dealt falls
into consecutive parts, and each of its answers is the torrents of one part,
with the last information of an id; the last part stands on its list. It has
been given one task for each torrent it was dealt. -/
structure Balanced (as : List Request) (dealt : List (String × RpcTorrentInfo)) : Prop where
  inOrder : dealt.map Prod.snd ++ (after as).handler.torrentDeque = as.flatMap reported
  answered : ∀ e, ∃ parts : List (List RpcTorrentInfo), parts.flatten = shareOf e dealt ∧
    parts.map (merged []) = collected (fetched e) as ++ [(after as).handler.downloads e]
  announced : ∀ e, (collected (handed e) as ++ (after as).handler.queued e).count .downloadTorrent =
    (shareOf e dealt).length

section

variable {e id : String} {s s' : ServerState} {a : Request} {as : List Request}

/-- The server refuses no call, so a run of it is a fold. -/
theorem exec_serverMachine (s : ServerState) (as : List Request) :
    serverMachine.exec s as = some (as.foldl serverStep s) := by
  induction as generalizing s with
  | nil => rfl
  | cons a as ih => exact ih _

/-- The same from its start. -/
theorem exec_after (as : List Request) :
    serverMachine.exec ⟨.new, true⟩ as = some (after as) := exec_serverMachine _ as

/-- The last call of a run. -/
theorem collected_concat {β : Type} (out : ServerState → Request → List β) (as : List Request)
    (a : Request) : collected out (as ++ [a]) = collected out as ++ out (after as) a := by
  rw [collected, System.collect_append (exec_after as), System.collect_cons rfl, System.collect_nil,
    List.append_nil]
  rfl

/-- Two ledgers of a run are related where those of every call are. -/
theorem collected_rel {β γ : Type} {out : ServerState → Request → List β}
    {out' : ServerState → Request → List γ} {R : List β → List γ → Prop} (hnil : R [] [])
    (happend : ∀ l l' k k', R l l' → R k k' → R (l ++ k) (l' ++ k'))
    (hstep : ∀ s a, serverMachine.Reachable s → R (out s a) (out' s a)) :
    R (collected out as) (collected out' as) :=
  System.collect_rel hnil happend (fun s a _ hs _ => hstep s a hs) (.init rfl) (exec_after as)

/-- The tasks queued for a daemon are handed to it in their order. -/
theorem queues_balance (e : String) (as : List Request) :
    collected (queues e) as = collected (handed e) as ++ (after as).handler.queued e := by
  refine System.exec_balance (M := serverMachine) (fun s => s.handler.queued e) _ _ ?_
    (.init rfl) (exec_after as)
  intro s a s' hs hstep
  obtain rfl := Option.some.inj hstep
  exact (entry (listed_of_reachable hs)).tasks

/-- The ledger of a run begins with that of its first call. -/
theorem collect_cons {β : Type} {out : ServerState → Request → List β} :
    serverMachine.collect out s (a :: as) =
      out s a ++ serverMachine.collect out (serverStep s a) as :=
  System.collect_cons rfl

/-- The reports do not depend on the state of the server. -/
theorem collect_reported (s : ServerState) (as : List Request) :
    serverMachine.collect (fun _ => reported) s as = as.flatMap reported := by
  induction as generalizing s with
  | nil => rfl
  | cons a as ih =>
    rw [collect_cons, ih, List.flatMap_cons]

/-- **Every run is balanced**: no torrent reported is lost, dealt twice or
dealt out of turn. -/
theorem balanced (as : List Request) : ∃ dealt, Balanced as dealt := by
  refine ⟨collected deals as, ?_, fun e => ?_, fun e => ?_⟩
  -- the queue: what is pushed is what is dealt and what is left of it
  · have hbalance := System.exec_balance (M := serverMachine)
      (fun s => s.handler.torrentDeque) (fun _ => reported)
      (fun s a => (deals s a).map Prod.snd) (fun s a s' hs hstep => by
        obtain rfl := Option.some.inj hstep
        exact (entry (e := "") (listed_of_reachable hs)).queue)
      (.init rfl) (exec_after as)
    have hmap : (collected deals as).map Prod.snd =
        collected (fun s a => (deals s a).map Prod.snd) as :=
      collected_rel (R := fun l l' => l.map Prod.snd = l') rfl
        (fun l l' k k' h h' => by rw [List.map_append, h, h']) fun _ _ _ => rfl
    rw [hmap, ← collect_reported ⟨.new, true⟩ as]
    exact hbalance.symm
  -- the list of a daemon: each answer of `GetTorrentsForDownload` ends a part
  · have hshare :
        collected (fun s a => shareOf e (deals s a)) as = shareOf e (collected deals as) :=
      collected_rel (R := fun l l' => l = shareOf e l') rfl
        (fun l l' k k' h h' => by rw [shareOf_append, h, h']) fun _ _ _ => rfl
    obtain ⟨parts, hflat, hmap⟩ := System.exec_parts (M := serverMachine)
      (fun s => s.handler.downloads e) (fun s a => shareOf e (deals s a)) (fetched e) (merged [])
      (fun s a s' hs hstep => by
        obtain rfl := Option.some.inj hstep
        refine (entry (listed_of_reachable hs)).list.imp ?_ fun h => h
        exact fun ⟨hanswer, hlist⟩ => ⟨hanswer, fun first hfirst => by
          rw [hlist, merged_append, hfirst]⟩)
      (.init rfl) (exec_after as) [] rfl
    exact ⟨parts, hflat.trans hshare, hmap⟩
  -- `DOWNLOAD_TORRENT` is queued in the step that deals the torrent
  · rw [← queues_balance]
    refine collected_rel
      (R := fun l l' => l.count TaskType.downloadTorrent = (shareOf e l').length) rfl
      (fun l l' k k' h h' => by
        rw [List.count_append, shareOf_append, List.length_append, h, h']) fun s a _ => ?_
    cases a with
    | handshake uuid =>
      cases hfirst : s.isFirst with
      | true => by_cases he : uuid = e <;> simp [queues, deals, hfirst, he, shareOf]
      | false => simp [queues, hfirst]
    | updateTorrentStatus dInfo tInfo =>
      by_cases hg : tInfo.status = .generated
      · simp [queues, hg]
      · by_cases he : dInfo.uuid = e ∧ tInfo.status ≠ .downloaded <;>
          simp [queues, hg, he, deals, shareOf]
    | getTorrentsForDownload info =>
      by_cases he : info.uuid = e ∧ s.handler.downloads e ≠ [] <;>
        simp [queues, he, deals, shareOf]
    | _ => rfl

/-- A merge brings nothing of its own. -/
theorem mem_of_mem_merged {t : RpcTorrentInfo} {list added : List RpcTorrentInfo}
    (h : t ∈ merged list added) : t ∈ list ∨ t ∈ added := by
  have hone : ∀ (u : RpcTorrentInfo) (l : List RpcTorrentInfo), t ∈ updateOrAdd u l →
      t ∈ l ∨ t = u := by
    intro u l h
    induction l with
    | nil => exact .inr (List.mem_singleton.mp h)
    | cons it rest ih =>
      rw [updateOrAdd] at h
      split at h
      · exact (List.mem_cons.mp h).symm.imp_left (List.mem_cons_of_mem it)
      · obtain rfl | h := List.mem_cons.mp h
        · exact .inl List.mem_cons_self
        · exact (ih h).imp_left (List.mem_cons_of_mem it)
  induction added generalizing list with
  | nil => exact .inl h
  | cons u added ih =>
    obtain h | h := ih h
    · refine (hone u list h).imp_right fun heq => ?_
      rw [heq]
      exact List.mem_cons_self
    · exact .inr (List.mem_cons_of_mem u h)

/-- **Nothing is invented**: what a daemon is to download was reported. -/
theorem reported_of_downloads {t : RpcTorrentInfo}
    (h : t ∈ (after as).handler.downloads e) : t ∈ as.flatMap reported := by
  obtain ⟨dealt, hdealt⟩ := balanced as
  obtain ⟨parts, hflat, hmap⟩ := hdealt.answered e
  have hpart : (after as).handler.downloads e ∈ parts.map (merged []) := by
    rw [hmap]
    exact List.mem_append_right _ (List.mem_singleton_self _)
  obtain ⟨part, hmem, heq⟩ := List.mem_map.mp hpart
  have ht : t ∈ shareOf e dealt := by
    rw [← hflat]
    exact List.mem_flatten.mpr ⟨part, hmem,
      (mem_of_mem_merged (heq ▸ h)).resolve_left List.not_mem_nil⟩
  obtain ⟨d, hd, rfl⟩ := List.mem_map.mp ht
  rw [← hdealt.inOrder]
  exact List.mem_append_left _ (List.mem_map_of_mem (List.mem_of_mem_filter hd))

/-- A list of torrents with distinct ids is put on an empty list as it is. -/
theorem merged_nil_of_nodup {list : List RpcTorrentInfo} (h : (list.map (·.id)).Nodup) :
    merged [] list = list := by
  have hadd : ∀ u : RpcTorrentInfo, ∀ l : List RpcTorrentInfo, u.id ∉ l.map (·.id) →
      updateOrAdd u l = l ++ [u] := by
    intro u l hu
    induction l with
    | nil => rfl
    | cons it rest ih =>
      rw [List.map_cons, List.mem_cons, not_or] at hu
      rw [updateOrAdd, if_neg hu.1, ih hu.2]
      rfl
  induction list using List.reverseRecOn with
  | nil => rfl
  | append_singleton list u ih =>
    rw [List.map_append, List.nodup_append] at h
    obtain ⟨hlist, -, hdisjoint⟩ := h
    rw [merged_append, ih hlist]
    exact hadd u list fun hu => hdisjoint u.id hu u.id (List.mem_singleton_self _) rfl

/-- The share of a daemon is part of what was dealt, in order. -/
theorem shareOf_sublist (e : String) (dealt : List (String × RpcTorrentInfo)) :
    (shareOf e dealt).Sublist (dealt.map Prod.snd) :=
  (List.filter_sublist).map _

/-- **Exactly once.** Where no id is reported twice, each torrent reported
stands in one place: in the queue, on the list of one daemon, or in one answer
to one daemon. -/
theorem exactly_once (as : List Request) : ∃ dealt : List (String × RpcTorrentInfo),
    Balanced as dealt ∧ (((as.flatMap reported).map (·.id)).Nodup → ∀ e,
      shareOf e dealt = (collected (fetched e) as).flatten ++ (after as).handler.downloads e) := by
  obtain ⟨dealt, hdealt⟩ := balanced as
  refine ⟨dealt, hdealt, fun hids e => ?_⟩
  obtain ⟨parts, hflat, hmap⟩ := hdealt.answered e
  have hshare : ((shareOf e dealt).map (·.id)).Nodup := by
    refine hids.sublist (List.Sublist.map _ ?_)
    rw [← hdealt.inOrder]
    exact (shareOf_sublist e dealt).trans (List.sublist_append_left ..)
  -- with no id twice, `UpdateOrAddTorrent` finds nothing to update
  have hsame : parts.map (merged []) = parts := by
    refine (List.map_congr_left fun part hpart => ?_).trans (List.map_id parts)
    refine merged_nil_of_nodup (hshare.sublist (List.Sublist.map _ ?_))
    rw [← hflat]
    exact List.sublist_flatten_of_mem hpart
  rw [← hflat, ← hsame, hmap, List.flatten_append, List.flatten_singleton]

/-- The ids of the torrents an answer to any daemon tells it to download. -/
def fetchedIds (s : ServerState) : Request → List String
  | .getTorrentsForDownload info => (getTorrentsForDownload info s.handler).1.map (·.id)
  | _ => []

/-- An entry that is merged into a list adds its id at most once. -/
theorem ids_updateOrAdd_le {u : RpcTorrentInfo} {list : List RpcTorrentInfo} (id : String) :
    ((updateOrAdd u list).map (·.id)).count id ≤ (list.map (·.id)).count id + [u.id].count id := by
  rw [map_id_updateOrAdd]
  split
  · exact Nat.le_add_right _ _
  · rw [List.count_append]

/-- So does every entry of a list that is merged. -/
theorem ids_merged_le {list added : List RpcTorrentInfo} (id : String) :
    ((merged list added).map (·.id)).count id ≤
      (list.map (·.id)).count id + (added.map (·.id)).count id := by
  induction added generalizing list with
  | nil => exact Nat.le_refl _
  | cons u added ih =>
    have hone : ((updateOrAdd u list).map (·.id)).count id ≤ _ := ids_updateOrAdd_le id
    have hrest : ((merged (updateOrAdd u list) added).map (·.id)).count id ≤
        ((updateOrAdd u list).map (·.id)).count id + (added.map (·.id)).count id := ih
    have hcons : ((u :: added).map (·.id)).count id =
        [u.id].count id + (added.map (·.id)).count id := by
      rw [List.map_cons, ← List.count_append]
      rfl
    show ((merged (updateOrAdd u list) added).map (·.id)).count id ≤ _
    omega

/-- The same with the daemon they are given to. -/
def fetchedPairs (s : ServerState) : Request → List (String × String)
  | .getTorrentsForDownload info =>
    (getTorrentsForDownload info s.handler).1.map fun t => (info.uuid, t.id)
  | _ => []

/-- And every entry of several. -/
theorem ids_parts_le (parts : List (List RpcTorrentInfo)) (id : String) :
    ((parts.map (merged [])).flatten.map (·.id)).count id ≤
      (parts.flatten.map (·.id)).count id := by
  induction parts with
  | nil => exact Nat.le_refl _
  | cons part parts ih =>
    have hone : ((merged [] part).map (·.id)).count id ≤ _ := ids_merged_le id
    simp only [List.map_cons, List.flatten_cons, List.map_append, List.count_append]
    simp only [List.map_nil, List.count_nil] at hone
    omega

/-- A daemon is given an id no more often than it was dealt it. -/
theorem Balanced.fetched_le {dealt : List (String × RpcTorrentInfo)} (h : Balanced as dealt)
    (e id : String) :
    ((collected (fetched e) as).flatten.map (·.id)).count id ≤
      ((shareOf e dealt).map (·.id)).count id := by
  obtain ⟨parts, hflat, hmap⟩ := h.answered e
  have hle := ids_parts_le parts id
  rw [hmap, hflat, List.flatten_append, List.map_append, List.count_append] at hle
  exact (Nat.le_add_right _ _).trans hle

/-- The answers that gave a daemon an id, counted in the pairs. -/
theorem count_pairs (e id : String) (as : List Request) :
    (collected fetchedPairs as).count (e, id) =
      ((collected (fetched e) as).flatten.map (·.id)).count id := by
  refine collected_rel (R := fun (l : List (String × String)) (l' : List (List RpcTorrentInfo)) =>
      l.count (e, id) = (l'.flatten.map (·.id)).count id) rfl
    (fun l l' k k' h h' => by
      rw [List.count_append, List.flatten_append, List.map_append, List.count_append, h, h'])
    fun s a _ => ?_
  cases a with
  | getTorrentsForDownload info =>
    simp only [fetchedPairs, fetched]
    generalize (getTorrentsForDownload info s.handler).1 = list
    by_cases he : info.uuid = e
    · simp only [he, if_true, List.flatten_singleton]
      simp only [List.count, List.countP_map]
      refine List.countP_congr fun t _ => ?_
      simp
    · simp [he, List.count_eq_zero]
  | _ => rfl

/-- The torrents of an id dealt to a daemon are those of its share. -/
theorem count_dealt (e id : String) (dealt : List (String × RpcTorrentInfo)) :
    (dealt.map fun d => (d.1, d.2.id)).count (e, id) =
      ((shareOf e dealt).map (·.id)).count id := by
  induction dealt with
  | nil => rfl
  | cons d dealt ih =>
    rw [List.map_cons, shareOf_cons, List.map_append, List.count_append, ← ih, List.count_cons]
    by_cases he : d.1 = e
    · by_cases hid : d.2.id = id <;> simp [he, hid, Nat.add_comm]
    · simp [he]

/-- **No report is answered twice**: an id is given to daemons to download no
more often than it was reported. -/
theorem fetchedIds_le (as : List Request) (id : String) :
    (collected fetchedIds as).count id ≤ ((as.flatMap reported).map (·.id)).count id := by
  obtain ⟨dealt, hdealt⟩ := balanced as
  -- as multisets of a daemon and an id, since a daemon is given no other's share
  have hsub : (collected fetchedPairs as).Subperm (dealt.map fun d => (d.1, d.2.id)) :=
    List.subperm_ext_iff.mpr fun ⟨e, id⟩ _ => by
      rw [count_pairs, count_dealt]
      exact hdealt.fetched_le e id
  have hids : collected fetchedIds as = (collected fetchedPairs as).map Prod.snd :=
    collected_rel (R := fun l l' => l = l'.map Prod.snd) rfl
      (fun l l' k k' h h' => by rw [List.map_append, h, h']) fun s a _ => by
        cases a with
        | getTorrentsForDownload info => simp [fetchedIds, fetchedPairs]
        | _ => rfl
  calc (collected fetchedIds as).count id
    _ = (collected fetchedPairs as).countP (fun d => d.2 == id) := by
      rw [hids, List.count, List.countP_map]
      rfl
    _ ≤ (dealt.map fun d => (d.1, d.2.id)).countP (fun d => d.2 == id) := hsub.countP_le _
    _ = ((dealt.map Prod.snd).map (·.id)).count id := by
      rw [List.count, List.countP_map, List.countP_map, List.countP_map]
      rfl
    _ ≤ ((as.flatMap reported).map (·.id)).count id := by
      rw [← hdealt.inOrder, List.map_append, List.count_append]
      exact Nat.le_add_right _ _

end

end Server

end VerAI
