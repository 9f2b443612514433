import VerAI.Server.Handler
/-!
# What a report of a generated torrent offers to whom

The handler puts the torrent at the end of one queue and goes through the
other registered daemons; each of them is given the torrent at the front of
the queue, and it is taken off. So the loop deals the queue out, one torrent
a daemon, and what a daemon is given need not be the torrent reported: there
may be others before it, or none left.
-/

namespace VerAI

namespace Server

open Transition (System)
open Client (DaemonInfo TaskType)
open Torrent (RpcTorrentInfo)

/-- The handler, with the static variable of its `Handshake`. -/
structure ServerState where
  handler : ServerHandler
  isFirst : Bool

/-- The calls of `ServerImpl`. -/
inductive Request
  | handshake (uuid : String)
  | updateTorrentStatus (agentInfo : DaemonInfo) (torrentInfo : RpcTorrentInfo)
  | getTaskList (info : DaemonInfo)
  | getInfoForGenerateTorrents (info : DaemonInfo) (newUuid : String)
  | getTorrentsForUpdateStatus (info : DaemonInfo)
  | getTorrentsForDownload (info : DaemonInfo)

def serverStep (s : ServerState) : Request → ServerState
  | .handshake uuid => ⟨(handshake uuid s.isFirst s.handler).2, false⟩
  | .updateTorrentStatus agentInfo torrentInfo =>
    { s with handler := updateTorrentStatus agentInfo torrentInfo s.handler }
  | .getTaskList info => { s with handler := (getTaskList info s.handler).2 }
  | .getInfoForGenerateTorrents info newUuid =>
    { s with handler := (getInfoForGenerateTorrents info newUuid s.handler).2 }
  | .getTorrentsForUpdateStatus _ => s
  | .getTorrentsForDownload info => { s with handler := (getTorrentsForDownload info s.handler).2 }

/-- **The machine of the server**, any daemons calling in any order. -/
def serverMachine : System ServerState Request where
  init s := s = ⟨.new, true⟩
  step s a := some (serverStep s a)

/-- The torrents a daemon shall download. -/
def ServerHandler.downloads (e : String) (s : ServerHandler) : List RpcTorrentInfo :=
  s.t2DownloadMap.getD e []

/-- The tasks it has queued. -/
def ServerHandler.queued (e : String) (s : ServerHandler) : List TaskType := s.tasks.getD e []

/-- The registered daemons but one, in the order of the loop. -/
def others (d : String) (s : ServerHandler) : List String := s.uuids.toList.filter (· ≠ d)

/-- **What the loop deals out** after a report: to each of the others the
next torrent of the queue, the reported one last. -/
def dealt (d : String) (t : RpcTorrentInfo) (s : ServerHandler) :
    List (String × RpcTorrentInfo) :=
  (others d s).zip (s.torrentDeque ++ [t])

/-- **The daemon is offered the torrent**: it is on its list, a task is
queued that asks for the list, and the answer has it. -/
structure Offered (t : RpcTorrentInfo) (e : String) (s : ServerHandler) : Prop where
  listed : t ∈ s.downloads e
  queued : .downloadTorrent ∈ s.queued e
  fetched : ∀ info : DaemonInfo, info.uuid = e → t ∈ (getTorrentsForDownload info s).1

/-- **What must stand before the report**: the daemon is dealt the torrent
itself; or another one that does not replace it, the torrent being on its
list; or none, the torrent being on its list and a task queued. -/
def Reaches (d : String) (t : RpcTorrentInfo) (s : ServerHandler) (e : String) : Prop :=
  match (dealt d t s).lookup e with
  | some u => u = t ∨ t ∈ s.downloads e ∧ u.id ≠ t.id
  | none => t ∈ s.downloads e ∧ .downloadTorrent ∈ s.queued e

/-! ## A list of torrents -/

section

variable {t u : RpcTorrentInfo} {list : List RpcTorrentInfo}

/-- `UpdateOrAddTorrent` adds an id that is not there. -/
theorem map_id_updateOrAdd : (updateOrAdd u list).map (·.id) =
    if u.id ∈ list.map (·.id) then list.map (·.id) else list.map (·.id) ++ [u.id] := by
  induction list with
  | nil => rfl
  | cons it rest ih =>
    by_cases h : u.id = it.id
    · simp [updateOrAdd, h]
    · rw [updateOrAdd, if_neg h, List.map_cons, ih, List.map_cons]
      by_cases hmem : u.id ∈ rest.map (·.id)
      · rw [if_pos hmem, if_pos (.tail _ hmem)]
      · rw [if_neg hmem, if_neg fun h' => (List.mem_cons.mp h').elim h hmem]
        rfl

/-- It repeats none. -/
theorem nodup_updateOrAdd (h : (list.map (·.id)).Nodup) :
    ((updateOrAdd u list).map (·.id)).Nodup := by
  rw [map_id_updateOrAdd]
  split
  · exact h
  · rename_i hu
    refine List.nodup_append.mpr ⟨h, List.pairwise_singleton _ _, fun a ha b hb hab => ?_⟩
    rw [List.mem_singleton] at hb
    exact hu (hb ▸ hab ▸ ha)

/-- Where no id stands twice, the torrent put in is on the list afterwards,
and every other that has not its id. -/
theorem mem_updateOrAdd (h : (list.map (·.id)).Nodup) :
    t ∈ updateOrAdd u list ↔ u = t ∨ t ∈ list ∧ u.id ≠ t.id := by
  induction list with
  | nil => simp [updateOrAdd, eq_comm]
  | cons it rest ih =>
    obtain ⟨hit, hrest⟩ := List.nodup_cons.mp h
    have hmem : t ∈ rest → t.id ≠ it.id := fun ht heq =>
      hit (List.mem_map.mpr ⟨t, ht, heq⟩)
    by_cases hid : u.id = it.id
    · rw [updateOrAdd, if_pos hid, List.mem_cons, List.mem_cons]
      constructor
      · rintro (rfl | ht)
        · exact .inl rfl
        · exact .inr ⟨.inr ht, fun heq => hmem ht (heq.symm.trans hid)⟩
      · rintro (rfl | ⟨rfl | ht, hne⟩)
        · exact .inl rfl
        · exact absurd hid hne
        · exact .inr ht
    · rw [updateOrAdd, if_neg hid, List.mem_cons, ih hrest, List.mem_cons]
      constructor
      · rintro (rfl | rfl | ⟨ht, hne⟩)
        · exact .inr ⟨.inl rfl, hid⟩
        · exact .inl rfl
        · exact .inr ⟨.inr ht, hne⟩
      · rintro (rfl | ⟨rfl | ht, hne⟩)
        · exact .inr (.inl rfl)
        · exact .inl rfl
        · exact .inr (.inr ⟨ht, hne⟩)

end

/-! ## One daemon is given a torrent -/

section

variable {e e' : String} {s : ServerHandler}

/-- A deal gives the head of the queue to the one daemon. -/
theorem downloads_downloadTorrent : (downloadTorrent e' s).downloads e =
    match s.torrentDeque with
    | [] => s.downloads e
    | first :: _ => if e' = e then updateOrAdd first (s.downloads e) else s.downloads e := by
  cases hdeque : s.torrentDeque with
  | nil => simp only [downloadTorrent, hdeque]
  | cons first rest =>
    simp only [downloadTorrent, hdeque, ServerHandler.downloads, addTask, add2DownloadList,
      updateOrAddTorrent, Std.TreeMap.getD_insert, Std.LawfulEqCmp.compare_eq_iff_eq]
    by_cases he : e' = e
    · rw [if_pos he, if_pos he, he]
    · rw [if_neg he, if_neg he]

/-- And a task with it. -/
theorem queued_downloadTorrent : (downloadTorrent e' s).queued e =
    match s.torrentDeque with
    | [] => s.queued e
    | _ :: _ => if e' = e then s.queued e ++ [.downloadTorrent] else s.queued e := by
  cases hdeque : s.torrentDeque with
  | nil => simp only [downloadTorrent, hdeque]
  | cons first rest =>
    simp only [downloadTorrent, hdeque, ServerHandler.queued, addTask, add2DownloadList,
      Std.TreeMap.getD_insert, Std.LawfulEqCmp.compare_eq_iff_eq]
    by_cases he : e' = e
    · rw [if_pos he, if_pos he, he]
    · rw [if_neg he, if_neg he]

/-- It takes the head off. -/
theorem torrentDeque_downloadTorrent :
    (downloadTorrent e' s).torrentDeque = s.torrentDeque.drop 1 := by
  cases hdeque : s.torrentDeque with
  | nil => simp only [downloadTorrent, hdeque, List.drop_nil]
  | cons first rest =>
    simp only [downloadTorrent, hdeque]
    rfl

end

/-! ## The queue is dealt out -/

section

variable {e d : String} {es : List String} {s : ServerHandler} {t : RpcTorrentInfo}

/-- **The run lemma of the loop.** What is seen of one daemon changes once at
most: by the torrent that stands in the queue where the daemon stands among
those gone through. -/
theorem eq_of_dealt {β : Type} {f : ServerHandler → β} {g : RpcTorrentInfo → β → β}
    (hstep : ∀ e' s, f (downloadTorrent e' s) =
      match s.torrentDeque with
      | [] => f s
      | first :: _ => if e' = e then g first (f s) else f s)
    (hes : es.Nodup) (s : ServerHandler) :
    f (es.foldl (fun s e => downloadTorrent e s) s) =
      match (es.zip s.torrentDeque).lookup e with
      | some u => g u (f s)
      | none => f s := by
  induction es generalizing s with
  | nil => rfl
  | cons e' es ih =>
    obtain ⟨he', hes⟩ := List.nodup_cons.mp hes
    have hone := hstep e' s
    rw [List.foldl_cons, ih hes, torrentDeque_downloadTorrent]
    cases hdeque : s.torrentDeque with
    | nil =>
      rw [hdeque] at hone
      simpa using hone
    | cons first rest =>
      rw [hdeque] at hone
      rw [List.drop_one, List.tail_cons, List.zip_cons_cons, List.lookup_cons]
      by_cases he : e' = e
      · -- it has had its turn: it stands nowhere in the rest
        have hnone : (es.zip rest).lookup e = none :=
          List.lookup_eq_none_iff.mpr fun p hp => by
            have hmem := (List.of_mem_zip hp).1
            rw [bne_iff_ne]
            rintro rfl
            exact he' (he ▸ hmem)
        rw [hnone, hone]
        simp [he]
      · rw [hone]
        have hne : (e == e') = false := by simpa using fun h => he h.symm
        simp [he, hne]

/-- The daemons a report goes to are all different. -/
theorem nodup_others : (others d s).Nodup := by
  refine List.Pairwise.filter _ ?_
  refine (Std.TreeSet.distinct_toList (t := s.uuids)).imp fun h heq => ?_
  exact h (Std.LawfulEqCmp.compare_eq_iff_eq.mpr heq)

/-- They are the others. -/
theorem mem_others : e ∈ others d s ↔ e ∈ s.uuids ∧ e ≠ d := by
  simp [others]

/-- **A report of a generated torrent** puts it at the end of the queue and
deals the queue out to the other daemons. -/
theorem updateTorrentStatus_generated {dInfo : DaemonInfo} (hg : t.status = .generated)
    (hl : t.link.isEmpty = false) : updateTorrentStatus dInfo t s =
      (others dInfo.uuid s).foldl (fun s e => downloadTorrent e s)
        (removeFromUpdateList dInfo.uuid t { s with torrentDeque := s.torrentDeque ++ [t] }) := by
  simp only [updateTorrentStatus, hg, hl, Bool.false_eq_true, if_false, others, List.foldl_filter,
    Std.TreeSet.foldl_eq_foldl_toList, decide_eq_true_eq]
  rfl

/-- A report gives a daemon what is dealt to it. -/
theorem downloads_report (dInfo : DaemonInfo) (hg : t.status = .generated)
    (hl : t.link.isEmpty = false) : (updateTorrentStatus dInfo t s).downloads e =
      match (dealt dInfo.uuid t s).lookup e with
      | some u => updateOrAdd u (s.downloads e)
      | none => s.downloads e := by
  rw [updateTorrentStatus_generated hg hl]
  exact eq_of_dealt (f := ServerHandler.downloads e) (g := updateOrAdd)
    (fun _ _ => downloads_downloadTorrent) nodup_others _

/-- And a task with it. -/
theorem queued_report (dInfo : DaemonInfo) (hg : t.status = .generated)
    (hl : t.link.isEmpty = false) : (updateTorrentStatus dInfo t s).queued e =
      match (dealt dInfo.uuid t s).lookup e with
      | some _ => s.queued e ++ [.downloadTorrent]
      | none => s.queued e := by
  rw [updateTorrentStatus_generated hg hl]
  exact eq_of_dealt (f := ServerHandler.queued e) (g := fun _ tasks => tasks ++ [.downloadTorrent])
    (fun _ _ => queued_downloadTorrent) nodup_others _

end

/-! ## No id stands twice on a list -/

section

variable {e : String} {s s' : ServerState} {a : Request} {t : RpcTorrentInfo}

/-- A deal keeps a download list or puts one torrent into it. -/
theorem downloads_or_of_downloadTorrent {e' : String} {s : ServerHandler} :
    (downloadTorrent e' s).downloads e = s.downloads e ∨
      ∃ u, (downloadTorrent e' s).downloads e = updateOrAdd u (s.downloads e) := by
  rw [downloads_downloadTorrent]
  split
  · exact .inl rfl
  · split
    · exact .inr ⟨_, rfl⟩
    · exact .inl rfl

/-- So does a report. -/
theorem downloads_or_of_report {dInfo : DaemonInfo} {s : ServerHandler} :
    (updateTorrentStatus dInfo t s).downloads e = s.downloads e ∨
      ∃ u, (updateTorrentStatus dInfo t s).downloads e = updateOrAdd u (s.downloads e) := by
  by_cases hg : t.status = .generated
  · cases hl : t.link.isEmpty with
    | true =>
      left
      simp only [updateTorrentStatus, hg, hl, if_true]
    | false =>
      rw [downloads_report dInfo hg hl]
      split
      · exact .inr ⟨_, rfl⟩
      · exact .inl rfl
  · by_cases hd : t.status = .downloaded
    · simp only [updateTorrentStatus, hd]
      exact .inl rfl
    · rw [updateTorrentStatus_eq_addTask hg hd]
      exact .inl rfl

/-- Only the list of the daemon that asks is emptied. -/
theorem downloads_getTorrentsForDownload {info : DaemonInfo} {s : ServerHandler} :
    (getTorrentsForDownload info s).2.downloads e = s.downloads e ∨
      (getTorrentsForDownload info s).2.downloads e = [] := by
  have hmap : ∀ (list : List RpcTorrentInfo) (s : ServerHandler),
      (list.foldl (fun s item => add2UpdateList info.uuid item s) s).t2DownloadMap =
        s.t2DownloadMap := by
    intro list s
    induction list generalizing s with
    | nil => rfl
    | cons item list ih =>
      rw [List.foldl_cons, ih]
      rfl
  unfold getTorrentsForDownload
  split
  · simp only [ServerHandler.downloads, addTask, hmap, Std.TreeMap.getD_erase]
    split
    · exact .inr rfl
    · exact .inl rfl
  · exact .inl rfl

/-- **What a call does to a list**: it keeps it, empties it, or puts a
torrent in. -/
theorem downloads_of_step : (serverStep s a).handler.downloads e = s.handler.downloads e ∨
    (serverStep s a).handler.downloads e = [] ∨
    ∃ u, (serverStep s a).handler.downloads e = updateOrAdd u (s.handler.downloads e) := by
  cases a with
  | handshake uuid =>
    cases hfirst : s.isFirst with
    | true =>
      simp only [serverStep, handshake, hfirst, if_true]
      exact .inl rfl
    | false =>
      simp only [serverStep, handshake, hfirst, Bool.false_eq_true, if_false]
      exact downloads_or_of_downloadTorrent.imp_right .inr
  | updateTorrentStatus dInfo t => exact downloads_or_of_report.imp_right .inr
  | getTaskList info => exact .inl rfl
  | getInfoForGenerateTorrents info newUuid =>
    simp only [serverStep, getInfoForGenerateTorrents]
    split
    · exact .inl rfl
    · exact .inl rfl
  | getTorrentsForUpdateStatus info => exact .inl rfl
  | getTorrentsForDownload info =>
    exact downloads_getTorrentsForDownload.imp_right .inl

/-- No id stands twice on the list of a daemon. -/
def DistinctIds (s : ServerState) : Prop :=
  ∀ e, ((s.handler.downloads e).map (·.id)).Nodup

/-- No download list ever repeats an id. -/
theorem distinctIds_of_reachable (h : serverMachine.Reachable s) : DistinctIds s := by
  refine h.invariant ?_ ?_
  · rintro s rfl e
    exact List.Pairwise.nil
  · intro s a s' hs _ hstep e
    obtain rfl := Option.some.inj hstep
    obtain h | h | ⟨u, h⟩ := downloads_of_step (s := s) (a := a) (e := e)
    · rw [h]
      exact hs e
    · rw [h]
      exact List.Pairwise.nil
    · rw [h]
      exact nodup_updateOrAdd (hs e)

end

/-! ## Who is offered the torrent -/

section

variable {s : ServerState} {t : RpcTorrentInfo} {dInfo : DaemonInfo}

/-- A fetch is answered with the download list. -/
theorem getTorrentsForDownload_fst {info : DaemonInfo} {s : ServerHandler} :
    (getTorrentsForDownload info s).1 = s.downloads info.uuid := by
  unfold getTorrentsForDownload
  rw [ServerHandler.downloads, Std.TreeMap.getD_eq_getD_getElem?]
  split
  · rename_i h
    rw [h]
    rfl
  · rename_i h
    rw [h]
    rfl

/-- A report offers the torrent to those it is dealt to. -/
theorem offered_report_iff {e : String} (hs : DistinctIds s) (hg : t.status = .generated)
    (hl : t.link.isEmpty = false) : Offered t e (updateTorrentStatus dInfo t s.handler) ↔
      Reaches dInfo.uuid t s.handler e := by
  have hlist := downloads_report (e := e) (s := s.handler) dInfo hg hl
  have hqueue := queued_report (e := e) (s := s.handler) dInfo hg hl
  have hall : Offered t e (updateTorrentStatus dInfo t s.handler) ↔
      t ∈ (updateTorrentStatus dInfo t s.handler).downloads e ∧
        .downloadTorrent ∈ (updateTorrentStatus dInfo t s.handler).queued e :=
    ⟨fun h => ⟨h.listed, h.queued⟩, fun h =>
      ⟨h.1, h.2, fun info hinfo => getTorrentsForDownload_fst ▸ hinfo ▸ h.1⟩⟩
  rw [hall, hlist, hqueue, Reaches]
  cases (dealt dInfo.uuid t s.handler).lookup e with
  | none => rfl
  | some u => simp [mem_updateOrAdd (hs e)]

/-- **Every other daemon is offered the torrent reported, exactly when the
queue deals it out so.** -/
theorem offered_iff (h : serverMachine.Reachable s) (hg : t.status = .generated)
    (hl : t.link.isEmpty = false) :
    (∀ e ∈ s.handler.uuids, e ≠ dInfo.uuid →
      Offered t e (serverStep s (.updateTorrentStatus dInfo t)).handler) ↔
    ∀ e ∈ s.handler.uuids, e ≠ dInfo.uuid → Reaches dInfo.uuid t s.handler e := by
  have hs := distinctIds_of_reachable h
  constructor
  · intro hoffered e he hne
    exact (offered_report_iff hs hg hl).mp (hoffered e he hne)
  · intro hreaches e he hne
    exact (offered_report_iff hs hg hl).mpr (hreaches e he hne)

end

/-! ## Two daemons, and three -/

/-- The server after the handshakes of some daemons. -/
def registered (uuids : List String) : ServerState :=
  uuids.foldl (fun s uuid => serverStep s (.handshake uuid)) ⟨.new, true⟩

/-- Any daemons may have registered, and no more. -/
theorem reachable_registered (uuids : List String) :
    serverMachine.Reachable (registered uuids) := by
  have hrun : ∀ (uuids : List String) (s : ServerState), serverMachine.Reachable s →
      serverMachine.Reachable (uuids.foldl (fun s uuid => serverStep s (.handshake uuid)) s) := by
    intro uuids s hs
    induction uuids generalizing s with
    | nil => exact hs
    | cons uuid uuids ih => exact ih _ (hs.next rfl)
  exact hrun uuids _ (.init rfl)

/-- "b" registers after "a", and "a" reports: "b" is dealt the torrent. -/
theorem twoDaemons_offered : Offered ⟨"1", "magnet:1", "1.torrent", .generated, 100, "p"⟩ "b"
    (serverStep (registered ["a", "b"]) (.updateTorrentStatus ⟨"a", "", .ok⟩
      ⟨"1", "magnet:1", "1.torrent", .generated, 100, "p"⟩)).handler := by
  refine Iff.mpr (@offered_iff _ _ ⟨"a", "", .ok⟩ (reachable_registered _) rfl (by decide)) ?_ "b"
    (by decide) (by decide)
  intro e he hne
  have hothers : e ∈ others "a" (registered ["a", "b"]).handler := mem_others.mpr ⟨he, hne⟩
  have hb : others "a" (registered ["a", "b"]).handler = ["b"] := by decide
  rw [hb, List.mem_singleton] at hothers
  subst hothers
  have hdealt : (dealt "a" ⟨"1", "magnet:1", "1.torrent", .generated, 100, "p"⟩
      (registered ["a", "b"]).handler).lookup "b" =
        some ⟨"1", "magnet:1", "1.torrent", .generated, 100, "p"⟩ := by decide
  rw [Reaches, hdealt]
  exact .inl rfl

/-- **One torrent, two others**: "a" reports, the torrent is dealt to "b",
and nothing is left for "c". -/
theorem threeDaemons_not_offered : ¬ ∀ (s : ServerState) (dInfo : DaemonInfo)
    (t : RpcTorrentInfo), serverMachine.Reachable s → t.status = .generated →
      t.link.isEmpty = false → ∀ e ∈ s.handler.uuids, e ≠ dInfo.uuid →
        Offered t e (serverStep s (.updateTorrentStatus dInfo t)).handler := by
  intro h
  have hc := h (registered ["a", "b", "c"]) ⟨"a", "", .ok⟩
    ⟨"1", "magnet:1", "1.torrent", .generated, 100, "p"⟩ (reachable_registered _) rfl (by decide)
    "c" (by decide) (by decide)
  exact absurd hc.listed (by decide)

end Server

end VerAI
