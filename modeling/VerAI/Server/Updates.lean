import VerAI.Server.Ledger
/-!
# Which torrents a daemon is asked about

The update list of a daemon is filled by two calls of that daemon, when it is
given a torrent to generate and when it fetches what it shall download, and
loses a torrent by one, its report that the torrent is done. So the list of a
moment can be read off the calls made before it.
-/

namespace VerAI

namespace Server

open Transition (System)
open Torrent (RpcTorrentInfo)

/-- The torrents a daemon shall report on. -/
def ServerHandler.updates (e : String) (h : ServerHandler) : List RpcTorrentInfo :=
  h.t2UpdateMap.getD e []

/-- A call puts an id on the update list of a daemon: it answers a registered
one with a torrent to generate, or with torrents to download. -/
def Puts (e id : String) (s : ServerState) : Request → Prop
  | .getInfoForGenerateTorrents info newUuid =>
    info.uuid = e ∧ e ∈ s.handler.uuids ∧ newUuid = id
  | .getTorrentsForDownload info =>
    info.uuid = e ∧ id ∈ (getTorrentsForDownload info s.handler).1.map (·.id)
  | _ => False

/-- A call takes an id off it: the daemon reports the torrent as generated,
with a link, or as downloaded. -/
def Takes (e id : String) : Request → Prop
  | .updateTorrentStatus dInfo tInfo => dInfo.uuid = e ∧ tInfo.id = id ∧
    (tInfo.status = .generated ∧ tInfo.link.isEmpty = false ∨ tInfo.status = .downloaded)
  | _ => False

section

variable {e id : String} {h : ServerHandler} {list : List RpcTorrentInfo}

/-- `Add2UpdateList` changes the one list. -/
theorem updates_add2UpdateList {id : String} {info : RpcTorrentInfo} :
    (add2UpdateList id info h).updates e =
      if id = e then updateOrAdd info (h.updates e) else h.updates e := by
  simp only [ServerHandler.updates, add2UpdateList, updateOrAddTorrent, Std.TreeMap.getD_insert,
    Std.LawfulEqCmp.compare_eq_iff_eq]
  by_cases he : id = e
  · simp [he]
  · simp [he]

/-- So does `RemoveFromUpdateList`, by the first entry with the id. -/
theorem updates_removeFromUpdateList {id : String} {info : RpcTorrentInfo} :
    (removeFromUpdateList id info h).updates e =
      if id = e then (h.updates e).eraseP fun it => info.id = it.id else h.updates e := by
  simp only [ServerHandler.updates, removeFromUpdateList, removeTorrent, Std.TreeMap.getD_modify,
    Std.LawfulEqCmp.compare_eq_iff_eq]
  by_cases he : id = e
  · subst he
    rw [if_pos rfl, if_pos rfl, Std.TreeMap.getD_eq_getD_getElem?]
    cases h.t2UpdateMap[id]? with
    | none => rfl
    | some list => rfl
  · rw [if_neg he, if_neg he]

/-- To deal a torrent changes no update list. -/
theorem updates_downloadTorrent {id : String} :
    (downloadTorrent id h).updates e = h.updates e := by
  unfold downloadTorrent
  split
  all_goals rfl

/-- Nor do several. -/
theorem updates_deal {es : List String} :
    (es.foldl (fun s e => downloadTorrent e s) h).updates e = h.updates e := by
  induction es generalizing h with
  | nil => rfl
  | cons e' es ih => rw [List.foldl_cons, ih, updates_downloadTorrent]

/-- What a daemon fetches is merged into its update list. -/
theorem updates_fetch {id : String} :
    (list.foldl (fun s item => add2UpdateList id item s) h).updates e =
      if id = e then merged (h.updates e) list else h.updates e := by
  induction list generalizing h with
  | nil => simp [merged]
  | cons item list ih =>
    rw [List.foldl_cons, ih, updates_add2UpdateList]
    by_cases he : id = e
    · simp [he, merged]
    · simp [he]

/-- A merge has the ids of both lists. -/
theorem mem_ids_merged {added : List RpcTorrentInfo} :
    id ∈ (merged list added).map (·.id) ↔ id ∈ list.map (·.id) ∨ id ∈ added.map (·.id) := by
  induction added generalizing list with
  | nil => simp [merged]
  | cons u added ih =>
    have hone : id ∈ (updateOrAdd u list).map (·.id) ↔ id ∈ list.map (·.id) ∨ id = u.id := by
      rw [map_id_updateOrAdd]
      split
      · rename_i hu
        exact ⟨.inl, fun h => h.elim (fun h => h) fun h => h ▸ hu⟩
      · rw [List.mem_append, List.mem_singleton]
    rw [merged, List.foldl_cons]
    refine Iff.trans (@ih (updateOrAdd u list)) ?_
    rw [hone, List.map_cons, List.mem_cons, or_assoc]

/-- It repeats none. -/
theorem nodup_merged {added : List RpcTorrentInfo} (hlist : (list.map (·.id)).Nodup) :
    ((merged list added).map (·.id)).Nodup := by
  induction added generalizing list with
  | nil => exact hlist
  | cons u added ih => exact ih (nodup_updateOrAdd hlist)

/-- To remove an id from a list without repetition removes it altogether. -/
theorem mem_ids_eraseP (hlist : (list.map (·.id)).Nodup) (u : RpcTorrentInfo) :
    id ∈ (list.eraseP fun it => u.id = it.id).map (·.id) ↔ id ∈ list.map (·.id) ∧ u.id ≠ id := by
  induction list with
  | nil => simp
  | cons it rest ih =>
    obtain ⟨hit, hrest⟩ := List.nodup_cons.mp hlist
    by_cases hu : u.id = it.id
    · rw [List.eraseP_cons_of_pos (by simpa using hu), List.map_cons, List.mem_cons]
      constructor
      · intro h
        have hmem : id = it.id → it.id ∈ rest.map (·.id) := fun heq => heq ▸ h
        exact ⟨.inr h, fun heq => hit (hmem (heq.symm.trans hu))⟩
      · rintro ⟨h | h, hne⟩
        · exact absurd (hu.trans h.symm) hne
        · exact h
    · rw [List.eraseP_cons_of_neg (by simpa using hu), List.map_cons, List.mem_cons, ih hrest,
        List.map_cons, List.mem_cons]
      constructor
      · rintro (h | ⟨h, hne⟩)
        · exact ⟨.inl h, h ▸ hu⟩
        · exact ⟨.inr h, hne⟩
      · rintro ⟨h | h, hne⟩
        · exact .inl h
        · exact .inr ⟨h, hne⟩

end

section

variable {e id : String} {s : ServerState} {a : Request} {as : List Request}

/-- No id stands twice on the update list of a daemon. -/
def DistinctUpdates (s : ServerState) : Prop :=
  ∀ e, ((s.handler.updates e).map (·.id)).Nodup

/-- **What a call does to an update list**: it keeps it, puts torrents on it,
or takes one off. -/
theorem updates_of_step (e : String) :
    (∃ added, (serverStep s a).handler.updates e = merged (s.handler.updates e) added ∧
      (∀ id, Puts e id s a ↔ id ∈ added.map (·.id)) ∧ ∀ id, ¬ Takes e id a) ∨
    ∃ u : RpcTorrentInfo, (serverStep s a).handler.updates e =
      ((s.handler.updates e).eraseP fun it => u.id = it.id) ∧
      (∀ id, ¬ Puts e id s a) ∧ ∀ id, Takes e id a ↔ u.id = id := by
  cases a with
  | handshake uuid =>
    refine .inl ⟨[], ?_, by simp [Puts], by simp [Takes]⟩
    cases hfirst : s.isFirst with
    | true =>
      simp only [serverStep, handshake, hfirst, if_true]
      rfl
    | false =>
      simp only [serverStep, handshake, hfirst, Bool.false_eq_true, if_false,
        updates_downloadTorrent]
      rfl
  | updateTorrentStatus dInfo tInfo =>
    by_cases htake : dInfo.uuid = e ∧
        (tInfo.status = .generated ∧ tInfo.link.isEmpty = false ∨ tInfo.status = .downloaded)
    · refine .inr ⟨tInfo, ?_, by simp [Puts], fun id => ?_⟩
      · obtain ⟨rfl, ⟨hg, hl⟩ | hd⟩ := htake
        · simp only [serverStep, updateTorrentStatus_generated hg hl, updates_deal,
            updates_removeFromUpdateList, if_true]
          rfl
        · simp only [serverStep, updateTorrentStatus, hd, updates_removeFromUpdateList, if_true]
      · exact ⟨fun h => h.2.1, fun h => ⟨htake.1, h, htake.2⟩⟩
    -- a report of anything else, or of another daemon, takes nothing off this list
    · refine .inl ⟨[], ?_, by simp [Puts], fun id h => htake ⟨h.1, h.2.2⟩⟩
      by_cases hg : tInfo.status = .generated
      · cases hl : tInfo.link.isEmpty with
        | true =>
          simp only [serverStep, updateTorrentStatus, hg, hl, if_true]
          rfl
        | false =>
          have he : dInfo.uuid ≠ e := fun he => htake ⟨he, .inl ⟨hg, hl⟩⟩
          simp only [serverStep, updateTorrentStatus_generated hg hl, updates_deal,
            updates_removeFromUpdateList, if_neg he]
          rfl
      · by_cases hd : tInfo.status = .downloaded
        · have he : dInfo.uuid ≠ e := fun he => htake ⟨he, .inr hd⟩
          simp only [serverStep, updateTorrentStatus, hd, updates_removeFromUpdateList, if_neg he]
          rfl
        · simp only [serverStep, updateTorrentStatus_eq_addTask hg hd]
          rfl
  | getTaskList info => exact .inl ⟨[], rfl, by simp [Puts], by simp [Takes]⟩
  | getInfoForGenerateTorrents info newUuid =>
    by_cases hin : info.uuid = e ∧ e ∈ s.handler.uuids
    · obtain ⟨rfl, hin⟩ := hin
      refine .inl ⟨[⟨newUuid, "", "", .none, 0, "/opt/VerAI/projects/1"⟩], ?_, ?_, by simp [Takes]⟩
      · simp [serverStep, getInfoForGenerateTorrents, hin, updates_add2UpdateList, merged]
      · intro id
        simp [Puts, hin, eq_comm]
    · refine .inl ⟨[], ?_, fun id => ?_, by simp [Takes]⟩
      · simp only [serverStep, getInfoForGenerateTorrents]
        split
        · rename_i hmem
          have he : info.uuid ≠ e := fun he => hin ⟨he, he ▸ hmem⟩
          simp only [updates_add2UpdateList, if_neg he]
          rfl
        · rfl
      · simp only [Puts, List.map_nil, List.not_mem_nil, iff_false]
        exact fun h => hin ⟨h.1, h.2.1⟩
  | getTorrentsForUpdateStatus info => exact .inl ⟨[], rfl, by simp [Puts], by simp [Takes]⟩
  | getTorrentsForDownload info =>
    by_cases he : info.uuid = e
    · subst he
      refine .inl ⟨s.handler.downloads info.uuid, ?_, fun id => ?_, by simp [Takes]⟩
      · simp only [serverStep, getTorrentsForDownload, ServerHandler.downloads,
          Std.TreeMap.getD_eq_getD_getElem?]
        cases hmap : s.handler.t2DownloadMap[info.uuid]? with
        | none => rfl
        | some list => exact updates_fetch.trans (if_pos rfl)
      · simp only [Puts, true_and, getTorrentsForDownload_fst]
    · refine .inl ⟨[], ?_, fun id => by simp [Puts, he], by simp [Takes]⟩
      simp only [serverStep, getTorrentsForDownload]
      split
      · exact updates_fetch.trans (if_neg he)
      · rfl

/-- No update list ever repeats an id. -/
theorem distinctUpdates_of_reachable (h : serverMachine.Reachable s) : DistinctUpdates s := by
  refine h.invariant ?_ ?_
  · rintro s rfl e
    exact List.Pairwise.nil
  · intro s a s' hs _ hstep e
    obtain rfl := Option.some.inj hstep
    obtain ⟨added, h, -⟩ | ⟨u, h, -⟩ := updates_of_step (s := s) (a := a) e
    · rw [h]
      exact nodup_merged (hs e)
    · rw [h]
      exact (hs e).sublist (List.Sublist.map _ List.eraseP_sublist)

/-- **Which torrents a daemon is asked about**: those the server once gave it,
to generate or to download, and that it has not since reported as done. -/
theorem mem_updates_iff (e id : String) (as : List Request) :
    id ∈ ((after as).handler.updates e).map (·.id) ↔
      ∃ before a rest, as = before ++ a :: rest ∧ Puts e id (after before) a ∧
        ∀ b ∈ rest, ¬ Takes e id b := by
  have hiff := System.exec_holds_iff (M := serverMachine)
    (fun s => id ∈ (s.handler.updates e).map (·.id)) (Puts e id) (Takes e id)
    (fun s a s' hs hstep => by
      obtain rfl := Option.some.inj hstep
      obtain ⟨added, h, hputs, htakes⟩ | ⟨u, h, hputs, htakes⟩ :=
        updates_of_step (s := s) (a := a) e
      · rw [h, mem_ids_merged, hputs]
        simp [htakes, or_comm]
      · rw [h, mem_ids_eraseP (distinctUpdates_of_reachable hs e), htakes]
        simp [hputs]) (.init rfl) (exec_after as)
  rw [hiff]
  constructor
  -- a run begins with empty lists, so some call put it there
  · rintro (⟨h, -⟩ | ⟨before, a, rest, t, rfl, ht, hput, hrest⟩)
    · cases h
    · obtain rfl := Option.some.inj ((exec_after before).symm.trans ht)
      exact ⟨before, a, rest, rfl, hput, hrest⟩
  · rintro ⟨before, a, rest, rfl, hput, hrest⟩
    exact .inr ⟨before, a, rest, after before, rfl, exec_after before, hput, hrest⟩

end

end Server

end VerAI
