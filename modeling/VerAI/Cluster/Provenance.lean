import VerAI.Cluster.Cluster
import VerAI.Controller.Origin
/-!
# Only what was generated is downloaded

A torrent goes from the record of the daemon that generated it through a
report, the queue of the server, a download list and an answer into the call
of `DownloadAsync` of another daemon. On the way it may be sent back: a daemon
that refuses it reports it as the server sent it, and the server takes that
for a torrent generated once more. Whatever way it took, and whatever the
network lost, some daemon of the cluster has generated it.
-/

namespace VerAI

namespace Cluster

open Client (DaemonInfo Event)
open Controller (DaemonState DaemonAction Generates toDownload daemons_of_step history_of_daemons
  origin_of_reachable toDownload_of_daemons)
open Server (Request after answer reported reported_of_downloads)
open Torrent (RpcTorrentInfo)

variable {ι : Type} [DecidableEq ι] {setup : ι → Setup} {s s' : ClusterState ι}
  {a : ClusterAction ι} {i : ι} {id : String}

omit [DecidableEq ι] in
/-- Some daemon has generated the torrent. -/
def Made (s : ClusterState ι) (id : String) : Prop :=
  ∃ i, Generates (s.daemons i).history id

/-- **Every torrent on its way was generated.** -/
structure ProvenanceInv (s : ClusterState ι) : Prop where
  reported : ∀ t ∈ s.requests.flatMap reported, Made s t.id
  toDownload : ∀ i, ∀ t ∈ toDownload (s.daemons i).controller.client.body, Made s t.id
  downloaded : ∀ i id, .downloadAsync id ∈ (s.daemons i).history → Made s id

theorem Made.of_step (hm : Made s id) (h : Clusters setup s a s') : Made s' id := by
  obtain ⟨j, hj⟩ := hm
  obtain ⟨i, b, d, hd, heq⟩ := h.daemons
  refine ⟨j, ?_⟩
  rw [heq]
  by_cases hij : j = i
  · subst hij
    obtain ⟨new, hnew, -⟩ := history_of_daemons (daemons_of_step hd)
    rw [Function.update_self, hnew]
    exact hj.mono (List.subset_append_right _ _)
  · rw [Function.update_of_ne hij]
    exact hj

omit [DecidableEq ι] in
/-- What a daemon sees of an answer to `GetTorrentsForDownload` was reported. -/
theorem reported_of_answer {info : DaemonInfo} {newUuid uuid : String} {r : Request}
    {delivery : Delivery} {list : List RpcTorrentInfo} {t : RpcTorrentInfo}
    (hserver : s.server = after s.requests)
    (hr : asked uuid newUuid (.call .getTorrentsForDownload info) = some r)
    (hlist : delivery.event (answer s.server r) = .torrents list) (ht : t ∈ list) :
    t ∈ s.requests.flatMap reported := by
  obtain rfl := Option.some.inj hr
  have hmem : t ∈ (Server.getTorrentsForDownload info s.server.handler).1 := by
    cases delivery with
    | answered =>
      obtain rfl := Event.torrents.inj hlist
      exact ht
    | broken n =>
      obtain rfl := Event.torrents.inj hlist
      exact List.mem_of_mem_take ht
    | lost =>
      obtain rfl := Event.torrents.inj hlist
      exact List.mem_of_mem_take ht
  rw [Server.getTorrentsForDownload_fst, hserver] at hmem
  exact reported_of_downloads hmem

/-- One daemon takes a step, told to download only what was generated. -/
theorem ProvenanceInv.daemon (hi : ProvenanceInv s) {b : DaemonAction} {d : DaemonState}
    (hd : DaemonStep setup s i b d)
    (hanswer : ∀ info list, (s.daemons i).controller.client.body =
      .call .getTorrentsForDownload info → b = answerStep (.torrents list) →
        ∀ t ∈ list, Made s t.id) (j : ι) :
    (∀ t ∈ Controller.toDownload ((s.setDaemon i d).daemons j).controller.client.body,
      Made s t.id) ∧
    ∀ id, .downloadAsync id ∈ ((s.setDaemon i d).daemons j).history → Made s id := by
  by_cases hij : j = i
  · subst hij
    rw [daemons_setDaemon_self]
    have hstep := daemons_of_step hd
    refine ⟨fun t ht => ?_, fun id hid => ?_⟩
    · obtain hold | ⟨info, list, hb, rfl, hmem⟩ := toDownload_of_daemons hstep ht
      · exact hi.toDownload j t hold
      · exact hanswer info list hb rfl t hmem
    · obtain ⟨new, hnew, hcall⟩ := history_of_daemons hstep
      rw [hnew] at hid
      obtain hid | hid := List.mem_append.mp hid
      · obtain ⟨t, ht, rfl⟩ := hcall id hid
        exact hi.toDownload j t ht
      · exact hi.downloaded j id hid
  · rw [daemons_setDaemon_of_ne hij]
    exact ⟨hi.toDownload j, hi.downloaded j⟩

/-- A report that reaches the server as generated is of a torrent that was. -/
theorem ProvenanceInv.asked (hi : ProvenanceInv s) (hr : (clusterMachine setup).Reachable s)
    {newUuid : String} {r : Request} {t : RpcTorrentInfo}
    (hasked : asked (setup i).uuid newUuid (s.daemons i).controller.client.body = some r)
    (ht : t ∈ Server.reported r) : Made s t.id := by
  cases hb : (s.daemons i).controller.client.body with
  | handshake =>
    rw [hb] at hasked
    obtain rfl := Option.some.inj hasked
    cases ht
  | call c info =>
    rw [hb] at hasked
    obtain rfl := Option.some.inj hasked
    cases c with
    | updateTorrentStatus tInfo reporter rest =>
      simp only [request, Server.reported] at ht
      split at ht
      · rename_i hgen
        obtain rfl := List.mem_singleton.mp ht
        -- `DownloadTorrentTask` reports what it was told to download, `UpdateTorrentTask`
        -- what the job of the id says
        cases reporter with
        | rejected => exact hi.toDownload i t (by rw [hb]; exact List.mem_cons_self)
        | polled =>
          exact ⟨i, (origin_of_reachable (daemon_of_reachable hr i)).polled t (by rw [hb]; rfl)
            hgen.1⟩
      · cases ht
    | _ => cases ht
  | _ =>
    rw [hb] at hasked
    cases hasked

theorem ProvenanceInv.step (hi : ProvenanceInv s) (hr : (clusterMachine setup).Reachable s)
    (h : Clusters setup s a s') : ProvenanceInv s' := by
  have hmade : ∀ id, Made s id → Made s' id := fun _ hm => hm.of_step h
  have hserver := server_of_reachable hr
  -- an answer tells of torrents that were reported, also where it breaks off
  have hanswer : ∀ {i newUuid r} {delivery : Delivery},
      Cluster.asked (setup i).uuid newUuid (s.daemons i).controller.client.body = some r →
      ∀ info list, (s.daemons i).controller.client.body = .call .getTorrentsForDownload info →
        answerStep (delivery.event (answer s.server r)) = answerStep (.torrents list) →
          ∀ t ∈ list, Made s t.id := by
    intro i newUuid r delivery hasked info list hb heq t ht
    rw [hb] at hasked
    cases heq' : delivery.event (answer s.server r) with
    | torrents list' =>
      rw [heq'] at heq
      cases heq
      exact hi.reported t (reported_of_answer hserver hasked heq' ht)
    | _ =>
      rw [heq'] at heq
      cases heq
  cases h with
  | @daemon i b d hb hd =>
    have hown := hi.daemon hd fun info list _ heq => by
      subst heq
      cases hb
    exact ⟨fun t ht => hmade _ (hi.reported t ht), fun j t ht => hmade _ ((hown j).1 t ht),
      fun j id hid => hmade _ ((hown j).2 id hid)⟩
  | lost hasked hd =>
    have hown := hi.daemon hd (@hanswer _ _ _ .lost hasked)
    exact ⟨fun t ht => hmade _ (hi.reported t ht), fun j t ht => hmade _ ((hown j).1 t ht),
      fun j id hid => hmade _ ((hown j).2 id hid)⟩
  | served _ hasked hd =>
    have hown := hi.daemon hd (hanswer hasked)
    refine ⟨fun t ht => hmade _ ?_, fun j t ht => hmade _ ((hown j).1 t ht),
      fun j id hid => hmade _ ((hown j).2 id hid)⟩
    obtain ⟨r', hr', ht'⟩ := List.mem_flatMap.mp ht
    obtain hold | hnew := List.mem_append.mp hr'
    · exact hi.reported t (List.mem_flatMap.mpr ⟨r', hold, ht'⟩)
    · obtain rfl := List.mem_singleton.mp hnew
      exact hi.asked hr hasked ht'

theorem provenance_of_reachable (h : (clusterMachine setup).Reachable s) : ProvenanceInv s := by
  refine h.invariant_with ?_ fun s a s' hr hi hstep => hi.step hr (clusters_of_step hstep)
  rintro s rfl
  refine ⟨fun t ht => ?_, fun i t ht => ?_, fun i id hid => ?_⟩
  · cases ht
  · cases ht
  · cases hid

/-- **Whatever a daemon downloads, a daemon has generated**, in every run of the
cluster. -/
theorem made_of_downloadAsync (h : (clusterMachine setup).Reachable s)
    (hd : .downloadAsync id ∈ (s.daemons i).history) :
    ∃ j, .createTorrent id ∈ (s.daemons j).history ∧ .generated id ∈ (s.daemons j).history :=
  (provenance_of_reachable h).downloaded i id hd

/-! ## Two daemons -/

/-- Two daemons with the configuration of one, "a" and "b". -/
def twoDaemons (i : Bool) : Setup :=
  ⟨⟨"/torrents", "/projects"⟩, Torrent.oneLink, if i then "b" else "a"⟩

/-- Steps of a daemon that need no answer. -/
def steps (i : Bool) (as : List Controller.ControllerAction) : List (ClusterAction Bool) :=
  as.map fun a => .daemon i (.controller a)

/-- `Start` of a daemon, its handshake and its first task list. -/
def startAndPoll (i : Bool) : List (ClusterAction Bool) :=
  steps i ([.start] ++ List.replicate 7 .control ++ List.replicate 4 (.client .work)) ++
    [ClusterAction.rpc i .answered ""] ++
    steps i ([.client (.body .next)] ++ List.replicate 5 (.client .work) ++
      [.client (.body .next), .client (.body .next)]) ++ [ClusterAction.rpc i .answered ""]

/-- The torrent "t" as "a" reports it. -/
def reportOfT : RpcTorrentInfo :=
  ⟨"t", "magnet:?xt=urn:btih:9f&dn=model", "", .generated, 100, ""⟩

/-- "a" is told to generate a torrent, generates it and reports it. -/
def generateAndReport : List (ClusterAction Bool) :=
  startAndPoll false ++
    steps false (List.replicate 3 (.client (.body .next)) ++ List.replicate 5 (.client .work) ++
      [.client (.body .next)]) ++ [ClusterAction.rpc false .answered "t"] ++
    steps false [.client (.body .next)] ++
    List.replicate 3 (ClusterAction.daemon false .createTorrentAsync) ++
    ([Torrent.Event.next, .next, .next, .next, .hashed, .next, .fileMissing, .next, .next,
      .loaded "magnet:?xt=urn:btih:9f&dn=model", .next, .next, .next, .next].map fun e =>
        ClusterAction.daemon false (.job 0 e "")) ++
    steps false [.client (.body .next), .client .work, .client .work, .client (.body .next)] ++
    [ClusterAction.rpc false .answered "", .daemon false (.updateTorrentInfo reportOfT)] ++
    steps false [.client (.body .next)] ++ [ClusterAction.rpc false .answered ""]

/-- "b" registers, is dealt the torrent and downloads it. -/
def fetchAndDownload : List (ClusterAction Bool) :=
  startAndPoll true ++
    steps true (List.replicate 2 (.client (.body .next)) ++ List.replicate 5 (.client .work) ++
      [.client (.body .next)]) ++ [ClusterAction.rpc true .answered ""] ++
    steps true [.client (.body .next)] ++
    List.replicate 8 (ClusterAction.daemon true (.downloadAsync ""))

/-- "b" downloads the torrent. -/
theorem exists_fetched : ∃ s, (clusterMachine twoDaemons).Reachable s ∧
    (s.daemons true).history = [.downloadAsync "t"] := by
  have hrun : ((clusterMachine twoDaemons).exec ⟨fun _ => .new, ⟨.new, true⟩, []⟩
      (generateAndReport ++ fetchAndDownload)).map (fun s => (s.daemons true).history) =
      some [.downloadAsync "t"] := by decide
  obtain ⟨s, hs, hhistory⟩ := Option.map_eq_some_iff.mp hrun
  exact ⟨s, Transition.System.reachable_of_exec _ rfl hs, hhistory⟩

/-- What "a" has generated. -/
theorem twoDaemons_made : ∃ s, (clusterMachine twoDaemons).Reachable s ∧
    (s.daemons true).history = [.downloadAsync "t"] ∧
    ∃ j, .createTorrent "t" ∈ (s.daemons j).history ∧
      .generated "t" ∈ (s.daemons j).history := by
  obtain ⟨s, hr, hhistory⟩ := exists_fetched
  exact ⟨s, hr, hhistory, made_of_downloadAsync (i := true) hr (by simp [hhistory])⟩

end Cluster

end VerAI
