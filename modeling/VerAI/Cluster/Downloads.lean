import VerAI.Cluster.Provenance
import Mathlib.Algebra.Order.BigOperators.Group.Finset
import Mathlib.Data.Fintype.Basic
/-!
# One report, one download at most

The server deals a reported torrent to one daemon and answers it once. So the
calls of `DownloadAsync` for an id, made by all the daemons together or still
ahead of them, are no more than the answers that gave it, these no more than
the reports that reached the server, and these no more than those sent. A
request or an answer that is lost only makes the calls fewer.
-/

namespace VerAI

namespace Cluster

open Client (DaemonInfo Event)
open Controller (DaemonState DaemonAction Entry calls_of_daemons daemons_of_step history_of_daemons
  sentBy)
open Server (Request answer fetchedIds fetchedIds_le collected reported)
open Torrent (RpcTorrentInfo)

variable {ι : Type} [DecidableEq ι] {setup : ι → Setup} {s s' : ClusterState ι}
  {a : ClusterAction ι} {i : ι} {id : String}

/-- A report that a torrent has been generated, with its link. -/
def isGeneratedReport (id : String) : Entry → Bool
  | .sent tInfo => tInfo.id = id ∧ tInfo.status = .generated ∧ tInfo.link.isEmpty = false
  | _ => false

/-! ## One daemon among all -/

section Sum

variable [Fintype ι] {β : Type}

/-- A sum over all of them, one of which has changed. -/
theorem sum_update (f : β → ℕ) (g : ι → β) (i : ι) (b : β) :
    ∑ j, f (Function.update g i b j) + f (g i) = ∑ j, f (g j) + f b := by
  have hrest : ∑ j ∈ Finset.univ.erase i, f (Function.update g i b j) =
      ∑ j ∈ Finset.univ.erase i, f (g j) :=
    Finset.sum_congr rfl fun j hj => by rw [Function.update_of_ne (Finset.ne_of_mem_erase hj)]
  rw [← Finset.add_sum_erase _ _ (Finset.mem_univ i),
    ← Finset.add_sum_erase _ _ (Finset.mem_univ i), hrest, Function.update_self]
  omega

end Sum

/-! ## The calls and the answers -/

omit [DecidableEq ι] in
/-- What a daemon sees of an answer gives an id no more often than the answer. -/
theorem count_event_le {info : DaemonInfo} {newUuid uuid : String} {r : Request}
    {delivery : Delivery} {list : List RpcTorrentInfo}
    (hr : asked uuid newUuid (.call .getTorrentsForDownload info) = some r)
    (hlist : delivery.event (answer s.server r) = .torrents list) :
    (list.map (·.id)).count id ≤ (fetchedIds s.server r).count id := by
  obtain rfl := Option.some.inj hr
  have htake : ∀ (n : ℕ) (full : List RpcTorrentInfo),
      ((full.take n).map (·.id)).count id ≤ (full.map (·.id)).count id := fun n full =>
    ((List.take_sublist n full).map _).count_le _
  cases delivery with
  | answered =>
    obtain rfl := Event.torrents.inj hlist
    exact le_rfl
  | broken n | lost =>
    obtain rfl := Event.torrents.inj hlist
    exact htake _ _

omit [DecidableEq ι] in
/-- The calls of a daemon after an answer. -/
theorem calls_of_answer (id : String) {newUuid : String} {r : Request} {delivery : Delivery}
    {d : DaemonState}
    (hasked : asked (setup i).uuid newUuid (s.daemons i).controller.client.body = some r)
    (hd : DaemonStep setup s i (answerStep (delivery.event (answer s.server r))) d) :
    d.calls id ≤ (s.daemons i).calls id + (fetchedIds s.server r).count id := by
  obtain h | ⟨info, list, hb, heq, h⟩ := calls_of_daemons (daemons_of_step hd) id
  · exact h.trans (Nat.le_add_right _ _)
  · rw [hb] at hasked
    cases hevent : delivery.event (answer s.server r) with
    | torrents list' =>
      rw [hevent] at heq
      cases heq
      exact h.trans (Nat.add_le_add_left (count_event_le hasked hevent) _)
    | _ =>
      rw [hevent] at heq
      cases heq

omit [DecidableEq ι] in
/-- A lost request brings nothing. -/
theorem calls_of_lost (id : String) {newUuid : String} {r : Request} {d : DaemonState}
    (hasked : asked (setup i).uuid newUuid (s.daemons i).controller.client.body = some r)
    (hd : DaemonStep setup s i (answerStep (truncate 0 (answer s.server r))) d) :
    d.calls id ≤ (s.daemons i).calls id := by
  obtain h | ⟨info, list, hb, heq, h⟩ := calls_of_daemons (daemons_of_step hd) id
  · exact h
  · rw [hb] at hasked
    obtain rfl := Option.some.inj hasked
    cases heq
    simpa using h

variable [Fintype ι]

/-- **No more calls than answers.** -/
theorem calls_le (h : (clusterMachine setup).Reachable s) (id : String) :
    ∑ i, (s.daemons i).calls id ≤ (collected fetchedIds s.requests).count id := by
  refine h.invariant_with
    (I := fun s => ∑ i, (s.daemons i).calls id ≤ (collected fetchedIds s.requests).count id) ?_ ?_
  · rintro s rfl
    simp [DaemonState.calls, DaemonState.ahead, DaemonState.new, Controller.ahead,
      Controller.ControllerState.new, Client.ClientState.new]
  · intro s a s' hr hs hstep
    have hserver := server_of_reachable hr
    cases clusters_of_step hstep with
    | @daemon i b d hb hd =>
      have hsum := sum_update (fun d : DaemonState => d.calls id) s.daemons i d
      -- a list to download comes with an answer only
      have hone : d.calls id ≤ (s.daemons i).calls id := by
        obtain h | ⟨info, list, -, rfl, -⟩ := calls_of_daemons (daemons_of_step hd) id
        · exact h
        · cases hb
      simp only [ClusterState.setDaemon] at hsum ⊢
      omega
    | @lost i newUuid r d hasked hd =>
      have hsum := sum_update (fun d : DaemonState => d.calls id) s.daemons i d
      have hone := calls_of_lost id hasked hd
      simp only [ClusterState.setDaemon] at hsum ⊢
      omega
    -- the answer is counted when it is given, whatever of it arrives
    | @served i delivery newUuid r d _ hasked hd =>
      have hsum := sum_update (fun d : DaemonState => d.calls id) s.daemons i d
      have hone := calls_of_answer id hasked hd
      rw [hserver] at hone
      simp only [ClusterState.setDaemon, ClusterState.serve] at hsum ⊢
      rw [Server.collected_concat, List.count_append]
      omega

/-! ## The reports -/

omit [DecidableEq ι] [Fintype ι] in
theorem countP_history_le (id : String) {b : DaemonAction} {d : DaemonState}
    (hd : DaemonStep setup s i b d) :
    (s.daemons i).history.countP (isGeneratedReport id) ≤
      d.history.countP (isGeneratedReport id) := by
  obtain ⟨new, hnew, -⟩ := history_of_daemons (daemons_of_step hd)
  rw [hnew, List.countP_append]
  exact Nat.le_add_left _ _

omit [DecidableEq ι] [Fintype ι] in
/-- A report that is answered has been sent. -/
theorem reports_of_answer (id : String) {newUuid : String} {r : Request} {delivery : Delivery}
    {d : DaemonState}
    (hasked : asked (setup i).uuid newUuid (s.daemons i).controller.client.body = some r)
    (hd : DaemonStep setup s i (answerStep (delivery.event (answer s.server r))) d) :
    (s.daemons i).history.countP (isGeneratedReport id) + ((reported r).map (·.id)).count id ≤
      d.history.countP (isGeneratedReport id) := by
  have hkeep := countP_history_le id hd
  cases hb : (s.daemons i).controller.client.body with
  | call c info =>
    rw [hb] at hasked
    obtain rfl := Option.some.inj hasked
    cases c with
    | updateTorrentStatus tInfo reporter rest =>
      have hevent : delivery.event
          (answer s.server (request info newUuid (.updateTorrentStatus tInfo reporter rest))) =
            .reported := by cases delivery <;> rfl
      rw [hevent] at hd
      cases daemons_of_step hd with
      | controller =>
        simp only [hb, sentBy, List.singleton_append, List.countP_cons, request, reported,
          isGeneratedReport]
        -- what the server counts as generated is what the daemon has sent as such
        by_cases hgen : tInfo.status = .generated ∧ tInfo.link.isEmpty = false
        · by_cases hid : tInfo.id = id <;> simp [hgen, hid]
        · simp only [if_neg hgen]
          exact Nat.le_add_right _ _
    | _ => exact hkeep
  | handshake =>
    rw [hb] at hasked
    obtain rfl := Option.some.inj hasked
    exact hkeep
  | _ =>
    rw [hb] at hasked
    cases hasked

/-- **No more reports reach the server than were sent.** -/
theorem reports_le (h : (clusterMachine setup).Reachable s) (id : String) :
    ((s.requests.flatMap reported).map (·.id)).count id ≤
      ∑ i, (s.daemons i).history.countP (isGeneratedReport id) := by
  refine h.invariant
    (I := fun s => ((s.requests.flatMap reported).map (·.id)).count id ≤
      ∑ i, (s.daemons i).history.countP (isGeneratedReport id)) ?_ ?_
  · rintro s rfl
    exact Nat.zero_le _
  · intro s a s' hs _ hstep
    have hsum := fun i d =>
      sum_update (fun d : DaemonState => d.history.countP (isGeneratedReport id)) s.daemons i d
    cases clusters_of_step hstep with
    | @daemon i b d hb hd =>
      have hone := countP_history_le id hd
      have hsum := hsum i d
      simp only [ClusterState.setDaemon] at hsum ⊢
      omega
    | @lost i newUuid r d hasked hd =>
      have hone := countP_history_le id hd
      have hsum := hsum i d
      simp only [ClusterState.setDaemon] at hsum ⊢
      omega
    | @served i delivery newUuid r d _ hasked hd =>
      have hone := reports_of_answer id hasked hd
      have hsum := hsum i d
      simp only [ClusterState.setDaemon, ClusterState.serve, List.flatMap_append, List.map_append,
        List.count_append, List.flatMap_singleton] at hsum ⊢
      omega

/-- **A report of a generated torrent leads to one download at most**, in every
run of the cluster. -/
theorem downloads_le_reports (h : (clusterMachine setup).Reachable s) (id : String) :
    ∑ i, (s.daemons i).history.count (.downloadAsync id) ≤
      ∑ i, (s.daemons i).history.countP (isGeneratedReport id) := by
  calc ∑ i, (s.daemons i).history.count (.downloadAsync id)
    _ ≤ ∑ i, (s.daemons i).calls id := Finset.sum_le_sum fun i _ => Nat.le_add_right _ _
    _ ≤ (collected fetchedIds s.requests).count id := calls_le h id
    _ ≤ ((s.requests.flatMap reported).map (·.id)).count id := fetchedIds_le s.requests id
    _ ≤ ∑ i, (s.daemons i).history.countP (isGeneratedReport id) := reports_le h id

/-- "a" reports once, and "b" downloads once. -/
theorem twoDaemons_downloads : ∃ s, (clusterMachine twoDaemons).Reachable s ∧
    (s.daemons true).history = [.downloadAsync "t"] ∧
    ∑ i, (s.daemons i).history.count (.downloadAsync "t") ≤
      ∑ i, (s.daemons i).history.countP (isGeneratedReport "t") := by
  obtain ⟨s, hr, hhistory⟩ := exists_fetched
  exact ⟨s, hr, hhistory, downloads_le_reports hr "t"⟩

end Cluster

end VerAI
