import VerAI.Torrent.Registered
/-!
# Two sources of a magnet link

The link of a torrent is in its record, and `GetMagnetFromHandler` makes one
of the metadata in the parameters the torrent was added with. `CreateTorrent`
adds a torrent with the metadata of its file; `DownloadAsync` adds it from the
link alone, and no alert fills the metadata in later: it stores the handle
only. So the pointer that `GetMagnetFromHandler` dereferences is null for
every download.

The calls and alerts are those of the registry. Beside it stands the
metadata of each entry; the entries and the records run as there.
-/

namespace VerAI

namespace Torrent

open Transition (System)

/-- What libtorrent makes of links and metadata. -/
structure MagnetLinks (Info Hash : Type) where
  infoHash : Info → Hash
  /-- The info hash `parse_magnet_uri` finds in a link, `none` on an error code. -/
  linkHash : String → Option Hash
  makeMagnetUri : Info → String

variable {Info Hash : Type}

/-- A link made of metadata is a link to its torrent. -/
def MagnetLinks.LinksBack (lt : MagnetLinks Info Hash) : Prop :=
  ∀ ti, lt.linkHash (lt.makeMagnetUri ti) = some (lt.infoHash ti)

/-- Two links to one torrent. -/
def SameTorrent (lt : MagnetLinks Info Hash) (link link' : String) : Prop :=
  ∃ hash, lt.linkHash link = some hash ∧ lt.linkHash link' = some hash

/-- A link to the torrent of the metadata. -/
def LinkOf (lt : MagnetLinks Info Hash) (ti : Info) (link : String) : Prop :=
  lt.linkHash link = some (lt.infoHash ti)

/-- The registry, and `param.ti` of each entry. -/
structure MagnetState (Info : Type) where
  registry : RegistryState
  tis : Std.TreeMap String (Option Info)

/-- The records and entries. -/
abbrev MagnetState.maps (s : MagnetState Info) : Maps := s.registry.maps

/-- A step of the registry, with the metadata of the file a job reads there, or
`Stop`. -/
inductive MagnetAction (Info : Type)
  | registry (a : RegistryAction) (ti : Info)
  | stop

/-- The key `AddTorrent` puts a torrent under. -/
def addKey (uuid newUuid : String) : String := if uuid.isEmpty then newUuid else uuid

/-- `param.ti` of the torrent a call adds. -/
def Call.ti (ti : Info) : Call → Option Info
  | downloadAsync _ => none
  | createTorrent _ => some ti

/-- The metadata after `torrentsIdList[curUUID].param = param`. -/
def addedTi (a : RegistryAction) (ti : Info) (s : MagnetState Info) :
    Std.TreeMap String (Option Info) :=
  match a with
  | .call i .next newUuid =>
    match s.registry.calls[i]? with
    | some c => if c.adding then s.tis.insert (addKey c.uuid newUuid) (c.ti ti) else s.tis
    | none => s.tis
  | _ => s.tis

/-- The link a job has read is the one of the metadata in its file. -/
def fits (lt : MagnetLinks Info Hash) (ti : Info) : RegistryAction → Bool
  | .call _ (.loaded magnet) _ => magnet = lt.makeMagnetUri ti
  | _ => true

def magnetStep (lt : MagnetLinks Info Hash) (cfg : Config) (env : Environment)
    (s : MagnetState Info) : MagnetAction Info → Option (MagnetState Info)
  | .registry a ti =>
    if fits lt ti a then
      ((registryMachine cfg env).step s.registry a).map fun r => ⟨r, addedTi a ti s⟩
    else none
  | .stop =>
    -- the thread that handles the alerts has been joined
    if s.registry.handling.isNone then
      some ⟨{ s.registry with maps := { s.maps with torrentsIdList := ∅ } }, ∅⟩
    else none

/-- **Generated and downloaded torrents, and alerts.** -/
def magnetMachine (lt : MagnetLinks Info Hash) (cfg : Config) (env : Environment) :
    System (MagnetState Info) (MagnetAction Info) where
  init s := s = ⟨⟨⟨.empty, ∅⟩, [], none⟩, ∅⟩
  step := magnetStep lt cfg env

/-- `Torrent::GetMagnetFromHandler`; `none` where the pointer it dereferences is
null. -/
def getMagnetFromHandler (lt : MagnetLinks Info Hash) (uuid : String) (s : MagnetState Info) :
    Option String :=
  if uuid ∈ s.maps.torrentsIdList then (s.tis.getD uuid none).map lt.makeMagnetUri else some ""

/-- The link of the record of a uuid. -/
def MagnetState.tLink (s : MagnetState Info) (uuid : String) : String :=
  (s.maps.infoManager.get uuid).tLink

/-- **The two sources agree.** -/
def LinksAgree (lt : MagnetLinks Info Hash) (s : MagnetState Info) : Prop :=
  ∀ uuid ∈ s.maps.torrentsIdList, ∃ magnet,
    getMagnetFromHandler lt uuid s = some magnet ∧ SameTorrent lt magnet (s.tLink uuid)

/-- The link a call is about to set. -/
def Call.newLink : Call → Option String
  | downloadAsync ⟨_, link, .setLink⟩ => some link
  | createTorrent j => if j.pc = .setLink then some j.magnet else none
  | _ => none

def Call.generates : Call → Bool
  | downloadAsync _ => false
  | createTorrent _ => true

/-- No download is added; a job adds its torrent where the record has a link to
it; and a link set for a uuid that is a key is one to the torrent there. -/
def KeepsLinks (lt : MagnetLinks Info Hash) (s : MagnetState Info) : MagnetAction Info → Prop
  | .registry (.call i e newUuid) ti => ∀ c ∈ s.registry.calls[i]?,
      (e = .next → c.adding = true →
        c.generates = true ∧ LinkOf lt ti (s.tLink (addKey c.uuid newUuid))) ∧
      ∀ link ∈ c.newLink, ∀ added ∈ s.tis.getD c.uuid none, LinkOf lt added link
  | _ => True

instance [DecidableEq Hash] (lt : MagnetLinks Info Hash) (ti : Info) (link : String) :
    Decidable (LinkOf lt ti link) :=
  inferInstanceAs (Decidable (lt.linkHash link = some (lt.infoHash ti)))

instance [DecidableEq Hash] (lt : MagnetLinks Info Hash) (s : MagnetState Info)
    (a : MagnetAction Info) : Decidable (KeepsLinks lt s a) :=
  match a with
  | .registry (.call i e newUuid) ti => inferInstanceAs (Decidable (∀ c ∈ s.registry.calls[i]?,
      (e = .next → c.adding = true →
        c.generates = true ∧ LinkOf lt ti (s.tLink (addKey c.uuid newUuid))) ∧
      ∀ link ∈ c.newLink, ∀ added ∈ s.tis.getD c.uuid none, LinkOf lt added link))
  | .registry (.downloadAsync _ _) _ => .isTrue trivial
  | .registry (.createTorrent _ _) _ => .isTrue trivial
  | .registry (.alert _ _) _ => .isTrue trivial
  | .registry .handleAlert _ => .isTrue trivial
  | .stop => .isTrue trivial

/-! ## What a call writes -/

section Effects

variable {cfg : Config} {env : Environment} {m m' : Maps} {c c' : Call} {d d' : Download}
  {j j' : Job} {e : Event} {newUuid : String}

/-- **What a step of a call does to entries and links**: it adds its torrent,
sets its link, or leaves both. -/
inductive Call.Effects (m : Maps) (c : Call) (e : Event) (newUuid : String) : Maps → Prop
  | adds {m' : Maps} : e = .next → c.adding = true → c.newLink = none →
      m'.infoManager = m.infoManager →
      (∀ k, k ∈ m'.torrentsIdList ↔ k = addKey c.uuid newUuid ∨ k ∈ m.torrentsIdList) →
      Effects m c e newUuid m'
  | links {link : String} : c.adding = false → c.newLink = some link → c.made = true →
      Effects m c e newUuid (m.write c.uuid (.link link))
  | keeps {m' : Maps} : ¬ (e = .next ∧ c.adding = true) → c.newLink = none →
      m'.torrentsIdList = m.torrentsIdList →
      (∀ v, (m'.infoManager.get v).tLink = (m.infoManager.get v).tLink) →
      Effects m c e newUuid m'

/-- A setter that sets no link. -/
theorem tLink_onRecord {w : Write} {infos : TorrentInfoManager} {id v : String}
    (h : ∀ link, w ≠ .link link) :
    ((infos.onRecord id w.apply).get v).tLink = (infos.get v).tLink :=
  TorrentInfoManager.get_onRecord_field TorrentInfo.tLink fun info => by
    cases w with
    | link l => exact absurd rfl (h l)
    | status | pathToProject | pathToTFile | progress => rfl

theorem Download.effects (h : d.step env e newUuid m = some (m', d')) :
    Call.Effects m (.downloadAsync d) e newUuid m' := by
  cases Download.moves_of_step h with
  | create => exact .keeps nofun rfl rfl fun v => congrArg _ TorrentInfoManager.get_create
  | @setLink uuid link => exact .links (c := .downloadAsync ⟨uuid, link, .setLink⟩) rfl rfl rfl
  | setStatus | failStatus | failProgress | setPathToProject =>
    exact .keeps nofun rfl rfl fun v => tLink_onRecord nofun
  | invalid | parsed | addThrew => exact .keeps nofun rfl rfl fun v => rfl
  | added => exact .adds rfl rfl rfl rfl fun k => mem_addTorrent

/-- A job sets the link where it stands at that setter. -/
theorem Job.pc_of_write {link : String} (h : j.write cfg = some (.link link)) :
    j.pc = .setLink := by
  cases hpc : j.pc with
  | setLink => rfl
  | _ => simp [Job.write, hpc] at h

theorem Job.tLink_effect {infos : TorrentInfoManager} {v : String} (h : j.pc ≠ .setLink) :
    ((j.effect cfg infos).get v).tLink = (infos.get v).tLink := by
  unfold Job.effect
  split
  · exact congrArg _ TorrentInfoManager.get_create
  · cases hw : j.write cfg with
    | none => rfl
    | some w =>
      refine tLink_onRecord fun link hlink => h ?_
      exact Job.pc_of_write (hlink ▸ hw)

theorem Job.effects (h : j.stepMaps cfg e newUuid m = some (m', j')) :
    Call.Effects m (.createTorrent j) e newUuid m' := by
  obtain ⟨pc, -, rfl⟩ := Job.stepMaps_eq_some h
  by_cases hadd : j.pc = .asyncAdd ∧ e = .next
  · rw [if_pos hadd, Job.effect_asyncAdd hadd.1]
    exact .adds hadd.2 (by simp [Call.adding, hadd.1]) (by simp [Call.newLink, hadd.1]) rfl
      fun k => mem_addTorrent
  · rw [if_neg hadd]
    by_cases hlink : j.pc = .setLink
    · have hwrite : j.effect cfg m.infoManager =
          m.infoManager.onRecord j.uuid (Write.link j.magnet).apply := by
        simp [Job.effect, Job.write, hlink]
      rw [hwrite]
      exact .links (c := .createTorrent j) (by simp [Call.adding, hlink])
        (by simp [Call.newLink, hlink]) (by simp [Call.made, hlink])
    · refine .keeps (fun h => hadd ⟨by simpa [Call.adding] using h.2, h.1⟩)
        (by simp [Call.newLink, hlink]) rfl fun v => Job.tLink_effect hlink

theorem Call.effects (h : c.step cfg env (e, newUuid) m = some (m', c')) :
    Call.Effects m c e newUuid m' := by
  cases c with
  | downloadAsync d =>
    obtain ⟨⟨m1, d1⟩, hstep, heq⟩ := Option.map_eq_some_iff.mp h
    obtain ⟨rfl, -⟩ := Prod.mk.inj heq
    exact Download.effects hstep
  | createTorrent j =>
    obtain ⟨⟨m1, j1⟩, hstep, heq⟩ := Option.map_eq_some_iff.mp h
    obtain ⟨rfl, -⟩ := Prod.mk.inj heq
    exact Job.effects hstep

end Effects

/-! ## What the agreement says of the metadata -/

section Agreement

variable {lt : MagnetLinks Info Hash} {s s' : MagnetState Info}

theorem LinkOf.of_eq {ti : Info} {link link' : String} (h : LinkOf lt ti link)
    (heq : link' = link) : LinkOf lt ti link' :=
  heq ▸ h

/-- There is metadata under each key, and the record has a link to it. -/
theorem linksAgree_iff (hlt : lt.LinksBack) : LinksAgree lt s ↔
    ∀ uuid ∈ s.maps.torrentsIdList, ∃ ti, s.tis.getD uuid none = some ti ∧
      LinkOf lt ti (s.tLink uuid) := by
  refine forall₂_congr fun uuid hmem => ?_
  rw [getMagnetFromHandler, if_pos hmem]
  cases s.tis.getD uuid none with
  | none => simp
  | some ti =>
    constructor
    · rintro ⟨magnet, hmagnet, hash, hmade, hrecord⟩
      obtain rfl := Option.some.inj hmagnet
      exact ⟨ti, rfl, hrecord.trans (hmade.symm.trans (hlt ti))⟩
    · rintro ⟨ti', hti, hlink⟩
      obtain rfl := Option.some.inj hti
      exact ⟨_, rfl, _, hlt ti, hlink⟩

/-- It is told by entries, metadata and links. -/
theorem LinksAgree.congr (hs : LinksAgree lt s)
    (hkeys : s'.maps.torrentsIdList = s.maps.torrentsIdList) (htis : s'.tis = s.tis)
    (hlinks : ∀ v, s'.tLink v = s.tLink v) : LinksAgree lt s' := by
  simp only [LinksAgree, getMagnetFromHandler, hkeys, htis, hlinks]
  exact hs

end Agreement

/-! ## Every run -/

section Runs

variable {lt : MagnetLinks Info Hash} {cfg : Config} {env : Environment}
  {s s' : MagnetState Info} {a : MagnetAction Info}

/-- The metadata is that of the entries, a call that has made its record has
one, and no setter of an alert sets a link. -/
structure MagnetInv (s : MagnetState Info) : Prop where
  keys : ∀ uuid ∈ s.tis, uuid ∈ s.maps.torrentsIdList
  calls : CallsRecorded s.registry
  handling : ∀ id writes, s.registry.handling = some (id, writes) →
    ∀ w ∈ writes, ∀ link, w ≠ .link link

/-- A step of the registry is one of the machine. -/
theorem registries_of_magnet {b : RegistryAction} {ti : Info}
    (h : magnetStep lt cfg env s (.registry b ti) = some s') :
    ∃ r, Registries cfg env s.registry b r ∧ s' = ⟨r, addedTi b ti s⟩ := by
  obtain ⟨-, h⟩ := Option.ite_none_right_eq_some.mp h
  obtain ⟨r, hr, rfl⟩ := Option.map_eq_some_iff.mp h
  exact ⟨r, registries_of_step hr, rfl⟩

/-- What a call adds to the metadata. -/
theorem addedTi_call {i : ℕ} {e : Event} {newUuid : String} {c : Call} {ti : Info}
    (hget : s.registry.calls[i]? = some c) : addedTi (.call i e newUuid) ti s =
      if e = .next ∧ c.adding = true then s.tis.insert (addKey c.uuid newUuid) (c.ti ti)
      else s.tis := by
  cases e with
  | next => simp [addedTi, hget]
  | noFiles | piece | hashed | hashError | undefinedEntry | fileExists | fileMissing
  | removeFailed | loaded | loadFailed | addThrew => rfl

theorem Alert.writes_ne_link {torrentName id link : String} {a : Alert} {w : Write}
    (h : w ∈ a.writes env torrentName id) : w ≠ .link link := by
  rintro rfl
  unfold Alert.writes at h
  rcases a with error | _ | _ | ⟨finished, ppm⟩ <;> dsimp only at h <;> split_ifs at h <;>
    simp at h

theorem MagnetInv.step (hi : MagnetInv s) (h : (magnetMachine lt cfg env).step s a = some s') :
    MagnetInv s' := by
  cases a with
  | stop =>
    obtain ⟨hnone, h⟩ := Option.ite_none_right_eq_some.mp h
    obtain rfl := Option.some.inj h
    exact ⟨fun uuid hmem => absurd hmem Std.TreeMap.not_mem_emptyc, hi.calls, hi.handling⟩
  | registry b ti =>
    obtain ⟨r, hr, rfl⟩ := registries_of_magnet h
    have hcalls := hi.calls.step hr
    cases hr with
    | downloadAsync | createTorrent => exact ⟨hi.keys, hcalls, hi.handling⟩
    | @call i e newUuid m c c' hget hstep =>
      refine ⟨fun uuid hmem => ?_, hcalls, hi.handling⟩
      have heffects := Call.effects hstep
      dsimp only at hmem
      rw [addedTi_call hget] at hmem
      cases heffects with
      | adds he ha _ _ hkeys =>
        rw [if_pos ⟨he, ha⟩, Std.TreeMap.mem_insert, Std.LawfulEqCmp.compare_eq_iff_eq] at hmem
        exact (hkeys uuid).mpr (hmem.imp Eq.symm (hi.keys uuid))
      | links ha =>
        rw [if_neg fun h => by simp [ha] at h] at hmem
        exact hi.keys uuid hmem
      | keeps ha _ hlist =>
        rw [if_neg ha] at hmem
        exact hlist ▸ hi.keys uuid hmem
    | alert =>
      refine ⟨hi.keys, hcalls, fun id writes hf w hw link => ?_⟩
      obtain ⟨-, rfl⟩ := Prod.mk.inj (Option.some.inj hf)
      exact Alert.writes_ne_link hw
    | write hf =>
      refine ⟨hi.keys, hcalls, fun id' writes hf' w hw link => ?_⟩
      obtain ⟨-, rfl⟩ := Prod.mk.inj (Option.some.inj hf')
      exact hi.handling _ _ hf w (List.mem_cons_of_mem _ hw) link
    | handled => exact ⟨hi.keys, hcalls, nofun⟩

theorem magnetInv_of_reachable (h : (magnetMachine lt cfg env).Reachable s) : MagnetInv s := by
  refine h.invariant (fun s hs => ?_) fun s a s' hi _ hstep => hi.step hstep
  obtain rfl := hs
  exact ⟨fun uuid hmem => absurd hmem Std.TreeMap.not_mem_emptyc, nofun, nofun⟩

/-- A call is added to, or takes a step. -/
theorem linksAgree_call_iff {i : ℕ} {e : Event} {newUuid : String} {m : Maps} {c c' : Call}
    {ti : Info} (hlt : lt.LinksBack) (hi : MagnetInv s) (hs : LinksAgree lt s)
    (hget : s.registry.calls[i]? = some c)
    (hstep : c.step cfg env (e, newUuid) s.maps = some (m, c')) :
    LinksAgree lt ⟨{ s.registry with maps := m, calls := s.registry.calls.set i c' },
      addedTi (.call i e newUuid) ti s⟩ ↔
    KeepsLinks lt s (.registry (.call i e newUuid) ti) := by
  have hcond : KeepsLinks lt s (.registry (.call i e newUuid) ti) ↔
      (e = .next → c.adding = true →
        c.generates = true ∧ LinkOf lt ti (s.tLink (addKey c.uuid newUuid))) ∧
      ∀ link ∈ c.newLink, ∀ added ∈ s.tis.getD c.uuid none, LinkOf lt added link := by
    simp [KeepsLinks, hget]
  have hold := (linksAgree_iff hlt).mp hs
  rw [hcond, addedTi_call hget]
  cases Call.effects hstep with
  | adds he ha hnew hinfos hkeys =>
    have hlinks : ∀ v, (m.infoManager.get v).tLink = s.tLink v :=
      fun v => congrArg (fun infos => (TorrentInfoManager.get v infos).tLink) hinfos
    rw [if_pos ⟨he, ha⟩, linksAgree_iff hlt, hnew]
    constructor
    · intro hall
      obtain ⟨added, hadded, hlink⟩ := hall (addKey c.uuid newUuid) ((hkeys _).mpr (.inl rfl))
      rw [Std.TreeMap.getD_insert_self] at hadded
      refine ⟨fun _ _ => ?_, nofun⟩
      cases c with
      | downloadAsync d => cases hadded
      | createTorrent j =>
        obtain rfl := Option.some.inj hadded
        exact ⟨rfl, hlink.of_eq (hlinks _).symm⟩
    · rintro ⟨hadds, -⟩ uuid hmem
      obtain ⟨hgen, hlink⟩ := hadds he ha
      by_cases huuid : uuid = addKey c.uuid newUuid
      · subst huuid
        refine ⟨ti, ?_, hlink.of_eq (hlinks _)⟩
        rw [Std.TreeMap.getD_insert_self]
        cases c with
        | downloadAsync d => cases hgen
        | createTorrent j => rfl
      · obtain ⟨added, hadded, hlink⟩ := hold uuid (((hkeys uuid).mp hmem).resolve_left huuid)
        refine ⟨added, ?_, hlink.of_eq (hlinks _)⟩
        rw [Std.TreeMap.getD_insert, if_neg fun h => huuid (Std.LawfulEqCmp.eq_of_compare h).symm]
        exact hadded
  | @links link ha hnew hmade =>
    have hhas : s.maps.infoManager.Has c.uuid := hi.calls c (List.mem_of_getElem? hget) hmade
    have hself : (((s.maps.write c.uuid (.link link)).infoManager).get c.uuid).tLink = link :=
      congrArg TorrentInfo.tLink (TorrentInfoManager.get_onRecord_self hhas)
    have hother : ∀ v, v ≠ c.uuid →
        (((s.maps.write c.uuid (.link link)).infoManager).get v).tLink = s.tLink v :=
      fun v hv => congrArg TorrentInfo.tLink (TorrentInfoManager.get_onRecord_of_ne hv.symm)
    rw [if_neg fun h => by simp [ha] at h, linksAgree_iff hlt, hnew]
    constructor
    · intro hall
      refine ⟨fun _ hadd => absurd (ha.symm.trans hadd) (by decide), fun l hl added hadded => ?_⟩
      obtain rfl := Option.some.inj hl
      have hmem : c.uuid ∈ s.tis := by
        by_contra hnot
        rw [Std.TreeMap.getD_eq_fallback hnot] at hadded
        cases hadded
      obtain ⟨added', hadded', hlink⟩ := hall c.uuid (hi.keys _ hmem)
      obtain rfl := Option.some.inj (hadded'.symm.trans hadded)
      exact hlink.of_eq hself.symm
    · rintro ⟨-, hlinks⟩ uuid hmem
      obtain ⟨added, hadded, hlink⟩ := hold uuid hmem
      refine ⟨added, hadded, ?_⟩
      by_cases huuid : uuid = c.uuid
      · subst huuid
        exact (hlinks link rfl added hadded).of_eq hself
      · exact hlink.of_eq (hother uuid huuid)
  | keeps ha hnew hlist hlinks =>
    rw [if_neg ha, hnew]
    exact ⟨fun _ => ⟨fun he hadd => absurd ⟨he, hadd⟩ ha, nofun⟩,
      fun _ => hs.congr hlist rfl hlinks⟩

/-- **What a step keeps, and exactly when.** -/
theorem linksAgree_step_iff (hlt : lt.LinksBack) (hi : MagnetInv s) (hs : LinksAgree lt s)
    (h : (magnetMachine lt cfg env).step s a = some s') :
    LinksAgree lt s' ↔ KeepsLinks lt s a := by
  cases a with
  | stop =>
    obtain ⟨hnone, h⟩ := Option.ite_none_right_eq_some.mp h
    obtain rfl := Option.some.inj h
    exact ⟨fun _ => trivial, fun _ uuid hmem => absurd hmem Std.TreeMap.not_mem_emptyc⟩
  | registry b ti =>
    obtain ⟨r, hr, rfl⟩ := registries_of_magnet h
    cases hr with
    | downloadAsync | createTorrent | alert | handled => exact ⟨fun _ => trivial, fun _ => hs⟩
    | call hget hstep => exact linksAgree_call_iff hlt hi hs hget hstep
    | write hf =>
      refine ⟨fun _ => trivial, fun _ => hs.congr rfl rfl fun v => ?_⟩
      exact tLink_onRecord (hi.handling _ _ hf _ List.mem_cons_self)

theorem linksAgree_of_reachableUnder (hlt : lt.LinksBack)
    (h : (magnetMachine lt cfg env).ReachableUnder (KeepsLinks lt) s) : LinksAgree lt s := by
  induction h with
  | init h0 =>
    obtain rfl := h0
    exact fun uuid hmem => absurd hmem Std.TreeMap.not_mem_emptyc
  | step h hc hstep ih =>
    exact (linksAgree_step_iff hlt (magnetInv_of_reachable h.reachable) ih hstep).mpr hc

/-- **When the two sources of a link agree.** In every run whose steps all meet
the condition, `GetMagnetFromHandler` of each key finds metadata, and its link
is to the torrent of the link in the record; and a step outside it, from a
state of such a run, leaves a key for which this is not so. -/
theorem linksAgree_iff_keepsLinks (hlt : lt.LinksBack)
    (h : (magnetMachine lt cfg env).ReachableUnder (KeepsLinks lt) s) :
    LinksAgree lt s ∧ ∀ a s', (magnetMachine lt cfg env).step s a = some s' →
      (LinksAgree lt s' ↔ KeepsLinks lt s a) := by
  have hs := linksAgree_of_reachableUnder hlt h
  refine ⟨hs, fun a s' hstep => ?_⟩
  exact linksAgree_step_iff hlt (magnetInv_of_reachable h.reachable) hs hstep

end Runs

/-! ## A generated torrent, and a downloaded one -/

/-- One torrent, with one link. -/
def oneMagnet : MagnetLinks Unit String where
  infoHash _ := "9f"
  linkHash link := if link = "magnet:?xt=urn:btih:9f&dn=model" then some "9f" else none
  makeMagnetUri _ := "magnet:?xt=urn:btih:9f&dn=model"

theorem oneMagnet_linksBack : oneMagnet.LinksBack := by
  intro ti
  cases ti
  decide

/-- A job from its call to its end. -/
def generateModel : List (MagnetAction Unit) :=
  .registry (.createTorrent "u" "/opt/model") () ::
    [.next, .next, .next, .next, .hashed, .next, .fileMissing, .next, .next,
      .loaded "magnet:?xt=urn:btih:9f&dn=model", .next, .next, .next, .next, .next, .next].map
      fun e => .registry (.call 0 e "") ()

/-- The torrent of a job that has been added. -/
theorem generateModel_linksAgree : ∃ s : MagnetState Unit,
    s.maps.torrentsIdList.keys = ["u"] ∧ LinksAgree oneMagnet s := by
  have hrun : (((magnetMachine oneMagnet ⟨"/t", "/p"⟩ oneLink).restrict
      (KeepsLinks oneMagnet)).exec ⟨⟨⟨.empty, ∅⟩, [], none⟩, ∅⟩ generateModel).map
      (fun s => s.maps.torrentsIdList.keys) = some ["u"] := by decide
  obtain ⟨s, hs, hkeys⟩ := Option.map_eq_some_iff.mp hrun
  have hreach : (magnetMachine oneMagnet ⟨"/t", "/p"⟩ oneLink).ReachableUnder
      (KeepsLinks oneMagnet) s := System.reachableUnder_of_exec _ rfl hs
  exact ⟨s, hkeys, (linksAgree_iff_keepsLinks oneMagnet_linksBack hreach).1⟩

/-- **A download has no metadata**: the pointer is null for its uuid. -/
theorem downloadModel_not_linksAgree : ¬ ∀ s : MagnetState Unit,
    (magnetMachine oneMagnet ⟨"/t", "/p"⟩ oneLink).Reachable s → LinksAgree oneMagnet s := by
  intro h
  have hrun : ((magnetMachine oneMagnet ⟨"/t", "/p"⟩ oneLink).exec ⟨⟨⟨.empty, ∅⟩, [], none⟩, ∅⟩
      (.registry (.downloadAsync "u" "magnet:?xt=urn:btih:9f&dn=model") () ::
        List.replicate 6 (.registry (.call 0 .next "") ()))).map
      (fun s => (decide ("u" ∈ s.maps.torrentsIdList), getMagnetFromHandler oneMagnet "u" s)) =
        some (true, none) := by decide
  obtain ⟨s, hs, hview⟩ := Option.map_eq_some_iff.mp hrun
  obtain ⟨hmem, hnull⟩ := Prod.mk.inj hview
  obtain ⟨magnet, hmagnet, -⟩ := h s (System.reachable_of_exec _ rfl hs) "u"
    (of_decide_eq_true hmem)
  rw [hnull] at hmagnet
  cases hmagnet

end Torrent

end VerAI
