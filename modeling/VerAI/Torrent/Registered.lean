import VerAI.Lib.Pool
import VerAI.Torrent.Alerts
import VerAI.Torrent.Job
/-!
# The torrents of the system and their records

The torrents in `torrentsIdList` and the records of the manager are two maps,
filled by different calls. `DownloadAsync` and `CreateTorrent` make the record
of their uuid first and add the torrent last; but `AddTorrent` puts a torrent
without a uuid under a generated one, for which no record was made. What an
alert writes for such a torrent goes to a detached object.

Any number of calls run at a time here, each step by step, with the thread
that handles the alerts beside them; each setter it calls is one step. The
handle it stores goes under a uuid that is a key already.
-/

namespace VerAI

namespace Torrent

open Transition (System poolStep)

/-- The two maps. -/
structure Maps where
  infoManager : TorrentInfoManager
  torrentsIdList : Std.TreeMap String AddTorrentParams

/-- A setter called on the pointer of `Get` or `Create`. -/
def Maps.write (m : Maps) (id : String) (w : Write) : Maps :=
  { m with infoManager := m.infoManager.onRecord id w.apply }

/-- Where `DownloadAsync` stands, before the call or write named. -/
inductive DownloadPc
  | create
  | setLink
  | setStatus
  | parseMagnetUri
  /-- In `UpdateStatus(uuid, DOWNLOADING_ERROR, 0)`. -/
  | failStatus
  | failProgress
  | setPathToProject (name : String)
  /-- Before `AddTorrent`, with the resume file read. -/
  | asyncAdd (name : String)
  | returned
  | threw
  deriving DecidableEq, Repr

/-- A call of `DownloadAsync`. -/
structure Download where
  uuid : String
  link : String
  pc : DownloadPc
  deriving DecidableEq, Repr

def Download.goto (d : Download) (pc : DownloadPc) : Download := { d with pc := pc }

/-- **A step of `DownloadAsync`**, with the uuid `GenerateUUID` would return. -/
def Download.step (env : Environment) (d : Download) (e : Event) (newUuid : String) (m : Maps) :
    Option (Maps × Download) :=
  match d.pc, e with
  | .create, .next =>
    some ({ m with infoManager := m.infoManager.create d.uuid }, d.goto .setLink)
  | .setLink, .next => some (m.write d.uuid (.link d.link), d.goto .setStatus)
  | .setStatus, .next => some (m.write d.uuid (.status .downloading), d.goto .parseMagnetUri)
  | .parseMagnetUri, .next =>
    some (m, d.goto (match env.parseMagnetUri d.link with
      | none => .failStatus
      | some name => .setPathToProject name))
  | .failStatus, .next => some (m.write d.uuid (.status .downloadingError), d.goto .failProgress)
  | .failProgress, .next => some (m.write d.uuid (.progress 0), d.goto .threw)
  | .setPathToProject name, .next =>
    some (m.write d.uuid (.pathToProject (env.downloadDirectory ++ "/" ++ name)),
      d.goto (.asyncAdd name))
  | .asyncAdd name, .next =>
    some ({ m with torrentsIdList := addTorrent d.uuid newUuid ⟨name⟩ m.torrentsIdList },
      d.goto .returned)
  -- `async_add_torrent` throws
  | .asyncAdd _, .addThrew _ => some (m, d.goto .threw)
  | _, _ => none

/-- A step of a job, with what it adds. -/
def Job.stepMaps (cfg : Config) (j : Job) (e : Event) (newUuid : String) (m : Maps) :
    Option (Maps × Job) :=
  (j.step cfg e m.infoManager).map fun r =>
    (⟨r.1, if j.pc = .asyncAdd ∧ e = .next then addTorrent j.uuid newUuid ⟨""⟩ m.torrentsIdList
      else m.torrentsIdList⟩, r.2)

/-- A call under way in some thread. -/
inductive Call
  | downloadAsync (d : Download)
  | createTorrent (j : Job)
  deriving DecidableEq, Repr

/-- **A step of a call.** -/
def Call.step (cfg : Config) (env : Environment) (c : Call) (e : Event × String) (m : Maps) :
    Option (Maps × Call) :=
  match c with
  | downloadAsync d => (d.step env e.1 e.2 m).map fun r => (r.1, downloadAsync r.2)
  | createTorrent j => (j.stepMaps cfg e.1 e.2 m).map fun r => (r.1, createTorrent r.2)

def Call.uuid : Call → String
  | downloadAsync d => d.uuid
  | createTorrent j => j.uuid

/-- The record of the call has been made. -/
def Call.made : Call → Bool
  | downloadAsync d => d.pc ≠ .create
  | createTorrent j => j.pc ≠ .create

/-- The call is about to add its torrent. -/
def Call.adding : Call → Bool
  | downloadAsync ⟨_, _, .asyncAdd _⟩ => true
  | createTorrent j => j.pc = .asyncAdd
  | _ => false

/-- An exception has left a job: the process is gone. -/
def Call.crashed : Call → Bool
  | downloadAsync _ => false
  | createTorrent j => j.crashed

/-- The setters an alert calls on the record of the uuid it has found. -/
def Alert.writes (env : Environment) (torrentName id : String) : Alert → List Write
  | .addTorrent error =>
    if error then if id.isEmpty then [] else [.status .downloadingError, .progress 0] else []
  | .torrentFinished =>
    (if id.isEmpty then [] else [.status .downloaded, .progress 100]) ++
      [.pathToTFile (env.torrentFilesDirectory ++ "/" ++ torrentName)]
  | .torrentError => if id.isEmpty then [] else [.status .downloadingError, .progress 0]
  | .stateUpdate finished progressPpm =>
    if id.isEmpty then [] else [.progress (updateProgress finished progressPpm)]

/-- The maps, the calls, and the alert being handled: the uuid found for it and
the setters not called yet. -/
structure RegistryState where
  maps : Maps
  calls : List Call
  handling : Option (String × List Write)

/-- A call, a step of the call at a place of the list, an alert taken up, or the
next setter it calls. -/
inductive RegistryAction
  | downloadAsync (uuid link : String)
  | createTorrent (uuid path : String)
  | call (i : ℕ) (e : Event) (newUuid : String)
  | alert (torrentName : String) (a : Alert)
  | handleAlert
  deriving DecidableEq, Repr

/-- A step of a process that still runs. -/
def registryStep (cfg : Config) (env : Environment) (s : RegistryState) :
    RegistryAction → Option RegistryState
  | .downloadAsync uuid link =>
    some { s with calls := s.calls ++ [.downloadAsync ⟨uuid, link, .create⟩] }
  | .createTorrent uuid path =>
    some { s with calls := s.calls ++ [.createTorrent (.spawned uuid path)] }
  | .call i e newUuid =>
    (poolStep (Call.step cfg env) i (e, newUuid) s.maps s.calls).map fun r =>
      { s with maps := r.1, calls := r.2 }
  | .alert torrentName a =>
    if s.handling.isNone then
      let id := getIdByName s.maps.torrentsIdList torrentName
      some { s with handling := some (id, a.writes env torrentName id) }
    else none
  | .handleAlert =>
    match s.handling with
    | some (id, w :: rest) => some { s with maps := s.maps.write id w, handling := some (id, rest) }
    | some (_, []) => some { s with handling := none }
    | none => none

/-- **Calls of `DownloadAsync` and `CreateTorrent`, and alerts.** -/
def registryMachine (cfg : Config) (env : Environment) : System RegistryState RegistryAction where
  init s := s = ⟨⟨.empty, ∅⟩, [], none⟩
  step s a := if s.calls.any Call.crashed then none else registryStep cfg env s a

/-- **Every torrent has a record.** -/
def Recorded (s : RegistryState) : Prop :=
  ∀ uuid ∈ s.maps.torrentsIdList, s.maps.infoManager.Has uuid

/-- What the next setter of an alert writes to the record of the uuid found is
what `GetTorrentInfo` reads there. -/
def Visible (s s' : RegistryState) : Prop :=
  ∀ id w rest, s.handling = some (id, w :: rest) → id ≠ "" →
    s'.maps.infoManager.get id = w.apply (s.maps.infoManager.get id)

/-- A torrent is added under a uuid, or the one generated has a record. -/
def AddsNamed (s : RegistryState) : RegistryAction → Prop
  | .call i e newUuid => ∀ c ∈ s.calls[i]?, e = .next → c.adding = true →
      c.uuid ≠ "" ∨ s.maps.infoManager.Has newUuid
  | _ => True

instance (s : RegistryState) (a : RegistryAction) : Decidable (AddsNamed s a) := by
  unfold AddsNamed
  split <;> infer_instance

/-! ## One step of a call -/

section Steps

variable {cfg : Config} {env : Environment} {m m' : Maps} {c c' : Call} {d d' : Download}
  {j j' : Job} {e : Event} {newUuid uuid : String}

/-- `AddTorrent` adds the one key. -/
theorem mem_addTorrent {k : String} {param : AddTorrentParams}
    {list : Std.TreeMap String AddTorrentParams} : k ∈ addTorrent uuid newUuid param list ↔
      k = (if uuid.isEmpty then newUuid else uuid) ∨ k ∈ list := by
  rw [addTorrent, Std.TreeMap.mem_insert, Std.LawfulEqCmp.compare_eq_iff_eq]
  exact or_congr_left eq_comm

/-- **What a step of a call does to the two maps**: it removes nothing, makes the
record of its uuid first, and adds its torrent where `AddTorrent` goes through. -/
structure Call.Steps (m m' : Maps) (c c' : Call) (e : Event) (newUuid : String) : Prop where
  uuid : c'.uuid = c.uuid
  has : ∀ uuid, m.infoManager.Has uuid → m'.infoManager.Has uuid
  made : (c.made = true → m.infoManager.Has c.uuid) → m'.infoManager.Has c.uuid
  keys : ∀ uuid ∈ m'.torrentsIdList, uuid ∈ m.torrentsIdList ∨
    e = .next ∧ c.adding = true ∧ uuid = if c.uuid.isEmpty then newUuid else c.uuid
  added : e = .next → c.adding = true → m'.infoManager = m.infoManager ∧
    (if c.uuid.isEmpty then newUuid else c.uuid) ∈ m'.torrentsIdList

/-- A step that makes no record and adds no torrent. -/
theorem Call.Steps.write {w : Write} (hu : c'.uuid = c.uuid) (hm : c.made = true)
    (ha : c.adding = false) : Call.Steps m (m.write c.uuid w) c c' e newUuid where
  uuid := hu
  has _ := TorrentInfoManager.has_onRecord.mpr
  made h := TorrentInfoManager.has_onRecord.mpr (h hm)
  keys _ hk := .inl hk
  added _ hadd := absurd (ha.symm.trans hadd) (by decide)

theorem Call.Steps.still (hu : c'.uuid = c.uuid) (hm : c.made = true)
    (ha : e = .next → c.adding = false) : Call.Steps m m c c' e newUuid where
  uuid := hu
  has _ := id
  made h := h hm
  keys _ hk := .inl hk
  added he hadd := absurd ((ha he).symm.trans hadd) (by decide)

/-- **The steps of a download, place by place.** -/
inductive Download.Moves (env : Environment) (newUuid : String) (m : Maps) :
    Download → Event → Maps → Download → Prop
  | create {uuid link : String} : Moves env newUuid m ⟨uuid, link, .create⟩ .next
      { m with infoManager := m.infoManager.create uuid } ⟨uuid, link, .setLink⟩
  | setLink {uuid link : String} : Moves env newUuid m ⟨uuid, link, .setLink⟩ .next
      (m.write uuid (.link link)) ⟨uuid, link, .setStatus⟩
  | setStatus {uuid link : String} : Moves env newUuid m ⟨uuid, link, .setStatus⟩ .next
      (m.write uuid (.status .downloading)) ⟨uuid, link, .parseMagnetUri⟩
  | invalid {uuid link : String} : env.parseMagnetUri link = none →
      Moves env newUuid m ⟨uuid, link, .parseMagnetUri⟩ .next m ⟨uuid, link, .failStatus⟩
  | parsed {uuid link name : String} : env.parseMagnetUri link = some name →
      Moves env newUuid m ⟨uuid, link, .parseMagnetUri⟩ .next m ⟨uuid, link, .setPathToProject name⟩
  | failStatus {uuid link : String} : Moves env newUuid m ⟨uuid, link, .failStatus⟩ .next
      (m.write uuid (.status .downloadingError)) ⟨uuid, link, .failProgress⟩
  | failProgress {uuid link : String} : Moves env newUuid m ⟨uuid, link, .failProgress⟩ .next
      (m.write uuid (.progress 0)) ⟨uuid, link, .threw⟩
  | setPathToProject {uuid link name : String} :
      Moves env newUuid m ⟨uuid, link, .setPathToProject name⟩ .next
        (m.write uuid (.pathToProject (env.downloadDirectory ++ "/" ++ name)))
        ⟨uuid, link, .asyncAdd name⟩
  | added {uuid link name : String} : Moves env newUuid m ⟨uuid, link, .asyncAdd name⟩ .next
      { m with torrentsIdList := addTorrent uuid newUuid ⟨name⟩ m.torrentsIdList }
      ⟨uuid, link, .returned⟩
  | addThrew {uuid link name : String} {exn : Exn} :
      Moves env newUuid m ⟨uuid, link, .asyncAdd name⟩ (.addThrew exn) m ⟨uuid, link, .threw⟩

theorem Download.moves_of_step (h : d.step env e newUuid m = some (m', d')) :
    Download.Moves env newUuid m d e m' d' := by
  obtain ⟨uuid, link, pc⟩ := d
  unfold Download.step at h
  split at h
  case h_10 => cases h
  all_goals
    rename_i hpc
    obtain ⟨rfl, rfl⟩ := Prod.mk.inj (Option.some.inj h)
    obtain rfl : pc = _ := hpc
  case h_1 => exact .create
  case h_2 => exact .setLink
  case h_3 => exact .setStatus
  case h_4 =>
    dsimp only [Download.goto]
    cases hlink : env.parseMagnetUri link with
    | none => exact .invalid hlink
    | some name => exact .parsed hlink
  case h_5 => exact .failStatus
  case h_6 => exact .failProgress
  case h_7 => exact .setPathToProject
  case h_8 => exact .added
  case h_9 => exact .addThrew

theorem Download.Moves.steps (h : Download.Moves env newUuid m d e m' d') :
    Call.Steps m m' (.downloadAsync d) (.downloadAsync d') e newUuid := by
  cases h with
  | create =>
    exact ⟨rfl, fun _ hk => hk.create, fun _ => TorrentInfoManager.has_create,
      fun _ hk => .inl hk, fun _ ha => by cases ha⟩
  | setLink | setStatus | failStatus | failProgress | setPathToProject =>
    exact Call.Steps.write (c := .downloadAsync ⟨_, _, _⟩) rfl rfl rfl
  | invalid | parsed => exact .still rfl rfl fun _ => rfl
  | added =>
    refine ⟨rfl, fun _ => id, fun hm => hm rfl, fun k hk => ?_, fun _ _ => ⟨rfl, ?_⟩⟩
    · exact (mem_addTorrent.mp hk).symm.imp_right fun hk => ⟨rfl, rfl, hk⟩
    · exact mem_addTorrent.mpr (.inl rfl)
  | addThrew => exact .still rfl rfl nofun

theorem Job.effect_asyncAdd {m : TorrentInfoManager} (h : j.pc = .asyncAdd) :
    j.effect cfg m = m := by
  simp [Job.effect, Job.write, h]

/-- **A step of a job over the two maps.** -/
theorem Job.stepMaps_eq_some (h : j.stepMaps cfg e newUuid m = some (m', j')) :
    ∃ pc, j' = j.after pc e ∧ m' = ⟨j.effect cfg m.infoManager,
      if j.pc = .asyncAdd ∧ e = .next then addTorrent j.uuid newUuid ⟨""⟩ m.torrentsIdList
      else m.torrentsIdList⟩ := by
  obtain ⟨⟨m1, j1⟩, hstep, heq⟩ := Option.map_eq_some_iff.mp h
  obtain ⟨pc, -, rfl, rfl⟩ := Job.step_eq_some_iff.mp hstep
  obtain ⟨rfl, rfl⟩ := Prod.mk.inj heq
  exact ⟨pc, rfl, rfl⟩

theorem Job.steps (h : j.stepMaps cfg e newUuid m = some (m', j')) :
    Call.Steps m m' (.createTorrent j) (.createTorrent j') e newUuid := by
  obtain ⟨pc, rfl, rfl⟩ := Job.stepMaps_eq_some h
  refine ⟨rfl, fun _ => Job.has_effect, fun hm => Job.has_effect_self fun hpc => hm ?_,
    fun k hk => ?_, fun he ha => ?_⟩
  · simpa [Call.made] using hpc
  · by_cases hadd : j.pc = .asyncAdd ∧ e = .next
    · have hk : k ∈ addTorrent j.uuid newUuid ⟨""⟩ m.torrentsIdList := by simpa [hadd] using hk
      refine (mem_addTorrent.mp hk).symm.imp_right fun hk => ?_
      exact ⟨hadd.2, by simp [Call.adding, hadd.1], hk⟩
    · exact .inl (by simpa [hadd] using hk)
  · have hpc : j.pc = .asyncAdd := by simpa [Call.adding] using ha
    refine ⟨Job.effect_asyncAdd hpc, ?_⟩
    show _ ∈ if j.pc = .asyncAdd ∧ e = .next then _ else _
    rw [if_pos ⟨hpc, he⟩]
    exact mem_addTorrent.mpr (.inl rfl)

/-- **What a step of a call does**, of either kind. -/
theorem Call.steps (h : c.step cfg env (e, newUuid) m = some (m', c')) :
    Call.Steps m m' c c' e newUuid := by
  cases c with
  | downloadAsync d =>
    obtain ⟨⟨m1, d1⟩, hstep, heq⟩ := Option.map_eq_some_iff.mp h
    obtain ⟨rfl, rfl⟩ := Prod.mk.inj heq
    exact (Download.moves_of_step hstep).steps
  | createTorrent j =>
    obtain ⟨⟨m1, j1⟩, hstep, heq⟩ := Option.map_eq_some_iff.mp h
    obtain ⟨rfl, rfl⟩ := Prod.mk.inj heq
    exact Job.steps hstep

end Steps

/-! ## Every run -/

section Runs

variable {cfg : Config} {env : Environment} {s s' : RegistryState} {a : RegistryAction}
  {m : TorrentInfoManager}

/-- The steps one by one. -/
inductive Registries (cfg : Config) (env : Environment) (s : RegistryState) :
    RegistryAction → RegistryState → Prop
  | downloadAsync {uuid link : String} : Registries cfg env s (.downloadAsync uuid link)
      { s with calls := s.calls ++ [.downloadAsync ⟨uuid, link, .create⟩] }
  | createTorrent {uuid path : String} : Registries cfg env s (.createTorrent uuid path)
      { s with calls := s.calls ++ [.createTorrent (.spawned uuid path)] }
  | call {i : ℕ} {e : Event} {newUuid : String} {m : Maps} {c c' : Call} :
      s.calls[i]? = some c → c.step cfg env (e, newUuid) s.maps = some (m, c') →
      Registries cfg env s (.call i e newUuid) { s with maps := m, calls := s.calls.set i c' }
  | alert {torrentName : String} {a : Alert} : s.handling = none →
      Registries cfg env s (.alert torrentName a) { s with
        handling := some (getIdByName s.maps.torrentsIdList torrentName,
          a.writes env torrentName (getIdByName s.maps.torrentsIdList torrentName)) }
  | write {id : String} {w : Write} {rest : List Write} : s.handling = some (id, w :: rest) →
      Registries cfg env s .handleAlert
        { s with maps := s.maps.write id w, handling := some (id, rest) }
  | handled {id : String} : s.handling = some (id, []) →
      Registries cfg env s .handleAlert { s with handling := none }

theorem registries_of_step (h : (registryMachine cfg env).step s a = some s') :
    Registries cfg env s a s' := by
  obtain ⟨-, h⟩ := Option.ite_none_left_eq_some.mp h
  rcases a with ⟨uuid, link⟩ | ⟨uuid, path⟩ | ⟨i, e, newUuid⟩ | ⟨torrentName, a⟩ | _
  · exact Option.some.inj h ▸ .downloadAsync
  · exact Option.some.inj h ▸ .createTorrent
  · obtain ⟨r, hpool, rfl⟩ := Option.map_eq_some_iff.mp h
    obtain ⟨c, hc, hpool⟩ := Option.bind_eq_some_iff.mp hpool
    obtain ⟨⟨m, c'⟩, hstep, rfl⟩ := Option.map_eq_some_iff.mp hpool
    exact .call hc hstep
  · obtain ⟨hnone, h⟩ := Option.ite_none_right_eq_some.mp h
    exact Option.some.inj h ▸ .alert (Option.isNone_iff_eq_none.mp hnone)
  · dsimp only [registryStep] at h
    split at h
    case h_1 hw => exact Option.some.inj h ▸ .write hw
    case h_2 hw => exact Option.some.inj h ▸ .handled hw
    case h_3 => cases h

/-- A call that has made its record has one. -/
def CallsRecorded (s : RegistryState) : Prop :=
  ∀ c ∈ s.calls, c.made = true → s.maps.infoManager.Has c.uuid

theorem CallsRecorded.step (hi : CallsRecorded s) (h : Registries cfg env s a s') :
    CallsRecorded s' := by
  cases h with
  | downloadAsync | createTorrent =>
    intro c hmem hm
    rcases List.mem_append.mp hmem with hold | hnew
    · exact hi c hold hm
    · obtain rfl := List.mem_singleton.mp hnew
      cases hm
  | @call i e newUuid m c c' hget hstep =>
    have hsteps := Call.steps hstep
    intro b hb hm
    rcases List.mem_or_eq_of_mem_set hb with hold | rfl
    · exact hsteps.has b.uuid (hi b hold hm)
    · rw [hsteps.uuid]
      exact hsteps.made (hi c (List.mem_of_getElem? hget))
  | alert => exact hi
  | write => exact fun c hmem hm => TorrentInfoManager.has_onRecord.mpr (hi c hmem hm)
  | handled => exact hi

/-- The two maps, the calls and the alert stand together. -/
structure Registered (s : RegistryState) : Prop where
  recorded : Recorded s
  calls : CallsRecorded s
  found : ∀ id writes, s.handling = some (id, writes) → id ≠ "" → s.maps.infoManager.Has id

/-- A uuid `GetIdByName` has found is a key. -/
theorem mem_of_getIdByName {list : Std.TreeMap String AddTorrentParams} {torrentName : String}
    (h : getIdByName list torrentName ≠ "") : getIdByName list torrentName ∈ list := by
  obtain ⟨hget, -⟩ := (getIdByName_eq_iff h).mp rfl
  exact Std.TreeMap.mem_iff_isSome_getElem?.mpr (by rw [hget]; rfl)

/-- **What a step keeps** that adds no torrent without a record. -/
theorem Registered.step (hi : Registered s) (hc : AddsNamed s a)
    (h : Registries cfg env s a s') : Registered s' := by
  have hcalls := hi.calls.step h
  cases h with
  | downloadAsync | createTorrent => exact ⟨hi.recorded, hcalls, hi.found⟩
  | @call i e newUuid m c c' hget hstep =>
    have hsteps := Call.steps hstep
    have hmem : c ∈ s.calls := List.mem_of_getElem? hget
    have hown : m.infoManager.Has c.uuid := hsteps.made (hi.calls c hmem)
    refine ⟨fun k hk => ?_, hcalls, fun id writes hf hid => ?_⟩
    · rcases hsteps.keys k hk with hold | ⟨he, hadd, rfl⟩
      · exact hsteps.has k (hi.recorded k hold)
      · split
        case isTrue hempty =>
          have hnew := (hc c hget he hadd).resolve_left (not_not.mpr (by simpa using hempty))
          exact hsteps.has newUuid hnew
        case isFalse => exact hown
    · exact hsteps.has id (hi.found id writes hf hid)
  | alert =>
    refine ⟨hi.recorded, hcalls, fun id writes hf hid => ?_⟩
    obtain ⟨rfl, -⟩ := Prod.mk.inj (Option.some.inj hf)
    exact hi.recorded _ (mem_of_getIdByName hid)
  | @write id w rest hf =>
    have hkept : ∀ {k}, s.maps.infoManager.Has k → (s.maps.write id w).infoManager.Has k :=
      TorrentInfoManager.has_onRecord.mpr
    refine ⟨fun k hk => hkept (hi.recorded k hk), hcalls, fun id' writes hf' hid => ?_⟩
    obtain ⟨rfl, -⟩ := Prod.mk.inj (Option.some.inj hf')
    exact hkept (hi.found id _ hf hid)
  | handled => exact ⟨hi.recorded, hcalls, nofun⟩

theorem registered_of_reachable (h : (registryMachine cfg env).ReachableUnder AddsNamed s) :
    Registered s := by
  refine h.invariant (fun s hs => ?_) fun s a s' hi hc hstep =>
    hi.step hc (registries_of_step hstep)
  obtain rfl := hs
  exact ⟨fun k hk => absurd hk Std.TreeMap.not_mem_emptyc, nofun, nofun⟩

/-- A setter called for an alert is called on the record of the uuid found. -/
theorem Registered.visible (hi : Registered s)
    (h : (registryMachine cfg env).step s .handleAlert = some s') : Visible s s' := by
  intro id w rest hf hid
  cases registries_of_step h with
  | write hf' =>
    obtain ⟨rfl, hws⟩ := Prod.mk.inj (Option.some.inj (hf.symm.trans hf'))
    obtain ⟨rfl, -⟩ := List.cons.inj hws
    exact TorrentInfoManager.get_onRecord_self (hi.found id _ hf hid)
  | handled hf' =>
    obtain ⟨-, hws⟩ := Prod.mk.inj (Option.some.inj (hf.symm.trans hf'))
    cases hws

/-- **A torrent added without a record** is in the system from then on. -/
theorem not_recorded_of_not_addsNamed (h : (registryMachine cfg env).step s a = some s')
    (hc : ¬ AddsNamed s a) : ¬ Recorded s' := by
  intro hrec
  cases registries_of_step h with
  | @call i e newUuid m c c' hget hstep =>
    have hsteps := Call.steps hstep
    simp only [AddsNamed] at hc
    push Not at hc
    obtain ⟨c1, hget1, he, hadd, hempty, hnew⟩ := hc
    obtain rfl : c = c1 := Option.some.inj (hget.symm.trans hget1)
    obtain ⟨hsame, hmem⟩ := hsteps.added he hadd
    have hhas := hrec _ hmem
    rw [if_pos (by simpa using hempty)] at hhas
    exact hnew (hsame ▸ hhas)
  | downloadAsync | createTorrent | alert | write | handled => exact hc trivial

/-- **When every torrent has a record.** In every run in which a torrent is
added under a uuid of its own, or under a generated one that has a record,
every key has a record and what an alert writes for the uuid found is read
there. And a torrent added otherwise is a key without one. -/
theorem recorded_iff (cfg : Config) (env : Environment) :
    (∀ s, (registryMachine cfg env).ReachableUnder AddsNamed s → Recorded s ∧
      ∀ s', (registryMachine cfg env).step s .handleAlert = some s' → Visible s s') ∧
    ∀ s s' a, (registryMachine cfg env).Reachable s → (registryMachine cfg env).step s a = some s' →
      ¬ AddsNamed s a → ¬ Recorded s' := by
  refine ⟨fun s h => ?_, fun s s' a _ hstep hc => not_recorded_of_not_addsNamed hstep hc⟩
  have hi := registered_of_reachable h
  exact ⟨hi.recorded, fun s' hstep => hi.visible hstep⟩

/-- The steps of a download that is added. -/
def downloadSteps (newUuid : String) : List RegistryAction :=
  List.replicate 6 (.call 0 .next newUuid)

/-- A download from its call to its end. -/
def namedDownload : List RegistryAction :=
  .downloadAsync "b" "magnet:?xt=urn:btih:9f&dn=model" :: downloadSteps "" ++
    [.alert "model" .torrentFinished, .handleAlert]

theorem namedDownload_recorded :
    ∃ s : RegistryState, s.maps.torrentsIdList.keys = ["b"] ∧
      (s.maps.infoManager.get "b").tStatus = .downloaded ∧ Recorded s := by
  let cfg : Config := ⟨"", ""⟩
  have hrun : (((registryMachine cfg oneLink).restrict AddsNamed).exec
      ⟨⟨.empty, ∅⟩, [], none⟩ namedDownload).map
      (fun s => (s.maps.torrentsIdList.keys, (s.maps.infoManager.get "b").tStatus)) =
      some (["b"], .downloaded) := by decide
  obtain ⟨s, hs, hview⟩ := Option.map_eq_some_iff.mp hrun
  obtain ⟨hkeys, hstatus⟩ := Prod.mk.inj hview
  have hreach : (registryMachine cfg oneLink).ReachableUnder AddsNamed s :=
    System.reachableUnder_of_exec _ rfl hs
  exact ⟨s, hkeys, hstatus, ((recorded_iff cfg oneLink).1 s hreach).1⟩

/-- The same download without a uuid. -/
def unnamedDownload : List RegistryAction :=
  .downloadAsync "" "magnet:?xt=urn:btih:9f&dn=model" :: downloadSteps "4f1c"

/-- **A torrent without a record**, under the uuid generated for it. -/
theorem unnamedDownload_unrecorded :
    ¬ ∀ s, (registryMachine ⟨"", ""⟩ oneLink).Reachable s →
      ∀ uuid ∈ s.maps.torrentsIdList, s.maps.infoManager.Has uuid := by
  intro h
  have hrun : ((registryMachine ⟨"", ""⟩ oneLink).exec ⟨⟨.empty, ∅⟩, [], none⟩
      unnamedDownload).map (fun s => decide ("4f1c" ∈ s.maps.torrentsIdList ∧
        ¬ s.maps.infoManager.Has "4f1c")) = some true := by decide
  obtain ⟨s, hs, hview⟩ := Option.map_eq_some_iff.mp hrun
  obtain ⟨hmem, hnone⟩ := of_decide_eq_true hview
  exact hnone (h s (System.reachable_of_exec _ rfl hs) "4f1c" hmem)

end Runs

/-! ## The calls and the alerts by themselves -/

section Alone

variable {env : Environment}

/-- The setters of an alert, one after another, are its branch. -/
theorem Alert.foldl_writes (env : Environment) (torrentName id : String) (a : Alert)
    (m : TorrentInfoManager) :
    (a.writes env torrentName id).foldl (fun m w => m.onRecord id w.apply) m =
      a.write env torrentName id m := by
  unfold Alert.writes Alert.write
  rcases a with error | _ | _ | ⟨finished, ppm⟩ <;> dsimp only <;> split_ifs <;> rfl

/-- **A download on its own**, from any maps. -/
def downloadMachine (env : Environment) (uuid link newUuid : String) :
    System (Maps × Download) Event where
  init s := s.2 = ⟨uuid, link, .create⟩
  step s e := s.2.step env e newUuid s.1

/-- **Run alone, a download is the call as one step.** -/
theorem leads_downloadAsync (uuid link newUuid : String) (s : AlertState) :
    ∃ d, (downloadMachine env uuid link newUuid).Leads
      (⟨s.infoManager, s.torrentsIdList⟩, ⟨uuid, link, .create⟩)
      (⟨(downloadAsync env uuid link newUuid s).infoManager,
        (downloadAsync env uuid link newUuid s).torrentsIdList⟩, d) ∧
      (d.pc = .threw ↔ env.parseMagnetUri link = none) := by
  obtain ⟨m, hm⟩ : ∃ m : Maps, m = ((⟨s.infoManager.create uuid, s.torrentsIdList⟩ : Maps).write
      uuid (.link link)).write uuid (.status .downloading) := ⟨_, rfl⟩
  have hparse : (downloadMachine env uuid link newUuid).Leads
      (⟨s.infoManager, s.torrentsIdList⟩, ⟨uuid, link, .create⟩)
      (m, ⟨uuid, link, .parseMagnetUri⟩) := ⟨List.replicate 3 .next, by rw [hm]; rfl⟩
  cases hlink : env.parseMagnetUri link with
  | none =>
    have hstep : (downloadMachine env uuid link newUuid).step (m, ⟨uuid, link, .parseMagnetUri⟩)
        .next = some (m, ⟨uuid, link, .failStatus⟩) := by
      simp only [downloadMachine, Download.step, hlink, Download.goto]
    refine ⟨⟨uuid, link, .threw⟩, hparse.trans ((System.Leads.single hstep).trans
      ⟨List.replicate 2 .next, ?_⟩), by simp⟩
    simp only [downloadAsync, hlink]
    rw [hm]
    rfl
  | some name =>
    have hstep : (downloadMachine env uuid link newUuid).step (m, ⟨uuid, link, .parseMagnetUri⟩)
        .next = some (m, ⟨uuid, link, .setPathToProject name⟩) := by
      simp only [downloadMachine, Download.step, hlink, Download.goto]
    refine ⟨⟨uuid, link, .returned⟩, hparse.trans ((System.Leads.single hstep).trans
      ⟨List.replicate 2 .next, ?_⟩), by simp⟩
    simp only [downloadAsync, hlink]
    rw [hm]
    rfl

end Alone

end Torrent

end VerAI
