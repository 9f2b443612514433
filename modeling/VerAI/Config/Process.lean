import VerAI.Config.Config
/-!
# The settings over the starts of the daemon

`ConfigDaemon` and `ConfigTorrent` keep their settings in `Config`. A process
that starts reads the file, writes its version, makes itself a uuid if there is
none and writes the torrent settings that have a default. Where one of these
writes throws, the process ends: a throw of `ConfigDaemon::Init` aborts it and
its supervisor starts the next one, a throw of `ConfigTorrent::Init` is caught
by `WorkProc`, which ends the supervisor too, and the daemon has to be started
anew. It may end at any other time as well. The next process knows what the
file holds.

The folder that `ConfigTorrent::Init` makes at its end is no setting.
-/

namespace VerAI

namespace Config

open Transition (System)

/-- `Section::operator()` -/
def sectionKey (name key : String) : String := name ++ "." ++ key

def sectionDaemon : String := "daemon"

def sectionRPC : String := sectionKey sectionDaemon "server"

def sectionTorrent : String := "torrent"

/-- `ConfigDaemon::eKeys` -/
inductive DaemonKey
  | kVersion
  | kUUID
  | kKey
  | kServerName
  | kServerPort
  deriving DecidableEq, Repr

/-- `ConfigDaemon::keys` -/
def DaemonKey.key : DaemonKey → String
  | .kVersion => sectionKey sectionDaemon "version"
  | .kUUID => sectionKey sectionDaemon "uuid"
  | .kKey => sectionKey sectionDaemon "key"
  | .kServerName => sectionKey sectionRPC "domainName"
  | .kServerPort => sectionKey sectionRPC "port"

/-- `ConfigTorrent::eKeys` -/
inductive TorrentKey
  | kPort
  | kInterface
  | kDownloadFolder
  | kTFilesFolder
  | kProjectsFolder
  deriving DecidableEq, Repr

/-- `ConfigTorrent::keys` -/
def TorrentKey.key : TorrentKey → String
  | .kPort => sectionKey sectionTorrent "port"
  | .kInterface => sectionKey sectionTorrent "interface"
  | .kDownloadFolder => sectionKey sectionTorrent "downloadFolder"
  | .kTFilesFolder => sectionKey sectionTorrent "torrentFilesFolder"
  | .kProjectsFolder => sectionKey sectionTorrent "projectsFolder"

/-- What either class asks of `Config`. -/
abbrev Setting := DaemonKey ⊕ TorrentKey

def Setting.key : Setting → String := Sum.elim DaemonKey.key TorrentKey.key

section

variable {τ φ : Type} (P : PTree τ φ)

/-! ## `ConfigDaemon` -/

def getVersion (root : τ) : String := getString P root DaemonKey.kVersion.key ""

def getUUID (root : τ) : String := getString P root DaemonKey.kUUID.key ""

def getKey (root : τ) : String := getString P root DaemonKey.kKey.key ""

def getServerDomainName (root : τ) : String :=
  getString P root DaemonKey.kServerName.key "192.168.150.130"

def getServerPort (root : τ) : String := getString P root DaemonKey.kServerPort.key "50051"

/-- Statements one after the other: an exception ends them. -/
def andThen (r : ConfigState τ φ × Outcome) (next : ConfigState τ φ → ConfigState τ φ × Outcome) :
    ConfigState τ φ × Outcome :=
  if r.2 = .returned then next r.1 else r

/-- `ConfigDaemon::CreateUUID`, with what `GenerateUUID` makes. -/
def createUUID (c : ConfigState τ φ) (uid : String) (written : String → Bool) :
    ConfigState τ φ × Outcome :=
  writeString P c DaemonKey.kUUID.key uid (written DaemonKey.kUUID.key)

/-- `ConfigDaemon::Init` of the program of that version; `written` says of each
key whether the file can be written when it is. -/
def daemonInit (version uid : String) (written : String → Bool) (c : ConfigState τ φ) :
    ConfigState τ φ × Outcome :=
  let curVersion := getVersion P c.root
  andThen
    (if curVersion.isEmpty || curVersion ≠ version then
      writeString P c DaemonKey.kVersion.key version (written DaemonKey.kVersion.key)
    else (c, .returned))
    fun c => if (getUUID P c.root).isEmpty then createUUID P c uid written else (c, .returned)

/-! ## `ConfigTorrent` -/

def defPort : String := "6881"

def defInterface : String := "0.0.0.0"

def defDownloadDir : String := "downloads"

def defTFilesDir : String := "torrents"

def defProjectsDir : String := "projects"

/-- What the getter of a setting gives where there is none. -/
def TorrentKey.default : TorrentKey → String
  | .kPort => defPort
  | .kInterface => defInterface
  | .kDownloadFolder => defFolder ++ "/" ++ defDownloadDir
  | .kTFilesFolder => defFolder ++ "/" ++ defTFilesDir
  | .kProjectsFolder => defFolder ++ "/" ++ defProjectsDir

/-- The getters of `ConfigTorrent`. -/
def torrentGet (k : TorrentKey) (root : τ) : String := getString P root k.key k.default

/-- Its setters; `written` says of each key whether the file can be written. -/
def torrentSet (k : TorrentKey) (value : String) (written : String → Bool) (c : ConfigState τ φ) :
    ConfigState τ φ × Outcome :=
  writeString P c k.key value (written k.key)

def getPort : τ → String := torrentGet P .kPort

def setPort : String → (String → Bool) → ConfigState τ φ → ConfigState τ φ × Outcome :=
  torrentSet P .kPort

def getInterface : τ → String := torrentGet P .kInterface

def setInterface : String → (String → Bool) → ConfigState τ φ → ConfigState τ φ × Outcome :=
  torrentSet P .kInterface

def getDownloadDirectory : τ → String := torrentGet P .kDownloadFolder

def setDownloadDirectory : String → (String → Bool) → ConfigState τ φ →
    ConfigState τ φ × Outcome :=
  torrentSet P .kDownloadFolder

def getTorrentFilesDirectory : τ → String := torrentGet P .kTFilesFolder

def setTorrentFilesDirectory : String → (String → Bool) → ConfigState τ φ →
    ConfigState τ φ × Outcome :=
  torrentSet P .kTFilesFolder

def getProjectsDirectory : τ → String := torrentGet P .kProjectsFolder

def setProjectsDirectory : String → (String → Bool) → ConfigState τ φ →
    ConfigState τ φ × Outcome :=
  torrentSet P .kProjectsFolder

/-- `ConfigTorrent::Init`. -/
def torrentInit (written : String → Bool) (c : ConfigState τ φ) : ConfigState τ φ × Outcome :=
  andThen
    (andThen (setDownloadDirectory P (getDownloadDirectory P c.root) written c)
      fun c => setInterface P (getInterface P c.root) written c)
    fun c => setPort P (getPort P c.root) written c

/-! ## The process -/

/-- No process runs, or one does. -/
inductive Process (τ φ : Type)
  | down (disk : Option φ)
  | up (c : ConfigState τ φ)

/-- A process starts: its configuration objects are constructed, or it ends with
the exception of one of them. -/
def startProcess (version uid : String) (written : String → Bool) (disk : Option φ) :
    Process τ φ :=
  match init P disk with
  | .error _ => .down disk
  | .ok root =>
    match andThen (daemonInit P version uid written ⟨root, disk⟩) (torrentInit P written) with
    | (c, .returned) => .up c
    | (c, _) => .down c.disk

/-- A start, a call of a setter, or the end of the process. -/
inductive ProcessAction
  | start (version uid : String) (written : String → Bool)
  | set (k : TorrentKey) (value : String) (written : String → Bool)
  | exit

/-- **The daemon over its starts.** What `GenerateUUID` makes is not empty. -/
def processMachine : System (Process τ φ) ProcessAction where
  init p := ∃ disk, p = .down disk
  step
    | .down disk, .start version uid written =>
      if uid ≠ "" then some (startProcess P version uid written disk) else none
    | .up c, .set k value written => some (.up (torrentSet P k value written c).1)
    | .up c, .exit => some (.down c.disk)
    | _, _ => none

/-! ## What a setting is in the tree and in the file -/

/-- What is relied on of the ten keys, none of which begins another. -/
structure PTree.Keyed : Prop where
  get_put : ∀ (t : τ) (k : Setting) v, P.get (P.put t k.key v) k.key = some v
  get_put_of_ne : ∀ (t : τ) (k k' : Setting) v, k ≠ k' →
    P.get (P.put t k.key v) k'.key = P.get t k'.key

/-- The value a process that starts finds. -/
def onDisk (disk : Option φ) (k : Setting) : Option String :=
  (init P disk).toOption.bind fun root => P.get root k.key

/-- The setting is this in the tree and in the file. -/
structure Fixed (c : ConfigState τ φ) (k : Setting) (o : Option String) : Prop where
  root : P.get c.root k.key = o
  disk : onDisk P c.disk k = o

/-- What a start leaves as it is. -/
def Survives : Setting → Option String → Prop
  | .inl .kVersion, _ => False
  | .inl .kUUID, o => ∃ uid, uid ≠ "" ∧ o = some uid
  | .inr .kPort, o => o ≠ none
  | .inr .kInterface, o => o ≠ none
  | .inr .kDownloadFolder, o => o ≠ none
  | _, _ => True

variable {P} {c c' : ConfigState τ φ} {k k' : Setting} {o : Option String} {disk : Option φ}
  {root : τ} {value version uid : String} {written : String → Bool} {b : Bool}

/-- What a start reads is what the file holds. -/
theorem onDisk_of_init (h : init P disk = .ok root) : onDisk P disk k = P.get root k.key := by
  simp [onDisk, h, Except.toOption]

/-- A start reads back what was written. -/
theorem init_of_writeJson (hP : P.Lawful) {file : φ} (h : P.writeJson root = some file) :
    init P (some file) = .ok root := by
  simp only [init, hP.readJson_writeJson h]

/-- A write of another setting. -/
theorem Fixed.writeString_ne (hP : P.Lawful) (hK : P.Keyed) (h : Fixed P c k o) (k' : Setting)
    (hne : k' ≠ k) :
    Fixed P (writeString P c k'.key value b).1 k o := by
  have hroot : P.get (P.put c.root k'.key value) k.key = o :=
    (hK.get_put_of_ne _ _ _ _ hne).trans h.root
  obtain ⟨-, file, hfile, hw⟩ | ⟨-, hw⟩ := writeString_cases (P := P) c k'.key value b
  · rw [hw]
    exact ⟨hroot, (onDisk_of_init (init_of_writeJson hP hfile)).trans hroot⟩
  · rw [hw]
    exact ⟨hroot, h.disk⟩

/-- A write of what it is. -/
theorem Fixed.writeString_self (hP : P.Lawful) (h : Fixed P c k (some value)) :
    Fixed P (writeString P c k.key value b).1 k (some value) := by
  have hroot : P.put c.root k.key value = c.root := hP.put_of_get h.root
  obtain ⟨-, file, hfile, hw⟩ | ⟨-, hw⟩ := writeString_cases (P := P) c k.key value b
  · rw [hw]
    rw [hroot] at hfile ⊢
    exact ⟨h.root, (onDisk_of_init (init_of_writeJson hP hfile)).trans h.root⟩
  · rw [hw, hroot]
    exact h

/-- A setting stays through two calls, one after the other. -/
theorem Fixed.andThen {r : ConfigState τ φ × Outcome}
    {next : ConfigState τ φ → ConfigState τ φ × Outcome} (h : Fixed P r.1 k o)
    (hnext : ∀ c, Fixed P c k o → Fixed P (next c).1 k o) : Fixed P (andThen r next).1 k o := by
  unfold Config.andThen
  split
  · exact hnext _ h
  · exact h

/-- `ConfigDaemon::Init` writes the version, and a uuid where there is none. -/
theorem Fixed.daemonInit (hP : P.Lawful) (hK : P.Keyed) (h : Fixed P c k o) (hk : Survives k o) :
    Fixed P (daemonInit P version uid written c).1 k o := by
  have hversion : .inl .kVersion ≠ k := by
    rintro rfl
    exact hk
  refine .andThen ?_ fun c h => ?_
  · split
    · exact h.writeString_ne hP hK (.inl .kVersion) hversion
    · exact h
  · split
    · rename_i hempty
      -- a uuid is only made where there is none, and there is one
      refine h.writeString_ne hP hK (.inl .kUUID) ?_
      rintro rfl
      obtain ⟨old, hold, rfl⟩ := hk
      have hroot : P.get c.root DaemonKey.kUUID.key = some old := h.root
      simp [getUUID, getString, hroot, hold] at hempty
    · exact h

/-- One of the writes of `ConfigTorrent::Init`. -/
theorem Fixed.rewrite (hP : P.Lawful) (hK : P.Keyed) (h : Fixed P c k o) (l : TorrentKey)
    (hk : .inr l = k → o ≠ none) :
    Fixed P (torrentSet P l (torrentGet P l c.root) written c).1 k o := by
  by_cases hl : .inr l = k
  · obtain ⟨value, rfl⟩ := Option.ne_none_iff_exists'.mp (hk hl)
    subst hl
    have hvalue : torrentGet P l c.root = value := by
      have hroot : P.get c.root l.key = some value := h.root
      simp [torrentGet, getString, hroot]
    rw [hvalue]
    exact h.writeString_self hP
  · exact h.writeString_ne hP hK (.inr l) hl

/-- `ConfigTorrent::Init` keeps a setting that survives a start. -/
theorem Fixed.torrentInit (hP : P.Lawful) (hK : P.Keyed) (h : Fixed P c k o) (hk : Survives k o) :
    Fixed P (torrentInit P written c).1 k o := by
  -- each of the three is written as it is read, so it has to be there
  refine .andThen (.andThen (h.rewrite hP hK .kDownloadFolder ?_) fun c h =>
    h.rewrite hP hK .kInterface ?_) fun c h => h.rewrite hP hK .kPort ?_
  all_goals
    rintro rfl
    exact hk

/-! ## What the getters give -/

/-- A setter puts its value into the tree, written or refused. -/
theorem root_torrentSet (l : TorrentKey) :
    (torrentSet P l value written c).1.root = P.put c.root l.key value := by
  obtain ⟨-, file, -, hw⟩ | ⟨-, hw⟩ := writeString_cases (P := P) c l.key value (written l.key)
  · rw [torrentSet, hw]
  · rw [torrentSet, hw]

/-- **A getter gives what the last setter of its key was given**, also where the
setter threw; the other setters leave it alone. -/
theorem torrentGet_torrentSet (hK : P.Keyed) (l l' : TorrentKey) :
    torrentGet P l' (torrentSet P l value written c).1.root =
      if l = l' then value else torrentGet P l' c.root := by
  have hget : torrentGet P l' (torrentSet P l value written c).1.root =
      (P.get (P.put c.root l.key value) l'.key).getD l'.default := by
    rw [root_torrentSet]
    rfl
  rw [hget]
  by_cases hl : l = l'
  · subst hl
    rw [if_pos rfl, show P.get (P.put c.root l.key value) l.key = some value from
      hK.get_put _ (.inr l) _, Option.getD_some]
  · rw [if_neg hl, show P.get (P.put c.root l.key value) l'.key = P.get c.root l'.key from
      hK.get_put_of_ne _ (.inr l) (.inr l') _ fun heq => hl (Sum.inr.inj heq)]
    rfl

/-- The settings of the daemon are not touched by those of the torrents. -/
theorem daemonGet_torrentSet (hK : P.Keyed) (l : TorrentKey) :
    getVersion P (torrentSet P l value written c).1.root = getVersion P c.root ∧
      getUUID P (torrentSet P l value written c).1.root = getUUID P c.root ∧
      getKey P (torrentSet P l value written c).1.root = getKey P c.root ∧
      getServerDomainName P (torrentSet P l value written c).1.root =
        getServerDomainName P c.root ∧
      getServerPort P (torrentSet P l value written c).1.root = getServerPort P c.root := by
  have hsame : ∀ (k : DaemonKey) d, getString P (torrentSet P l value written c).1.root k.key d =
      getString P c.root k.key d := fun k d => by
    rw [root_torrentSet, getString, getString]
    exact congrArg (Option.getD · d) (hK.get_put_of_ne _ (.inr l) (.inl k) _ Sum.inr_ne_inl)
  exact ⟨hsame .kVersion _, hsame .kUUID _, hsame .kKey _, hsame .kServerName _,
    hsame .kServerPort _⟩

/-! ## What a process leaves as it is -/

variable (P) in
/-- The setting is this for the process that runs and for the one that starts
next. -/
def Process.At (k : Setting) (o : Option String) : Process τ φ → Prop
  | .down disk => onDisk P disk k = o
  | .up c => Fixed P c k o

/-- The action sets the setting. -/
def ProcessAction.Sets (k : Setting) : ProcessAction → Prop
  | .set l _ _ => .inr l = k
  | _ => False

/-- A start keeps a setting. -/
theorem at_startProcess (hP : P.Lawful) (hK : P.Keyed) (h : onDisk P disk k = o)
    (hk : Survives k o) : (startProcess P version uid written disk).At P k o := by
  unfold startProcess
  cases hinit : init P disk with
  | error _ => exact h
  | ok root =>
    have hfixed : Fixed P (andThen (daemonInit P version uid written ⟨root, disk⟩)
        (torrentInit P written)).1 k o :=
      .andThen (.daemonInit hP hK ⟨(onDisk_of_init hinit).symm.trans h, h⟩ hk) fun c h =>
        h.torrentInit hP hK hk
    dsimp only
    generalize andThen (daemonInit P version uid written ⟨root, disk⟩) (torrentInit P written) = r
      at hfixed
    obtain ⟨c, outcome⟩ := r
    cases outcome with
    | returned => exact hfixed
    | _ => exact hfixed.disk

/-- **A setting that is stored stays** until it is set. -/
theorem at_step (hP : P.Lawful) (hK : P.Keyed) {p p' : Process τ φ} {a : ProcessAction}
    (h : p.At P k o) (hk : Survives k o) (ha : ¬ a.Sets k)
    (hs : (processMachine P).step p a = some p') : p'.At P k o := by
  cases p with
  | down disk =>
    cases a with
    | start version uid written =>
      obtain ⟨-, hs⟩ := Option.ite_none_right_eq_some.mp hs
      obtain rfl := Option.some.inj hs
      exact at_startProcess hP hK h hk
    | set l value written => cases hs
    | exit => cases hs
  | up c =>
    cases a with
    | start version uid written => cases hs
    | set l value written =>
      obtain rfl := Option.some.inj hs
      exact Fixed.writeString_ne hP hK h (.inr l) ha
    | exit =>
      obtain rfl := Option.some.inj hs
      exact h.disk

/-- So does a run that does not set it. -/
theorem at_exec (hP : P.Lawful) (hK : P.Keyed) {p p' : Process τ φ} {as : List ProcessAction}
    (h : p.At P k o) (hk : Survives k o) (has : ∀ a ∈ as, ¬ a.Sets k)
    (hrun : (processMachine P).exec p as = some p') : p'.At P k o := by
  induction as generalizing p with
  | nil =>
    obtain rfl := Option.some.inj hrun
    exact h
  | cons a as ih =>
    obtain ⟨q, hq, hrest⟩ := Option.bind_eq_some_iff.mp hrun
    exact ih (at_step hP hK h hk (has a (List.mem_cons_self ..)) hq)
      (fun b hb => has b (List.mem_cons_of_mem _ hb)) hrest

/-! ## What a process that runs has -/

/-- **What a start that succeeds has stored**: all of its tree. -/
structure Started (P : PTree τ φ) (version : String) (c : ConfigState τ φ) : Prop where
  stored : ∃ file, c.disk = some file ∧ P.writeJson c.root = some file
  version : P.get c.root DaemonKey.kVersion.key = some version
  survives : ∀ k, k ≠ .inl .kVersion → Survives k (P.get c.root k.key)

/-- Two calls return where both do. -/
theorem andThen_eq_returned {r : ConfigState τ φ × Outcome}
    {next : ConfigState τ φ → ConfigState τ φ × Outcome}
    (h : andThen r next = (c', .returned)) :
    ∃ c, r = (c, .returned) ∧ next c = (c', .returned) := by
  obtain ⟨c, outcome⟩ := r
  unfold andThen at h
  split at h
  · rename_i hreturned
    obtain rfl : outcome = .returned := hreturned
    exact ⟨c, rfl, h⟩
  · rename_i hthrows
    cases h
    exact absurd rfl hthrows

/-- A write that returns has put its value into the tree and the tree into the file. -/
theorem writeString_eq_returned {key : String}
    (h : writeString P c key value b = (c', .returned)) :
    c'.root = P.put c.root key value ∧ ∃ file, c'.disk = some file ∧
      P.writeJson c'.root = some file := by
  obtain ⟨-, file, hfile, hw⟩ | ⟨-, hw⟩ := writeString_cases (P := P) c key value b
  · rw [hw] at h
    cases h
    exact ⟨rfl, file, rfl, hfile⟩
  · rw [hw] at h
    cases h

/-- After `ConfigDaemon::Init` there are a version and a uuid. -/
theorem daemonInit_eq_returned (hK : P.Keyed) (huid : uid ≠ "")
    (h : daemonInit P version uid written c = (c', .returned)) :
    P.get c'.root DaemonKey.kVersion.key = some version ∧
      ∃ old, old ≠ "" ∧ P.get c'.root DaemonKey.kUUID.key = some old := by
  unfold daemonInit at h
  obtain ⟨c₁, hversion, huuid⟩ := andThen_eq_returned h
  have hstored : P.get c₁.root DaemonKey.kVersion.key = some version := by
    split at hversion
    · rw [(writeString_eq_returned hversion).1]
      exact hK.get_put _ (.inl .kVersion) _
    · rename_i hcur
      obtain rfl : c = c₁ := congrArg Prod.fst hversion
      simp only [getVersion, getString, Bool.or_eq_true, not_or] at hcur
      cases hget : P.get c.root DaemonKey.kVersion.key with
      | none => simp [hget] at hcur
      | some old => simpa [hget] using hcur.2
  split at huuid
  · rw [(writeString_eq_returned huuid).1]
    exact ⟨(hK.get_put_of_ne _ (.inl .kUUID) (.inl .kVersion) _ (by decide)).trans hstored, uid,
      huid, hK.get_put _ (.inl .kUUID) _⟩
  · rename_i hold
    obtain rfl : c₁ = c' := congrArg Prod.fst huuid
    refine ⟨hstored, ?_⟩
    cases hget : P.get c₁.root DaemonKey.kUUID.key with
    | none => simp [getUUID, getString, hget] at hold
    | some old => exact ⟨old, by simpa [getUUID, getString, hget] using hold, rfl⟩

/-- After `ConfigTorrent::Init` there are the settings it checks, and the file is
written. -/
theorem torrentInit_eq_returned (hK : P.Keyed) (h : torrentInit P written c = (c', .returned)) :
    (∃ file, c'.disk = some file ∧ P.writeJson c'.root = some file) ∧
      (∀ k : DaemonKey, P.get c'.root k.key = P.get c.root k.key) ∧
      ∀ l, l = .kPort ∨ l = .kInterface ∨ l = .kDownloadFolder →
        P.get c'.root (TorrentKey.key l) ≠ none := by
  obtain ⟨c₂, h₂, hport⟩ := andThen_eq_returned h
  obtain ⟨c₁, hdownload, hinterface⟩ := andThen_eq_returned h₂
  obtain ⟨hroot₁, -⟩ := writeString_eq_returned hdownload
  obtain ⟨hroot₂, -⟩ := writeString_eq_returned hinterface
  obtain ⟨hroot, hstored⟩ := writeString_eq_returned hport
  have hdaemon : ∀ (t : τ) (l : TorrentKey) v (k : DaemonKey),
      P.get (P.put t l.key v) k.key = P.get t k.key := fun t l v k =>
    hK.get_put_of_ne t (.inr l) (.inl k) v nofun
  have hother : ∀ (t : τ) (l l' : TorrentKey) v, l ≠ l' →
      P.get (P.put t l.key v) l'.key = P.get t l'.key := fun t l l' v hne =>
    hK.get_put_of_ne t (.inr l) (.inr l') v fun heq => hne (Sum.inr.inj heq)
  have hself : ∀ (t : τ) (l : TorrentKey) v, P.get (P.put t l.key v) l.key = some v :=
    fun t l => hK.get_put t (.inr l)
  refine ⟨hstored, fun k => ?_, ?_⟩
  · rw [hroot, hdaemon, hroot₂, hdaemon, hroot₁, hdaemon]
  · rintro l (rfl | rfl | rfl)
    · rw [hroot, hself]
      exact Option.some_ne_none _
    · rw [hroot, hother _ _ _ _ (by decide), hroot₂, hself]
      exact Option.some_ne_none _
    · rw [hroot, hother _ _ _ _ (by decide), hroot₂, hother _ _ _ _ (by decide), hroot₁, hself]
      exact Option.some_ne_none _

/-- What a start leaves where it comes up. -/
theorem started_of_startProcess (hK : P.Keyed) (huid : uid ≠ "")
    (h : startProcess P version uid written disk = .up c) : Started P version c := by
  unfold startProcess at h
  split at h
  · cases h
  · split at h
    · rename_i hreturned
      obtain rfl := Process.up.inj h
      obtain ⟨c₁, hdaemon, htorrent⟩ := andThen_eq_returned hreturned
      obtain ⟨hversion, old, hold, huuid⟩ := daemonInit_eq_returned hK huid hdaemon
      obtain ⟨hstored, hsame, hsome⟩ := torrentInit_eq_returned hK htorrent
      refine ⟨hstored, (hsame .kVersion).trans hversion, fun k hk => ?_⟩
      match k with
      | .inl .kVersion => exact absurd rfl hk
      | .inl .kUUID => exact ⟨old, hold, (hsame .kUUID).trans huuid⟩
      | .inr .kPort => exact hsome _ (.inl rfl)
      | .inr .kInterface => exact hsome _ (.inr (.inl rfl))
      | .inr .kDownloadFolder => exact hsome _ (.inr (.inr rfl))
      | .inl .kKey => trivial
      | .inl .kServerName => trivial
      | .inl .kServerPort => trivial
      | .inr .kTFilesFolder => trivial
      | .inr .kProjectsFolder => trivial
    · cases h

/-- A write of what the tree and the file hold changes neither, and throws
where it is refused. -/
theorem Started.writeString (hP : P.Lawful) (h : Started P version c) {key : String}
    (hget : P.get c.root key = some value) :
    writeString P c key value b = (c, if b then .returned else .jsonParserError) := by
  obtain ⟨file, hdisk, hjson⟩ := h.stored
  obtain ⟨rfl, file', hfile, hw⟩ | ⟨hrefused, hw⟩ := writeString_cases (P := P) c key value b
  · rw [hP.put_of_get hget] at hw hfile
    obtain rfl : file = file' := Option.some.inj (hjson.symm.trans hfile)
    rw [hw, ← hdisk]
    rfl
  · rw [hP.put_of_get hget] at hw hrefused
    have hb : b = false := by simpa [hjson] using hrefused
    rw [hw, hb]
    rfl

/-- A setter that writes the value it has read changes nothing. -/
theorem Started.torrentSet (hP : P.Lawful) (h : Started P version c) {l : TorrentKey}
    (hl : P.get c.root l.key ≠ none) :
    torrentSet P l (torrentGet P l c.root) written c =
      (c, if written l.key then .returned else .jsonParserError) := by
  obtain ⟨value, hvalue⟩ := Option.ne_none_iff_exists'.mp hl
  refine h.writeString hP ?_
  simp [torrentGet, getString, hvalue]

/-- Two calls that change nothing, one after the other. -/
theorem andThen_again {b d : Bool} {next : ConfigState τ φ → ConfigState τ φ × Outcome}
    (h : next c = (c, if d then .returned else .jsonParserError)) :
    andThen (c, if b then .returned else .jsonParserError) next =
      (c, if b && d then .returned else .jsonParserError) := by
  cases b with
  | false => rfl
  | true => simpa [andThen] using h

/-- What a second start writes is not refused: the settings that
`ConfigTorrent::Init` writes as it reads them, and the version where it is
empty. -/
def Rewritten (version : String) (written : String → Bool) : Bool :=
  (!version.isEmpty || written DaemonKey.kVersion.key) &&
    (written TorrentKey.kDownloadFolder.key && written TorrentKey.kInterface.key &&
      written TorrentKey.kPort.key)

/-- A second `ConfigDaemon::Init` writes an empty version only. -/
theorem Started.daemonInit (hP : P.Lawful) (h : Started P version c) {uid' : String} :
    daemonInit P version uid' written c = (c,
      if !version.isEmpty || written DaemonKey.kVersion.key then .returned
      else .jsonParserError) := by
  obtain ⟨old, hold, huuid⟩ := h.survives (.inl .kUUID) (by decide)
  have hversion : getVersion P c.root = version := by
    rw [getVersion, getString, h.version, Option.getD_some]
  have hwrite := h.writeString (b := written DaemonKey.kVersion.key) hP h.version
  have huuid' : (if (getUUID P c.root).isEmpty then createUUID P c uid' written
      else (c, .returned)) = (c, .returned) := by
    have hroot : P.get c.root DaemonKey.kUUID.key = some old := huuid
    simp [getUUID, getString, hroot, hold]
  simp only [Config.daemonInit, hversion, ne_eq, not_true_eq_false, decide_false, Bool.or_false]
  cases hempty : version.isEmpty with
  | false => simpa [Config.andThen] using huuid'
  | true =>
    simp only [if_true, Bool.not_true, Bool.false_or, hwrite]
    exact (andThen_again (d := true) huuid').trans (by rw [Bool.and_true])

/-- A second `ConfigTorrent::Init` writes the settings as it reads them. -/
theorem Started.torrentInit (hP : P.Lawful) (h : Started P version c) :
    torrentInit P written c = (c,
      if written TorrentKey.kDownloadFolder.key && written TorrentKey.kInterface.key &&
        written TorrentKey.kPort.key then .returned else .jsonParserError) := by
  have hset : ∀ l : TorrentKey, P.get c.root l.key ≠ none →
      Config.torrentSet P l (torrentGet P l c.root) written c =
        (c, if written l.key then .returned else .jsonParserError) := fun _ => h.torrentSet hP
  have hdownload := hset .kDownloadFolder (h.survives (.inr .kDownloadFolder) (by decide))
  have hinterface := hset .kInterface (h.survives (.inr .kInterface) (by decide))
  have hport := hset .kPort (h.survives (.inr .kPort) (by decide))
  have htwo : andThen (setDownloadDirectory P (getDownloadDirectory P c.root) written c)
      (fun c => setInterface P (getInterface P c.root) written c) = _ :=
    (congrArg (Config.andThen · _) hdownload).trans (andThen_again hinterface)
  exact (congrArg (Config.andThen · _) htwo).trans (andThen_again hport)

/-- **To start again changes nothing.** A process of the same version is in the
state the last one started in, or one of the writes it makes is refused, and it
leaves the file as it was. -/
theorem startProcess_again (hP : P.Lawful) (hK : P.Keyed) (huid : uid ≠ "")
    (h : startProcess P version uid written disk = .up c) (uid' : String)
    (written' : String → Bool) :
    startProcess P version uid' written' c.disk =
      if Rewritten version written' then .up c else .down c.disk := by
  have hstarted := started_of_startProcess hK huid h
  obtain ⟨file, hdisk, hjson⟩ := hstarted.stored
  have hinit : init P c.disk = .ok c.root := by
    rw [hdisk]
    exact init_of_writeJson hP hjson
  have hagain : andThen (daemonInit P version uid' written' c) (torrentInit P written') =
      (c, if Rewritten version written' then .returned else .jsonParserError) := by
    rw [hstarted.daemonInit hP]
    exact andThen_again (hstarted.torrentInit hP)
  unfold startProcess
  rw [hinit]
  dsimp only
  rw [hagain]
  cases Rewritten version written' with
  | true => rfl
  | false => rfl

/-! ## Every run -/

/-- What holds of every process that runs. -/
structure Running (P : PTree τ φ) (c : ConfigState τ φ) : Prop where
  uuid : ∃ uid, uid ≠ "" ∧ Fixed P c (.inl .kUUID) (some uid)
  survives : ∀ k, k ≠ .inl .kVersion → Survives k (P.get c.root k.key)

/-- It is what a running process has, -/
theorem Started.running (hP : P.Lawful) (h : Started P version c) : Running P c where
  uuid := by
    obtain ⟨file, hdisk, hjson⟩ := h.stored
    obtain ⟨uid, huid, huuid⟩ := h.survives (.inl .kUUID) nofun
    refine ⟨uid, huid, huuid, ?_⟩
    rw [hdisk]
    exact (onDisk_of_init (init_of_writeJson hP hjson)).trans huuid
  survives := h.survives

/-- A call of a setter leaves a value, whether it throws or not. -/
theorem Running.set (hP : P.Lawful) (hK : P.Keyed) (h : Running P c) (l : TorrentKey) :
    Running P (torrentSet P l value written c).1 where
  uuid := by
    obtain ⟨uid, huid, huuid⟩ := h.uuid
    exact ⟨uid, huid, huuid.writeString_ne hP hK (.inr l) nofun⟩
  survives k hk := by
    -- the setting that is set has a value then, the others what they had
    by_cases hl : .inr l = k
    · subst hl
      have hset : P.get (P.put c.root l.key value) l.key = some value :=
        hK.get_put _ (.inr l) _
      rw [root_torrentSet]
      show Survives (.inr l) (P.get (P.put c.root l.key value) l.key)
      rw [hset]
      cases l <;> simp [Survives]
    · have hsame : P.get (P.put c.root l.key value) k.key = P.get c.root k.key :=
        hK.get_put_of_ne _ (.inr l) k _ hl
      rw [root_torrentSet, hsame]
      exact h.survives k hk

/-- and keeps in every run. -/
theorem running_of_reachable (hP : P.Lawful) (hK : P.Keyed)
    (h : (processMachine P).Reachable (.up c)) : Running P c := by
  suffices hall : ∀ p, (processMachine P).Reachable p → ∀ c, p = .up c → Running P c from
    hall _ h c rfl
  intro p hp
  refine hp.invariant (I := fun p => ∀ c, p = .up c → Running P c) ?_ ?_
  · rintro _ ⟨disk, rfl⟩ c heq
    cases heq
  · rintro p a p' hI - hs c rfl
    cases p with
    | down disk =>
      cases a with
      | start version uid written =>
        obtain ⟨huid, hs⟩ := Option.ite_none_right_eq_some.mp hs
        exact (started_of_startProcess hK huid (Option.some.inj hs)).running hP
      | set l value written => cases hs
      | exit => cases hs
    | up c₀ =>
      cases a with
      | start version uid written => cases hs
      | set l value written =>
        obtain rfl := Process.up.inj (Option.some.inj hs)
        exact (hI c₀ rfl).set hP hK l
      | exit => cases hs

/-- **The settings over any starts, ends and refused writes.** A daemon that has
once started keeps its uuid, and a setting that is in the file stays what it is
as long as it is not set, the version apart. -/
theorem settings_stable (hP : P.Lawful) (hK : P.Keyed) {as : List ProcessAction}
    (h : (processMachine P).Reachable (.up c))
    (hrun : (processMachine P).exec (.up c) as = some (.up c')) :
    getUUID P c.root ≠ "" ∧ getUUID P c'.root = getUUID P c.root ∧
      ∀ k, k ≠ .inl .kVersion → (∀ a ∈ as, ¬ a.Sets k) →
        onDisk P c.disk k = P.get c.root k.key → P.get c'.root k.key = P.get c.root k.key := by
  have hrunning := running_of_reachable hP hK h
  obtain ⟨uid, huid, huuid⟩ := hrunning.uuid
  have hroot : P.get c.root DaemonKey.kUUID.key = some uid := huuid.root
  have huuid' : Fixed P c' (.inl .kUUID) (some uid) := by
    refine at_exec (p := .up c) hP hK huuid ⟨uid, huid, rfl⟩ (fun a _ => ?_) hrun
    cases a <;> exact nofun
  have hroot' : P.get c'.root DaemonKey.kUUID.key = some uid := huuid'.root
  refine ⟨?_, ?_, fun k hk has hdisk => ?_⟩
  · simpa [getUUID, getString, hroot] using huid
  · simp [getUUID, getString, hroot, hroot']
  · have hfixed : Fixed P c' k (P.get c.root k.key) :=
      at_exec (p := .up c) hP hK ⟨rfl, hdisk⟩ (hrunning.survives k hk) has hrun
    exact hfixed.root

end

/-! ## Trees of texts -/

open PropertyTree

/-- The names a setting's key is made of. -/
def Setting.names : Setting → List String
  | .inl .kVersion => ["daemon", "version"]
  | .inl .kUUID => ["daemon", "uuid"]
  | .inl .kKey => ["daemon", "key"]
  | .inl .kServerName => ["daemon", "server", "domainName"]
  | .inl .kServerPort => ["daemon", "server", "port"]
  | .inr .kPort => ["torrent", "port"]
  | .inr .kInterface => ["torrent", "interface"]
  | .inr .kDownloadFolder => ["torrent", "downloadFolder"]
  | .inr .kTFilesFolder => ["torrent", "torrentFilesFolder"]
  | .inr .kProjectsFolder => ["torrent", "projectsFolder"]

theorem pieces_key (k : Setting) : pieces k.key = k.names := by
  rcases k with k | k <;> cases k <;> decide

theorem walked_key (k : Setting) : walked k.key = k.names := by
  rcases k with k | k <;> cases k <;> decide

theorem names_apart {k k' : Setting} (h : k ≠ k') : ¬ k'.names <+: k.names := by
  rcases k with k | k <;> rcases k' with k' | k' <;> cases k <;> cases k' <;> revert h <;> decide

theorem put_key (t : Tree) (k : Setting) (v : String) :
    treeOfTexts.put t k.key v = t.put k.names v := by
  simp only [treeOfTexts, pieces_key, walked_key, ite_self]

theorem get_key (t : Tree) (k : Setting) : treeOfTexts.get t k.key = t.get k.names := by
  simp only [treeOfTexts, walked_key]

/-- Trees of texts keep the settings of different keys apart. -/
theorem treeOfTexts_keyed : treeOfTexts.Keyed where
  get_put t k v := by rw [put_key, get_key, Tree.get_put]
  get_put_of_ne t k k' v hne := by
    rw [put_key, get_key, get_key, Tree.get_put_of_apart (names_apart hne)]

/-- The file of a daemon that has started. -/
def startedFile : Tree :=
  .node "" [
    ("daemon", .node "" [("version", .node "1.0.0" []), ("uuid", .node "u" [])]),
    ("torrent", .node "" [("downloadFolder", .node "downloads" []),
      ("interface", .node defInterface []), ("port", .node defPort [])])]

/-- The daemon with that file. -/
def startedDaemon : ConfigState Tree Tree := ⟨startedFile, some startedFile⟩

/-- It can be written. -/
theorem writeJson_startedFile : treeOfTexts.writeJson startedFile = some startedFile := by
  simp only [treeOfTexts]
  exact if_pos ⟨rfl, rfl⟩

theorem get_startedFile {k : Setting} {value : String}
    (hget : startedFile.get k.names = some value) :
    treeOfTexts.get startedFile k.key = some value :=
  (get_key ..).trans hget

/-- What the file holds can be written to it again. -/
theorem writeString_startedDaemon (k : Setting) {value : String}
    (hget : startedFile.get k.names = some value) :
    writeString treeOfTexts startedDaemon k.key value true = (startedDaemon, .returned) := by
  have hput : treeOfTexts.put startedFile k.key value = startedFile :=
    treeOfTexts_lawful.put_of_get (get_startedFile hget)
  simp only [writeString, startedDaemon, hput, if_true, writeJson_startedFile]

theorem torrentSet_startedDaemon (l : TorrentKey) {value : String}
    (hget : startedFile.get (Setting.names (.inr l)) = some value) :
    torrentSet treeOfTexts l (torrentGet treeOfTexts l startedDaemon.root) (fun _ => true)
      startedDaemon = (startedDaemon, .returned) := by
  have hstored : treeOfTexts.get startedDaemon.root l.key = some value :=
    get_startedFile (k := .inr l) hget
  rw [torrentGet, getString, hstored]
  exact writeString_startedDaemon (.inr l) hget

theorem daemonInit_startedDaemon (uid : String) :
    daemonInit treeOfTexts "1.0.0" uid (fun _ => true) startedDaemon =
      (startedDaemon, .returned) := by
  have hversion : treeOfTexts.get startedDaemon.root DaemonKey.kVersion.key = some "1.0.0" :=
    get_startedFile (k := .inl .kVersion) rfl
  have huuid : treeOfTexts.get startedDaemon.root DaemonKey.kUUID.key = some "u" :=
    get_startedFile (k := .inl .kUUID) rfl
  have hsame : getVersion treeOfTexts startedDaemon.root = "1.0.0" := by
    rw [getVersion, getString, hversion, Option.getD_some]
  have hold : getUUID treeOfTexts startedDaemon.root = "u" := by
    rw [getUUID, getString, huuid, Option.getD_some]
  simp [daemonInit, andThen, hsame, hold]

theorem torrentInit_startedDaemon :
    torrentInit treeOfTexts (fun _ => true) startedDaemon = (startedDaemon, .returned) := by
  have hdownload := torrentSet_startedDaemon .kDownloadFolder rfl
  have hinterface := torrentSet_startedDaemon .kInterface rfl
  have hport := torrentSet_startedDaemon .kPort rfl
  simp only [torrentInit, setDownloadDirectory, getDownloadDirectory, setInterface, getInterface,
    setPort, getPort, andThen, hdownload, hinterface, hport, if_true]

/-- A daemon that starts with that file adds nothing to it. -/
theorem startProcess_startedFile (uid : String) :
    startProcess treeOfTexts "1.0.0" uid (fun _ => true) (some startedFile) =
      .up startedDaemon := by
  have hinit : Config.init treeOfTexts (some startedFile) = .ok startedFile := rfl
  have hdaemon := daemonInit_startedDaemon uid
  have htorrent := torrentInit_startedDaemon
  rw [startedDaemon] at hdaemon htorrent
  simp only [startProcess, hinit, hdaemon, andThen, if_true, htorrent]
  rfl

/-- A daemon started twice with one file, which the second one cannot write. -/
theorem startProcess_twice :
    startProcess treeOfTexts "1.0.0" "v" (fun _ => false) (some startedFile) =
      .down (some startedFile) :=
  startProcess_again treeOfTexts_lawful treeOfTexts_keyed (show "u" ≠ "" by decide)
    (startProcess_startedFile "u") "v" fun _ => false

/-- A daemon that is refused a port, ends and is started again. -/
theorem restarted_settings : ∃ c, (processMachine treeOfTexts).exec (.up startedDaemon)
      [.set .kPort "7000" fun _ => false, .exit, .start "1.0.0" "v" fun _ => true] =
        some (.up c) ∧
    getUUID treeOfTexts c.root = getUUID treeOfTexts startedDaemon.root ∧
    treeOfTexts.get c.root TorrentKey.kInterface.key =
      treeOfTexts.get startedDaemon.root TorrentKey.kInterface.key := by
  have hup : (processMachine treeOfTexts).Reachable (.up startedDaemon) := by
    refine .step (s := .down (some startedFile)) (a := .start "1.0.0" "u" fun _ => true)
      (.init ⟨_, rfl⟩) trivial ?_
    simp only [processMachine, startProcess_startedFile]
    rfl
  have hrun : (processMachine treeOfTexts).exec (.up startedDaemon)
      [.set .kPort "7000" fun _ => false, .exit, .start "1.0.0" "v" fun _ => true] =
        some (.up startedDaemon) := by
    have hrefused :
        (torrentSet treeOfTexts .kPort "7000" (fun _ => false) startedDaemon).1.disk =
          some startedFile := rfl
    simp only [System.exec_cons, processMachine, Option.bind_some, hrefused,
      startProcess_startedFile]
    rfl
  obtain ⟨-, huuid, hstable⟩ := settings_stable treeOfTexts_lawful treeOfTexts_keyed hup hrun
  refine ⟨startedDaemon, hrun, huuid,
    hstable (.inr .kInterface) (by decide) ?_ (onDisk_of_init rfl)⟩
  simp [ProcessAction.Sets]

end Config

end VerAI
