import VerAI.Lib.Splits
import VerAI.Torrent.Job
/-!
# The objects behind the pointers of the manager

`TorrentInfoManager` hands out shared pointers, so which object a pointer is
to matters as much as what it holds. Here every `TorrentInfo` ever made is at
an index of a heap, `infoList` maps uuids to indices, and the one call that
holds the manager's mutex exclusively goes step by step: a getter of the
argument is a step, and setters of any thread run in between. `Get` holds the
mutex shared, so it falls between such calls, and nothing it looks at changes
while it runs.

`TorrentInfo::Copy` writes all six fields of a record, its uuid first. It runs
in `Update` on an object in the map and in `Create` on one not there yet.
-/

namespace VerAI

namespace Torrent

open Transition (System)

/-! ## Copies of a record -/

/-- The fields of `TorrentInfo`. -/
inductive Field
  | tId
  | tLink
  | tPath
  | pPath
  | tStatus
  | tProgress
  deriving DecidableEq, Repr

/-- One assignment of `TorrentInfo::Copy`, through the getter of the source. -/
def Field.copy (src dst : TorrentInfo) : Field → TorrentInfo
  | tId => { dst with tId := src.tId }
  | tLink => { dst with tLink := src.tLink }
  | tPath => { dst with tPath := src.tPath }
  | pPath => { dst with pPath := src.pPath }
  | tStatus => { dst with tStatus := src.tStatus }
  | tProgress => { dst with tProgress := src.tProgress }

/-- `TorrentInfo::Copy` -/
def copyFields : List Field := [.tId, .tLink, .tPath, .pPath, .tStatus, .tProgress]

/-- No field is forgotten in `Copy`. -/
theorem foldl_copy (src dst : TorrentInfo) :
    copyFields.foldl (fun dst f => f.copy src dst) dst = src := rfl

/-- A copy to a record of the same uuid is one to every field. -/
theorem tId_copy_of_eq {src dst : TorrentInfo} (h : dst.tId = src.tId) (f : Field) :
    (f.copy src dst).tId = dst.tId := by
  cases f <;> simp [Field.copy, h]

@[simp] theorem tId_apply (w : Write) (info : TorrentInfo) : (w.apply info).tId = info.tId := by
  cases w <;> rfl

/-! ## The manager and its callers -/

/-- The call that holds the manager's mutex exclusively. Its argument and the
objects it works on are indices of the heap. -/
inductive Holder
  /-- In `Create`, before the look-up. -/
  | create (info : ℕ)
  /-- In the copy constructor `make_shared` calls, with the object so far. -/
  | constructing (info : ℕ) (copy : TorrentInfo) (left : List Field)
  /-- In `Update`, before the look-up. -/
  | update (info : ℕ)
  /-- In `operator=` of the object found, whose mutex is held. -/
  | copying (info target : ℕ) (left : List Field)
  deriving DecidableEq, Repr

/-- The argument of the call. -/
def Holder.info : Holder → ℕ
  | create info => info
  | constructing info _ _ => info
  | update info => info
  | copying info _ _ => info

/-- The object whose mutex the call holds. -/
def Holder.locks : Holder → Option ℕ
  | copying _ target _ => some target
  | _ => none

/-- The calls that hand out a pointer. -/
inductive Origin
  | create
  | get
  deriving DecidableEq, Repr

/-- A pointer handed out for a uuid. -/
structure Handed where
  origin : Origin
  id : String
  ref : ℕ
  deriving DecidableEq, Repr

/-- Every `TorrentInfo` made so far, the manager's map, the call that holds its
mutex exclusively, and the pointers handed out, the latest first. -/
structure ManagerState where
  heap : List TorrentInfo
  infoList : Std.TreeMap String ℕ
  holder : Option Holder
  handed : List Handed

namespace ManagerState

/-- `TorrentInfo::GetId` through a pointer. -/
def getId (s : ManagerState) (ref : ℕ) : Option String := (s.heap[ref]?).map TorrentInfo.tId

/-- A `TorrentInfo` is made, at the index `s.heap.length`. -/
def alloc (s : ManagerState) (info : TorrentInfo) : ManagerState :=
  { s with heap := s.heap ++ [info] }

/-- A critical section of the manager's mutex begins. -/
def lock (s : ManagerState) (c : Holder) : Option ManagerState :=
  if s.holder = none ∧ c.info < s.heap.length then some { s with holder := some c } else none

/-- The running call goes on. -/
def goto (s : ManagerState) (c : Holder) : ManagerState := { s with holder := some c }

/-- It returns, unlocking the mutex. -/
def unlock (s : ManagerState) : ManagerState := { s with holder := none }

/-- A pointer is handed out. -/
def hand (s : ManagerState) (e : Handed) : ManagerState := { s with handed := e :: s.handed }

/-- The pointer is in the map. -/
def Stored (s : ManagerState) (ref : ℕ) : Prop := ∃ e ∈ s.infoList.toList, e.2 = ref

instance (s : ManagerState) (ref : ℕ) : Decidable (s.Stored ref) :=
  inferInstanceAs (Decidable (∃ e ∈ s.infoList.toList, e.2 = ref))

/-- **The next step of the call that holds the mutex.** -/
def proceed (s : ManagerState) : Holder → Option ManagerState
  | .create info => (s.heap[info]?).map fun src =>
    match s.infoList[src.tId]? with
    | some ref => (s.hand ⟨.create, src.tId, ref⟩).unlock
    | none => s.goto (.constructing info { tId := "" } copyFields)
  | .constructing info copy (f :: left) => (s.heap[info]?).map fun src =>
    s.goto (.constructing info (f.copy src copy) left)
  | .constructing info copy [] => (s.heap[info]?).map fun src =>
    -- `emplace` keeps the entry of a key that is there, and `it` is the entry
    let infoList := s.infoList.insertIfNew src.tId s.heap.length
    ({ s.alloc copy with infoList := infoList }.hand
      ⟨.create, src.tId, infoList.getD src.tId s.heap.length⟩).unlock
  | .update info => (s.heap[info]?).map fun src =>
    match s.infoList[src.tId]? with
    | some ref => if info = ref then s.unlock else s.goto (.copying info ref copyFields)
    | none => s.unlock
  | .copying info target (f :: left) => (s.heap[info]?).map fun src =>
    { s with heap := s.heap.modify target (f.copy src) }.goto (.copying info target left)
  | .copying _ _ [] => some s.unlock

end ManagerState

/-- What threads do: make a `TorrentInfo` or assign to one of their own, call the
manager, go on with the call that holds the mutex, or call a setter. -/
inductive ManagerAction
  | newInfo (info : TorrentInfo)
  | assign (ref : ℕ) (info : TorrentInfo)
  | createId (id : String)
  | create (info : ℕ)
  | update (info : ℕ)
  | get (id : String)
  | next
  | write (ref : ℕ) (w : Write)
  deriving DecidableEq, Repr

/-- A step of one of the threads. -/
def managerStep (s : ManagerState) : ManagerAction → Option ManagerState
  | .newInfo info => some (s.alloc info)
  -- to an object of the caller's own, not the argument of a running call; what is
  -- in the map is written by setters and `Update` alone. An assignment under way
  -- shows as one to each state it goes through
  | .assign ref info =>
    if s.Stored ref ∨ s.holder.map Holder.info = some ref then none
    else some { s with heap := s.heap.set ref info }
  | .createId id => (s.alloc { tId := id }).lock (.create s.heap.length)
  | .create info => s.lock (.create info)
  | .update info => s.lock (.update info)
  | .get id =>
    if s.holder = none then
      some (match s.infoList[id]? with
        | some ref => s.hand ⟨.get, id, ref⟩
        | none => (s.alloc { tId := id }).hand ⟨.get, id, s.heap.length⟩)
    else none
  | .next => s.holder.bind s.proceed
  | .write ref w =>
    if s.holder.bind Holder.locks = some ref then none
    else some { s with heap := s.heap.modify ref w.apply }

/-- **The manager, called by any threads.** -/
def managerMachine : System ManagerState ManagerAction where
  init s := s = ⟨[], ∅, none, []⟩
  step := managerStep

/-! ## What a step does -/

section Steps

variable {s s' : ManagerState} {a : ManagerAction} {c : Holder} {ref ref' : ℕ} {k : String}

theorem stored_iff : s.Stored ref ↔ ∃ k : String, s.infoList[k]? = some ref := by
  constructor
  · rintro ⟨⟨k, _⟩, hmem, rfl⟩
    exact ⟨k, Std.TreeMap.mem_toList_iff_getElem?_eq_some.mp hmem⟩
  · rintro ⟨k, hk⟩
    exact ⟨(k, ref), Std.TreeMap.mem_toList_iff_getElem?_eq_some.mpr hk, rfl⟩

/-- A key put into a map that did not hold it. -/
theorem getElem?_insertIfNew_of_none {β : Type} {list : Std.TreeMap String β} {v : β}
    (h : list[k]? = none) (k' : String) :
    (list.insertIfNew k v)[k']? = if k = k' then some v else list[k']? := by
  have hmem : k ∉ list := by simp [Std.TreeMap.mem_iff_isSome_getElem?, h]
  simp only [Std.TreeMap.getElem?_insertIfNew, Std.LawfulEqCmp.compare_eq_iff_eq, hmem,
    not_false_eq_true, and_true]

theorem lock_eq_some_iff : s.lock c = some s' ↔
    s.holder = none ∧ c.info < s.heap.length ∧ s' = s.goto c := by
  rw [ManagerState.lock, Option.ite_none_right_eq_some, Option.some.injEq, and_assoc]
  exact and_congr_right' (and_congr_right' eq_comm)

/-- The steps of the call that holds the mutex, one by one. -/
inductive Proceeds (s : ManagerState) : Holder → ManagerState → Prop
  | found {info ref : ℕ} {src : TorrentInfo} : s.heap[info]? = some src →
      s.infoList[src.tId]? = some ref →
      Proceeds s (.create info) (s.hand ⟨.create, src.tId, ref⟩).unlock
  | missing {info : ℕ} {src : TorrentInfo} : s.heap[info]? = some src →
      s.infoList[src.tId]? = none →
      Proceeds s (.create info) (s.goto (.constructing info { tId := "" } copyFields))
  | construct {info : ℕ} {src copy : TorrentInfo} {f : Field} {left : List Field} :
      s.heap[info]? = some src →
      Proceeds s (.constructing info copy (f :: left))
        (s.goto (.constructing info (f.copy src copy) left))
  | emplace {info : ℕ} {src copy : TorrentInfo} : s.heap[info]? = some src →
      Proceeds s (.constructing info copy [])
        ({ s.alloc copy with infoList := s.infoList.insertIfNew src.tId s.heap.length }.hand
          ⟨.create, src.tId, (s.infoList.insertIfNew src.tId s.heap.length).getD src.tId
            s.heap.length⟩).unlock
  | overwrite {info ref : ℕ} {src : TorrentInfo} : s.heap[info]? = some src →
      s.infoList[src.tId]? = some ref → info ≠ ref →
      Proceeds s (.update info) (s.goto (.copying info ref copyFields))
  | ignore {info : ℕ} : Proceeds s (.update info) s.unlock
  | copy {info target : ℕ} {src : TorrentInfo} {f : Field} {left : List Field} :
      s.heap[info]? = some src →
      Proceeds s (.copying info target (f :: left))
        ({ s with heap := s.heap.modify target (f.copy src) }.goto (.copying info target left))
  | copied {info target : ℕ} : Proceeds s (.copying info target []) s.unlock

theorem proceeds_of_proceed (h : s.proceed c = some s') : Proceeds s c s' := by
  cases c with
  | create info =>
    obtain ⟨src, hsrc, rfl⟩ := Option.map_eq_some_iff.mp h
    cases href : s.infoList[src.tId]? with
    | some ref => exact .found hsrc href
    | none => exact .missing hsrc href
  | constructing info copy left =>
    cases left with
    | cons f left =>
      obtain ⟨src, hsrc, rfl⟩ := Option.map_eq_some_iff.mp h
      exact .construct hsrc
    | nil =>
      obtain ⟨src, hsrc, rfl⟩ := Option.map_eq_some_iff.mp h
      exact .emplace hsrc
  | update info =>
    obtain ⟨src, hsrc, rfl⟩ := Option.map_eq_some_iff.mp h
    cases href : s.infoList[src.tId]? with
    | some ref =>
      by_cases hself : info = ref
      · simp only [if_pos hself]
        exact .ignore
      · simp only [if_neg hself]
        exact .overwrite hsrc href hself
    | none => exact .ignore
  | copying info target left =>
    cases left with
    | cons f left =>
      obtain ⟨src, hsrc, rfl⟩ := Option.map_eq_some_iff.mp h
      exact .copy hsrc
    | nil => exact Option.some.inj h ▸ .copied

/-- The steps one by one. -/
inductive Manages (s : ManagerState) : ManagerAction → ManagerState → Prop
  | newInfo {info : TorrentInfo} : Manages s (.newInfo info) (s.alloc info)
  | assign {ref : ℕ} {info : TorrentInfo} : ¬ s.Stored ref →
      s.holder.map Holder.info ≠ some ref →
      Manages s (.assign ref info) { s with heap := s.heap.set ref info }
  | createId {id : String} : s.holder = none →
      Manages s (.createId id) ((s.alloc { tId := id }).goto (.create s.heap.length))
  | create {info : ℕ} : s.holder = none → info < s.heap.length →
      Manages s (.create info) (s.goto (.create info))
  | update {info : ℕ} : s.holder = none → info < s.heap.length →
      Manages s (.update info) (s.goto (.update info))
  | getStored {id : String} {ref : ℕ} : s.infoList[id]? = some ref →
      Manages s (.get id) (s.hand ⟨.get, id, ref⟩)
  | getDetached {id : String} : s.infoList[id]? = none →
      Manages s (.get id) ((s.alloc { tId := id }).hand ⟨.get, id, s.heap.length⟩)
  | next {c : Holder} {s' : ManagerState} : s.holder = some c → Proceeds s c s' →
      Manages s .next s'
  | write {ref : ℕ} {w : Write} :
      Manages s (.write ref w) { s with heap := s.heap.modify ref w.apply }

theorem manages_of_step (h : managerMachine.step s a = some s') : Manages s a s' := by
  rcases a with info | ⟨ref, info⟩ | id | info | info | id | _ | ⟨ref, w⟩
  · exact Option.some.inj h ▸ .newInfo
  · obtain ⟨hown, h⟩ := Option.ite_none_left_eq_some.mp h
    obtain ⟨hstored, hinfo⟩ := not_or.mp hown
    exact Option.some.inj h ▸ .assign hstored hinfo
  · obtain ⟨hnone, -, rfl⟩ := lock_eq_some_iff.mp h
    exact .createId hnone
  · obtain ⟨hnone, hlt, rfl⟩ := lock_eq_some_iff.mp h
    exact .create hnone hlt
  · obtain ⟨hnone, hlt, rfl⟩ := lock_eq_some_iff.mp h
    exact .update hnone hlt
  · obtain ⟨-, h⟩ := Option.ite_none_right_eq_some.mp h
    obtain rfl := Option.some.inj h
    cases hid : s.infoList[id]? with
    | some ref => exact .getStored hid
    | none => exact .getDetached hid
  · obtain ⟨c, hc, h⟩ := Option.bind_eq_some_iff.mp h
    exact .next hc (proceeds_of_proceed h)
  · obtain ⟨-, h⟩ := Option.ite_none_left_eq_some.mp h
    exact Option.some.inj h ▸ .write

end Steps

/-! ## Every run -/

/-- What a `Create` has handed out for a uuid, every later `Create` and `Get` of
the uuid hands out. -/
def SameRecord (handed : List Handed) : Prop :=
  ∀ later b earlier, handed = later ++ b :: earlier →
    ∀ a ∈ earlier, a.origin = .create → a.id = b.id → b.ref = a.ref

/-- Every record is under its own uuid. -/
def OwnKeys (s : ManagerState) : Prop :=
  ∀ (k : String) (ref : ℕ), s.infoList[k]? = some ref → s.getId ref = some k

/-- The action is a step of `Update`. -/
def Updates (s : ManagerState) : ManagerAction → Prop
  | .update _ => True
  | .next => ∃ c, s.holder = some c ∧ match c with
    | .update _ | .copying _ _ _ => True
    | .create _ | .constructing _ _ _ => False
  | _ => False

/-- What the call that holds the mutex has found, for the uuid of its argument. -/
def Holder.Sound (s : ManagerState) (c : Holder) : Prop :=
  ∃ k, s.getId c.info = some k ∧ match c with
    | .create _ | .update _ => True
    | .constructing _ copy left => s.infoList[k]? = none ∧ (Field.tId ∈ left ∨ copy.tId = k)
    | .copying _ target _ => s.infoList[k]? = some target

/-- The heap, the map, the running call and what was handed out stand together. -/
structure Managed (s : ManagerState) : Prop where
  ownKeys : OwnKeys s
  running : ∀ c, s.holder = some c → c.Sound s
  created : ∀ e ∈ s.handed, e.origin = .create → s.infoList[e.id]? = some e.ref
  same : SameRecord s.handed

section Runs

variable {s s' : ManagerState} {a : ManagerAction} {c : Holder} {e : Handed}
  {info copy : TorrentInfo} {heap : List TorrentInfo} {ref : ℕ} {k : String}

theorem getId_alloc_of_some (h : s.getId ref = some k) : (s.alloc info).getId ref = some k := by
  obtain ⟨old, hold, hk⟩ := Option.map_eq_some_iff.mp h
  have hlt : ref < s.heap.length := (List.getElem?_eq_some_iff.mp hold).1
  refine Option.map_eq_some_iff.mpr ⟨old, ?_, hk⟩
  rw [ManagerState.alloc, List.getElem?_append_left hlt, hold]

theorem getId_alloc_self : (s.alloc info).getId s.heap.length = some info.tId := by
  simp [ManagerState.getId, ManagerState.alloc]

/-- What keeps the uuid of one record keeps every uuid. -/
theorem getId_modify {f : TorrentInfo → TorrentInfo}
    (hf : ∀ old, s.heap[ref]? = some old → (f old).tId = old.tId) (i : ℕ) :
    ({ s with heap := s.heap.modify ref f } : ManagerState).getId i = s.getId i := by
  simp only [ManagerState.getId, List.getElem?_modify]
  by_cases hi : ref = i
  · subst hi
    cases hold : s.heap[ref]? with
    | none => rfl
    | some old => simp [hf old hold]
  · simp [hi]

/-- **The frame of the heap.** An object that is neither in the map nor the
argument of the running call may change its uuid; no other may. -/
theorem Managed.of_heap (hi : Managed s)
    (h : ∀ ref k, s.Stored ref ∨ s.holder.map Holder.info = some ref → s.getId ref = some k →
      ({ s with heap := heap } : ManagerState).getId ref = some k) :
    Managed { s with heap := heap } where
  ownKeys k ref hk := h ref k (.inl (stored_iff.mpr ⟨k, hk⟩)) (hi.ownKeys k ref hk)
  running c hc := by
    obtain ⟨k, hk, hfound⟩ := hi.running c hc
    exact ⟨k, h c.info k (.inr (congrArg _ hc)) hk, hfound⟩
  created := hi.created
  same := hi.same

theorem Managed.alloc (hi : Managed s) : Managed (s.alloc info) :=
  hi.of_heap fun _ _ _ h => getId_alloc_of_some h

theorem Managed.goto (hi : Managed s) (hc : c.Sound s) : Managed (s.goto c) where
  ownKeys := hi.ownKeys
  running c' hc' := by
    obtain rfl := Option.some.inj hc'
    exact hc
  created := hi.created
  same := hi.same

theorem Managed.unlock (hi : Managed s) : Managed s.unlock :=
  ⟨hi.ownKeys, nofun, hi.created, hi.same⟩

/-- A pointer handed out is the one in the map; only `Get` finds none there. -/
theorem Managed.hand (hi : Managed s) (he : s.infoList[e.id]? = some e.ref ∨
    e.origin = .get ∧ s.infoList[e.id]? = none) : Managed (s.hand e) where
  ownKeys := hi.ownKeys
  running := hi.running
  created e' he' ho := by
    rcases List.mem_cons.mp he' with rfl | hold
    · refine he.resolve_right fun hget => ?_
      cases ho.symm.trans hget.1
    · exact hi.created e' hold ho
  same := by
    refine Splits.forall_split_cons hi.same fun a ha ho hid => ?_
    have hget : s.infoList[e.id]? = some a.ref := hid ▸ hi.created a ha ho
    rcases he with hstored | ⟨-, hnone⟩
    · exact Option.some.inj (hstored.symm.trans hget)
    · cases hnone.symm.trans hget

/-- A new object goes under its uuid, where there was none. -/
theorem Managed.emplace (hi : Managed s) (hnone : s.infoList[k]? = none) (hcopy : copy.tId = k) :
    Managed { s.alloc copy with
      infoList := s.infoList.insertIfNew k s.heap.length, holder := none } := by
  have hget := getElem?_insertIfNew_of_none (v := s.heap.length) hnone
  refine ⟨fun k' ref hk => ?_, nofun, fun e he ho => ?_, hi.same⟩
  · rw [hget] at hk
    split at hk
    case isTrue heq =>
      obtain rfl := Option.some.inj hk
      exact getId_alloc_self.trans (congrArg some (hcopy.trans heq))
    case isFalse => exact getId_alloc_of_some (hi.ownKeys k' ref hk)
  · have hold := hi.created e he ho
    have hne : k ≠ e.id := fun heq => by
      rw [← heq, hnone] at hold
      cases hold
    exact (hget e.id).trans ((if_neg hne).trans hold)

/-- **What the running call keeps.** -/
theorem Managed.proceeds (hi : Managed s) (hc : s.holder = some c) (h : Proceeds s c s') :
    Managed s' := by
  obtain ⟨k, hk, hfound⟩ := hi.running c hc
  have huuid : ∀ {src : TorrentInfo}, s.heap[c.info]? = some src → src.tId = k := fun hsrc => by
    rw [ManagerState.getId, hsrc] at hk
    exact Option.some.inj hk
  cases h with
  | found hsrc href => exact (hi.hand (.inl href)).unlock
  | missing hsrc href =>
    obtain rfl := huuid hsrc
    exact hi.goto ⟨_, hk, href, .inl (by decide)⟩
  | @construct i src copy f left hsrc =>
    refine hi.goto ⟨k, hk, hfound.1, ?_⟩
    rcases hfound.2 with hleft | hcopied
    · rcases List.mem_cons.mp hleft with rfl | hrest
      · exact .inr (huuid hsrc : src.tId = k)
      · exact .inl hrest
    · refine .inr ((tId_copy_of_eq ?_ f).trans hcopied)
      exact hcopied.trans (huuid hsrc).symm
  | emplace hsrc =>
    obtain rfl := huuid hsrc
    have hemplaced := hi.emplace hfound.1 (hfound.2.resolve_left (List.not_mem_nil))
    refine hemplaced.hand (.inl ?_)
    refine Std.TreeMap.getElem?_eq_some_getD ?_
    exact Std.TreeMap.mem_insertIfNew.mpr (.inl (Std.LawfulEqCmp.compare_eq_iff_eq.mpr rfl))
  | overwrite hsrc href hne =>
    obtain rfl := huuid hsrc
    exact hi.goto ⟨_, hk, href⟩
  | ignore => exact hi.unlock
  | @copy i target src f left hsrc =>
    have htarget : s.getId target = some k := hi.ownKeys k target hfound
    have hsame : ∀ old, s.heap[target]? = some old → (f.copy src old).tId = old.tId := by
      intro old hold
      rw [ManagerState.getId, hold] at htarget
      exact tId_copy_of_eq ((Option.some.inj htarget).trans (huuid hsrc).symm) f
    have hkept := getId_modify hsame
    have hcopied := hi.of_heap fun j k _ hj => (hkept j).trans hj
    exact hcopied.goto ⟨k, (hkept i).trans hk, hfound⟩
  | copied => exact hi.unlock

/-- **What a step keeps.** -/
theorem Managed.step (hi : Managed s) (h : Manages s a s') : Managed s' := by
  cases h with
  | newInfo => exact hi.alloc
  | @assign ref info hstored hinfo =>
    refine hi.of_heap fun j k hj hk => ?_
    have hne : ref ≠ j := by
      rintro rfl
      exact hj.elim hstored hinfo
    rw [ManagerState.getId, List.getElem?_set_ne hne]
    exact hk
  | createId => exact hi.alloc.goto ⟨_, getId_alloc_self, trivial⟩
  | create _ hlt | update _ hlt =>
    exact hi.goto ⟨_, congrArg _ (List.getElem?_eq_getElem hlt), trivial⟩
  | getStored hid => exact hi.hand (.inl hid)
  | getDetached hid => exact hi.alloc.hand (.inr ⟨rfl, hid⟩)
  | next hc hproceeds => exact hi.proceeds hc hproceeds
  | write => exact hi.of_heap fun j k _ hk => (getId_modify (fun _ _ => tId_apply _ _) j).trans hk

theorem managed_of_reachable (h : managerMachine.Reachable s) : Managed s := by
  refine h.invariant (fun s hs => ?_) fun s a s' hi _ hstep => hi.step (manages_of_step hstep)
  obtain rfl := hs
  refine ⟨fun k ref hk => ?_, nofun, nofun, fun later b earlier heq => ?_⟩
  · cases Std.TreeMap.getElem?_emptyc.symm.trans hk
  · cases (List.append_eq_nil_iff.mp heq.symm).2

/-- **`Update` keeps the map**, wherever it stands. -/
theorem infoList_of_updates (h : Manages s a s') (hu : Updates s a) :
    s'.infoList = s.infoList := by
  cases h with
  | update => rfl
  | next hc hproceeds =>
    obtain ⟨c', hc', hu⟩ := hu
    obtain rfl := Option.some.inj (hc.symm.trans hc')
    cases hproceeds with
    | overwrite | ignore | copy | copied => rfl
    | found | missing | construct | emplace => exact hu.elim
  | newInfo | assign | createId | create | getStored | getDetached | write => exact hu.elim

/-- **One record for each uuid.** Once a `Create` has handed out the record of
a uuid, every later `Create` and `Get` of it hands out that one; every record
in the map is under the uuid it reads; and `Update` leaves the map as it is. -/
theorem one_record (h : managerMachine.Reachable s) :
    SameRecord s.handed ∧ OwnKeys s ∧
    ∀ a s', managerMachine.step s a = some s' → Updates s a → s'.infoList = s.infoList :=
  have hi := managed_of_reachable h
  ⟨hi.same, hi.ownKeys, fun _ _ hstep => infoList_of_updates (manages_of_step hstep)⟩

/-- A record created, its pointer asked for again with another argument, and an
`Update` with a setter called on the argument in between. -/
def createTwiceThenUpdate : List ManagerAction :=
  [.createId "a", .next, .next, .next, .next, .next, .next, .next, .next,
    .newInfo { tId := "a", tProgress := 7 }, .create 2, .next,
    .update 2, .next, .next, .write 2 (.status .paused), .next, .next, .next, .next, .next, .next,
    .get "a", .get "b"]

theorem createTwiceThenUpdate_one_record : ∃ s : ManagerState,
    s.handed = [⟨.get, "b", 3⟩, ⟨.get, "a", 1⟩, ⟨.create, "a", 1⟩, ⟨.create, "a", 1⟩] ∧
    s.heap[1]? = some { tId := "a", tStatus := .paused, tProgress := 7 } ∧
    SameRecord s.handed ∧ OwnKeys s := by
  have hrun : (managerMachine.exec ⟨[], ∅, none, []⟩ createTwiceThenUpdate).map
      (fun s => (s.handed, s.heap[1]?)) =
      some ([⟨.get, "b", 3⟩, ⟨.get, "a", 1⟩, ⟨.create, "a", 1⟩, ⟨.create, "a", 1⟩],
        some { tId := "a", tStatus := .paused, tProgress := 7 }) := by decide
  obtain ⟨s, hs, hview⟩ := Option.map_eq_some_iff.mp hrun
  obtain ⟨hhanded, hrecord⟩ := Prod.mk.inj hview
  obtain ⟨hsame, hkeys, -⟩ := one_record (System.reachable_of_exec _ rfl hs)
  exact ⟨s, hhanded, hrecord, hsame, hkeys⟩

end Runs

end Torrent

end VerAI
