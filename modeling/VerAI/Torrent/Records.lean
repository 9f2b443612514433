import VerAI.Torrent.Manager
/-!
# The records by value

The other modules keep the records of the manager by uuid and write to the
one a pointer is to. Here the manager with its objects on a heap is shown to
be that one, read through the pointers of its map: each step leaves the
records as they are, writes to one, or adds one (`Changes`), and `Create(id)`,
`Get` and `Update` run alone are the operations on values.
-/

namespace VerAI

namespace Torrent

open Transition (System)

/-- The records of the map, read through its pointers. -/
def Represents (s : ManagerState) (m : TorrentInfoManager) : Prop :=
  ∀ k : String, m.infoList[k]? = (s.infoList[k]?).bind fun ref => s.heap[ref]?

/-- **What becomes of the records in one step**: nothing, a write to one, or a
record added under its own uuid. -/
inductive Changes (m : TorrentInfoManager) : TorrentInfoManager → Prop
  | same : Changes m m
  | write {id : String} {f : TorrentInfo → TorrentInfo} : m.Has id → Changes m (m.onRecord id f)
  | add {info : TorrentInfo} : ¬ m.Has info.tId →
      Changes m ⟨m.infoList.insertIfNew info.tId info⟩

section Values

variable {s s' : ManagerState} {a : ManagerAction} {m : TorrentInfoManager}
  {src copy : TorrentInfo} {w : Write}
  {id : String} {info target ref : ℕ}

/-- A pointer of the map is to an object. -/
theorem Managed.exists_heap (hi : Managed s) (h : s.infoList[id]? = some ref) :
    ∃ old, s.heap[ref]? = some old := by
  obtain ⟨old, hold, -⟩ := Option.map_eq_some_iff.mp (hi.ownKeys id ref h)
  exact ⟨old, hold⟩

/-- No two keys of the map share an object. -/
theorem Managed.infoList_inj (hi : Managed s) {id' : String} (h : s.infoList[id]? = some ref)
    (h' : s.infoList[id']? = some ref) : id = id' :=
  Option.some.inj ((hi.ownKeys id ref h).symm.trans (hi.ownKeys id' ref h'))

theorem Represents.has_iff (hi : Managed s) (hm : Represents s m) :
    m.Has id ↔ ∃ ref, s.infoList[id]? = some ref := by
  rw [TorrentInfoManager.Has, Std.TreeMap.mem_iff_isSome_getElem?, hm id]
  constructor
  · intro h
    obtain ⟨old, hold⟩ := Option.isSome_iff_exists.mp h
    obtain ⟨ref, href, -⟩ := Option.bind_eq_some_iff.mp hold
    exact ⟨ref, href⟩
  · rintro ⟨ref, href⟩
    obtain ⟨old, hold⟩ := hi.exists_heap href
    rw [href, Option.bind_some, hold]
    rfl

/-- Only what the map points to is seen. -/
theorem Represents.of_heap {heap : List TorrentInfo} (hm : Represents s m)
    (h : ∀ (k : String) ref, s.infoList[k]? = some ref → heap[ref]? = s.heap[ref]?) :
    Represents { s with heap := heap } m := by
  intro k
  rw [hm k]
  cases hk : s.infoList[k]? with
  | none => rfl
  | some ref => exact (h k ref hk).symm

theorem Represents.alloc (hi : Managed s) (hm : Represents s m) : Represents (s.alloc src) m := by
  refine hm.of_heap fun k ref hk => ?_
  obtain ⟨old, hold⟩ := hi.exists_heap hk
  exact List.getElem?_append_left (List.getElem?_eq_some_iff.mp hold).1

/-- **A write to an object in the map** is one to the record of its uuid. -/
theorem Represents.modify (hi : Managed s) (hm : Represents s m) (h : s.infoList[id]? = some ref)
    (f : TorrentInfo → TorrentInfo) :
    Represents { s with heap := s.heap.modify ref f } (m.onRecord id f) := by
  intro k
  simp only [TorrentInfoManager.onRecord, Std.TreeMap.getElem?_modify,
    Std.LawfulEqCmp.compare_eq_iff_eq]
  by_cases hk : id = k
  · subst hk
    rw [if_pos rfl, hm id, h, Option.bind_some, Option.bind_some, List.getElem?_modify_eq]
    rfl
  · rw [if_neg hk, hm k]
    cases href : s.infoList[k]? with
    | none => rfl
    | some ref' =>
      have hne : ref ≠ ref' := by
        rintro rfl
        exact hk (hi.infoList_inj h href)
      exact (List.getElem?_modify_ne f s.heap hne).symm

/-- **A write to any other** is lost. -/
theorem Represents.modify_detached (hm : Represents s m) (h : ¬ s.Stored ref)
    (f : TorrentInfo → TorrentInfo) :
    Represents { s with heap := s.heap.modify ref f } m := by
  refine hm.of_heap fun k ref' hk => ?_
  have hne : ref ≠ ref' := by
    rintro rfl
    exact h (stored_iff.mpr ⟨k, hk⟩)
  exact List.getElem?_modify_ne f s.heap hne

/-- **A setter** of any thread, on values: it writes a record, or is lost. -/
theorem Represents.write (hi : Managed s) (hm : Represents s m)
    (h : Manages s (.write ref w) s') :
    (∃ k, s.infoList[k]? = some ref ∧ Represents s' (m.onRecord k w.apply)) ∨
      ¬ s.Stored ref ∧ Represents s' m := by
  cases h
  by_cases hstored : s.Stored ref
  · obtain ⟨k, hk⟩ := stored_iff.mp hstored
    exact .inl ⟨k, hk, hm.modify hi hk _⟩
  · exact .inr ⟨hstored, hm.modify_detached hstored _⟩

/-- An object put under a new uuid is the record made there. -/
theorem Represents.emplace (hi : Managed s) (hm : Represents s m) (h : s.infoList[id]? = none) :
    Represents { s.alloc copy with infoList := s.infoList.insertIfNew id s.heap.length }
      ⟨m.infoList.insertIfNew id copy⟩ := by
  have hrecords : m.infoList[id]? = none := by rw [hm id, h, Option.bind_none]
  intro k
  rw [getElem?_insertIfNew_of_none h, getElem?_insertIfNew_of_none hrecords]
  split
  case isTrue => exact (List.getElem?_concat_length (l := s.heap)).symm
  case isFalse => exact hm.alloc hi k

/-- **The manager simulates its records.** -/
theorem Represents.step (hi : Managed s) (hm : Represents s m) (h : Manages s a s') :
    ∃ m', Changes m m' ∧ Represents s' m' := by
  cases h with
  | newInfo | createId | getDetached => exact ⟨m, .same, hm.alloc hi⟩
  | create | update | getStored => exact ⟨m, .same, hm⟩
  | @assign ref info hstored =>
    refine ⟨m, .same, hm.of_heap fun k ref' hk => List.getElem?_set_ne ?_⟩
    rintro rfl
    exact hstored (stored_iff.mpr ⟨k, hk⟩)
  | write =>
    obtain ⟨k, hk, hw⟩ | ⟨-, hw⟩ := hm.write hi .write
    · exact ⟨_, .write ((hm.has_iff hi).mpr ⟨_, hk⟩), hw⟩
    · exact ⟨m, .same, hw⟩
  | @next c s' hc hproceeds =>
    obtain ⟨k, hk, hfound⟩ := hi.running c hc
    cases hproceeds with
    | found | missing | construct | overwrite | ignore | copied => exact ⟨m, .same, hm⟩
    | copy => exact ⟨_, .write ((hm.has_iff hi).mpr ⟨_, hfound⟩), hm.modify hi hfound _⟩
    | @emplace i src copy hsrc =>
      rw [ManagerState.getId, Holder.info, hsrc] at hk
      obtain rfl : src.tId = k := Option.some.inj hk
      have hcopy : copy.tId = src.tId := hfound.2.resolve_left List.not_mem_nil
      have hnew : ¬ m.Has copy.tId := fun hhas => by
        obtain ⟨ref, href⟩ := (hm.has_iff hi).mp hhas
        cases (hcopy ▸ href).symm.trans hfound.1
      refine ⟨_, .add hnew, ?_⟩
      rw [hcopy]
      exact hm.emplace hi hfound.1

/-- `get` reads the uuid it is asked for. -/
theorem Represents.tId_get (hi : Managed s) (hm : Represents s m) : (m.get id).tId = id := by
  rw [TorrentInfoManager.get, Std.TreeMap.getD_eq_getD_getElem?, hm id]
  cases hid : s.infoList[id]? with
  | none => rfl
  | some ref =>
    obtain ⟨old, hold, htId⟩ := Option.map_eq_some_iff.mp (hi.ownKeys id ref hid)
    rw [Option.bind_some, hold]
    exact htId

/-- **On every run** the objects of the map are records that the steps have made
by such changes, and each is read under its own uuid. -/
theorem represents_of_reachable (h : managerMachine.Reachable s) :
    ∃ m, Relation.ReflTransGen Changes .empty m ∧ Represents s m ∧ ∀ id, (m.get id).tId = id := by
  have hsim : ∃ m, Relation.ReflTransGen Changes .empty m ∧ Represents s m := by
    induction h with
    | init hs =>
      obtain rfl := hs
      refine ⟨.empty, .refl, fun k => ?_⟩
      rw [Std.TreeMap.getElem?_emptyc]
      exact Std.TreeMap.getElem?_emptyc
    | step hreach _ hstep ih =>
      obtain ⟨m, hchanges, hm⟩ := ih
      obtain ⟨m', hone, hm'⟩ := hm.step (managed_of_reachable hreach) (manages_of_step hstep)
      exact ⟨m', hchanges.tail hone, hm'⟩
  obtain ⟨m, hchanges, hm⟩ := hsim
  exact ⟨m, hchanges, hm, fun id => hm.tId_get (managed_of_reachable h)⟩

/-- **`Get`** gives a pointer to an object that reads as `get` says. -/
theorem Represents.get (hi : Managed s) (hm : Represents s m) (hnone : s.holder = none) :
    ∃ s' ref, managerMachine.step s (.get id) = some s' ∧ Represents s' m ∧
      s'.handed = ⟨.get, id, ref⟩ :: s.handed ∧ s'.heap[ref]? = some (m.get id) := by
  cases hid : s.infoList[id]? with
  | some ref =>
    refine ⟨s.hand ⟨.get, id, ref⟩, ref, by simp [managerMachine, managerStep, hnone, hid], hm,
      rfl, ?_⟩
    obtain ⟨old, hold⟩ := hi.exists_heap hid
    have hget : m.infoList[id]? = some old := by rw [hm id, hid, Option.bind_some, hold]
    rw [TorrentInfoManager.get, Std.TreeMap.getD_eq_getD_getElem?, hget]
    exact hold
  | none =>
    refine ⟨(s.alloc { tId := id }).hand ⟨.get, id, s.heap.length⟩, s.heap.length,
      by simp [managerMachine, managerStep, hnone, hid], hm.alloc hi, rfl, ?_⟩
    have hget : m.infoList[id]? = none := by rw [hm id, hid, Option.bind_none]
    rw [TorrentInfoManager.get, Std.TreeMap.getD_eq_getD_getElem?, hget]
    exact List.getElem?_concat_length

/-- The copy constructor, run alone, copies what is left. -/
theorem leads_constructing {c : TorrentInfo} (hsrc : s.heap[info]? = some src)
    (left : List Field) : managerMachine.Leads (s.goto (.constructing info c left))
      (s.goto (.constructing info (left.foldl (fun dst f => f.copy src dst) c) [])) := by
  induction left generalizing c with
  | nil => exact .refl _
  | cons f left ih =>
    refine System.Leads.trans (.single (a := .next) ?_) ih
    simp [managerMachine, managerStep, ManagerState.proceed, ManagerState.goto, hsrc]

/-- So does `operator=`. -/
theorem leads_copying (hsrc : s.heap[info]? = some src) (hne : info ≠ target)
    (left : List Field) : managerMachine.Leads (s.goto (.copying info target left))
      ({ s with heap := s.heap.modify target fun dst =>
          left.foldl (fun dst (f : Field) => f.copy src dst) dst }.goto
        (.copying info target [])) := by
  induction left generalizing s with
  | nil =>
    have hsame : s.heap.modify target (fun dst => dst) = s.heap := by
      refine List.ext_getElem? fun i => ?_
      simp [List.getElem?_modify]
    simp only [List.foldl_nil, hsame]
    exact .refl _
  | cons f left ih =>
    have hsrc' : ({ s with heap := s.heap.modify target (f.copy src) } : ManagerState).heap[info]? =
        some src := (List.getElem?_modify_ne _ _ hne.symm).trans hsrc
    refine System.Leads.trans (.single (a := .next) ?_) ((ih hsrc').trans ?_)
    · simp [managerMachine, managerStep, ManagerState.proceed, ManagerState.goto, hsrc]
    · simp only [List.modify_modify_eq]
      exact .refl _

/-- A record that is there is kept. -/
theorem Represents.create_of_some (hi : Managed s) (hm : Represents s m)
    (h : s.infoList[id]? = some ref) : Represents s (m.create id) := by
  have hrecords : id ∈ m.infoList := (hm.has_iff hi).mpr ⟨ref, h⟩
  intro k
  simp only [TorrentInfoManager.create, Std.TreeMap.getElem?_insertIfNew, hrecords, not_true,
    and_false, if_false]
  exact hm k

/-- **`Create(id)`**, run alone, is `create`, and gives a pointer to the record. -/
theorem Represents.create (hi : Managed s) (hm : Represents s m) (hnone : s.holder = none) :
    ∃ s' ref, managerMachine.Leads s s' ∧ s'.holder = none ∧ Represents s' (m.create id) ∧
      s'.handed = ⟨.create, id, ref⟩ :: s.handed ∧ s'.infoList[id]? = some ref := by
  let s1 := s.alloc { tId := id }
  have hsrc : s1.heap[s.heap.length]? = some { tId := id } := List.getElem?_concat_length
  have hi1 : Managed s1 := hi.alloc
  have hm1 : Represents s1 m := hm.alloc hi
  have hcall : managerMachine.Leads s (s1.goto (.create s.heap.length)) := by
    refine .single (a := .createId id) (lock_eq_some_iff.mpr ⟨hnone, ?_, rfl⟩)
    simp [ManagerState.alloc, Holder.info]
  cases hid : s1.infoList[id]? with
  | some ref =>
    refine ⟨(s1.hand ⟨.create, id, ref⟩).unlock, ref, hcall.trans (.single (a := .next) ?_), rfl,
      (hm1.create_of_some hi1 hid : Represents s1 _), rfl, hid⟩
    simp [managerMachine, managerStep, ManagerState.proceed, ManagerState.goto,
      ManagerState.unlock, ManagerState.hand, hsrc, hid]
  | none =>
    have hcopy := fun copy => leads_constructing (c := copy) hsrc copyFields
    simp only [foldl_copy] at hcopy
    have hget : (s1.infoList.insertIfNew id s1.heap.length)[id]? = some s1.heap.length :=
      (getElem?_insertIfNew_of_none hid id).trans (if_pos rfl)
    have hmissing : managerMachine.Leads (s1.goto (.create s.heap.length))
        (s1.goto (.constructing s.heap.length { tId := "" } copyFields)) := by
      refine .single (a := .next) ?_
      simp [managerMachine, managerStep, ManagerState.proceed, ManagerState.goto, hsrc, hid]
    have hemplace : managerMachine.Leads (s1.goto (.constructing s.heap.length { tId := id } []))
        ({ s1.alloc { tId := id } with infoList := s1.infoList.insertIfNew id s1.heap.length }.hand
          ⟨.create, id, s1.heap.length⟩).unlock := by
      refine .single (a := .next) ?_
      show (s1.heap[s.heap.length]?).map _ = _
      rw [hsrc, Option.map_some]
      dsimp only
      rw [Std.TreeMap.getD_eq_getD_getElem?, ManagerState.goto, hget]
      rfl
    exact ⟨_, _, hcall.trans (hmissing.trans ((hcopy _).trans hemplace)), rfl,
      hm1.emplace hi1 hid, rfl, hget⟩

/-- The record of a uuid without one is not written to. -/
theorem Represents.modify_of_none (hm : Represents s m) (h : s.infoList[id]? = none)
    (f : TorrentInfo → TorrentInfo) : Represents s (m.onRecord id f) := by
  intro k
  simp only [TorrentInfoManager.onRecord, Std.TreeMap.getElem?_modify,
    Std.LawfulEqCmp.compare_eq_iff_eq]
  split
  case isTrue hk =>
    subst hk
    rw [hm id, h]
    rfl
  case isFalse => exact hm k

/-- **`Update`**, run alone, overwrites the record of the uuid, where there is one. -/
theorem Represents.update (hi : Managed s) (hm : Represents s m) (hnone : s.holder = none)
    (hsrc : s.heap[info]? = some src) :
    ∃ s', managerMachine.Leads s s' ∧ s'.holder = none ∧
      Represents s' (m.onRecord src.tId fun _ => src) ∧ s'.handed = s.handed := by
  have hcall : managerMachine.Leads s (s.goto (.update info)) := by
    refine .single (a := .update info) (lock_eq_some_iff.mpr ⟨hnone, ?_, rfl⟩)
    exact (List.getElem?_eq_some_iff.mp hsrc).1
  cases hid : s.infoList[src.tId]? with
  | some ref =>
    by_cases hself : info = ref
    · subst hself
      have hsame : s.heap.modify info (fun _ => src) = s.heap := by
        refine List.ext_getElem? fun i => ?_
        rw [List.getElem?_modify]
        split
        case isTrue hi =>
          subst hi
          rw [hsrc]
          rfl
        case isFalse => exact id_map _
      have hover := hm.modify hi hid fun _ => src
      rw [hsame] at hover
      refine ⟨s.unlock, hcall.trans (.single (a := .next) ?_), rfl, hover, rfl⟩
      simp [managerMachine, managerStep, ManagerState.proceed, ManagerState.goto,
        ManagerState.unlock, hsrc, hid]
    · have hcopy := leads_copying hsrc hself copyFields
      simp only [foldl_copy] at hcopy
      refine ⟨_, hcall.trans (.trans (.single (a := .next) ?_) (hcopy.trans
        (.single (a := .next) rfl))), rfl, hm.modify hi hid fun _ => src, rfl⟩
      simp [managerMachine, managerStep, ManagerState.proceed, ManagerState.goto, hsrc, hid, hself]
  | none =>
    refine ⟨s.unlock, hcall.trans (.single (a := .next) ?_), rfl, hm.modify_of_none hid _, rfl⟩
    simp [managerMachine, managerStep, ManagerState.proceed, ManagerState.goto,
      ManagerState.unlock, hsrc, hid]

end Values

end Torrent

end VerAI
