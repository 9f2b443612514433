import VerAI.Loader.Load
/-!
# The loop of `create_components` as a round-robin scan

`visit` is what one iteration does with the name it finds, and `iteration`
is a turn of the scan by `visit`. What the loop does over whole runs is then
what `RoundRobin` says of scans: the index is always in range, and the loop
reaches an end exactly when it reaches no state in which every remaining
item is postponed.
-/

namespace VerAI

namespace Loader

open RoundRobin (Ends Visits InRange turn)

variable [Unicode] {T : Type} {loader : ComponentLoader T} {jsData : Dict Item}

/-- What an iteration does with the name at the index: postpone it, or
create its component. -/
def visit (loader : ComponentLoader T) (jsData : Dict Item) (g : Globals T) (itemName : String) :
    Except Exn (Option (Globals T)) := do
  let jsonItem ← getKey itemName (jsData.lookup itemName)
  let readyToCreate ← checkDependences jsonItem g.createdComponentsOutputs
  if readyToCreate then
    let globals ← createComponent loader itemName jsonItem g
    return some globals
  else
    return none

/-- The loop's state as a scan's. -/
def LoopState.toScan (s : LoopState T) : RoundRobin.State String (Globals T) :=
  ⟨s.jsonItems, s.i, s.globals⟩

/-- A scan's state as the loop's. -/
def ofScan (s : RoundRobin.State String (Globals T)) : LoopState T := ⟨s.todo, s.i, s.acc⟩

/-- **An iteration is a turn.** -/
theorem iteration_eq_turn (s : LoopState T) :
    iteration loader jsData s =
      (turn (visit loader jsData) indexError s.toScan).map ofScan := by
  unfold iteration turn visit
  cases hx : s.jsonItems[s.i]? with
  | none => simp [LoopState.toScan, hx, Except.map]
  | some itemName =>
    cases hj : getKey itemName (jsData.lookup itemName) with
    | error e => simp [LoopState.toScan, hx, hj, Except.map]
    | ok jsonItem =>
      cases hc : checkDependences jsonItem s.globals.createdComponentsOutputs with
      | error e => simp [LoopState.toScan, hx, hj, hc, Except.map]
      | ok ready =>
        cases ready with
        | false =>
          simp only [LoopState.toScan, hx, hj, hc, ok_bind]
          rfl
        | true =>
          cases hg : createComponent loader itemName jsonItem s.globals with
          | error e => simp [LoopState.toScan, hx, hj, hc, hg, Except.map]
          | ok g =>
            simp only [LoopState.toScan, hx, hj, hc, hg, ok_bind, if_true]
            rfl

/-- The states the loop passes through from `s`. -/
def Iterates (loader : ComponentLoader T) (jsData : Dict Item) : LoopState T → LoopState T → Prop :=
  Relation.ReflTransGen fun s s' => s.jsonItems ≠ [] ∧ iteration loader jsData s = .ok s'

theorem iteration_ok_iff {s s' : LoopState T} :
    iteration loader jsData s = .ok s' ↔
      turn (visit loader jsData) indexError s.toScan = .ok s'.toScan := by
  rw [iteration_eq_turn]
  cases turn (visit loader jsData) indexError s.toScan with
  | error e => simp [Except.map]
  | ok t =>
    simp only [Except.map, Except.ok.injEq]
    constructor
    · rintro rfl
      rfl
    · rintro rfl
      rfl

theorem iteration_error_iff {s : LoopState T} {e : Exn} :
    iteration loader jsData s = .error e ↔
      turn (visit loader jsData) indexError s.toScan = .error e := by
  rw [iteration_eq_turn]
  cases turn (visit loader jsData) indexError s.toScan with
  | error e => simp [Except.map]
  | ok t => simp [Except.map]

theorem iterates_iff_visits {s s' : LoopState T} :
    Iterates loader jsData s s' ↔ Visits (visit loader jsData) indexError s.toScan s'.toScan := by
  constructor
  · intro h
    exact Relation.ReflTransGen.lift LoopState.toScan
      (fun a b hab => ⟨hab.1, iteration_ok_iff.mp hab.2⟩) s s' h
  · intro h
    have h' : Iterates loader jsData (ofScan s.toScan) (ofScan s'.toScan) :=
      Relation.ReflTransGen.lift ofScan
        (fun a b hab => ⟨hab.1, iteration_ok_iff.mpr hab.2⟩) _ _ h
    exact h'

/-- **What an iteration that returns has done**, with the item at the index. -/
theorem iteration_cases_at {s s' : LoopState T} (h : iteration loader jsData s = .ok s') :
    ∃ itemName jsonItem, s.jsonItems[s.i]? = some itemName ∧
      jsData.lookup itemName = some jsonItem ∧
      ((checkDependences jsonItem s.globals.createdComponentsOutputs = .ok false ∧
          s'.jsonItems = s.jsonItems ∧ s'.globals = s.globals) ∨
        (checkDependences jsonItem s.globals.createdComponentsOutputs = .ok true ∧
          createComponent loader itemName jsonItem s.globals = .ok s'.globals ∧
          s'.jsonItems = s.jsonItems.erase itemName)) := by
  unfold iteration at h
  split at h
  · cases h
  · rename_i itemName hx
    obtain ⟨jsonItem, hj, h⟩ := bind_eq_ok.mp h
    obtain ⟨ready, hc, h⟩ := bind_eq_ok.mp h
    refine ⟨itemName, jsonItem, hx, getKey_eq_ok.mp hj, ?_⟩
    cases ready with
    | false =>
      cases h
      exact .inl ⟨hc, rfl, rfl⟩
    | true =>
      obtain ⟨g, hg, h⟩ := bind_eq_ok.mp h
      cases h
      exact .inr ⟨hc, hg, rfl⟩

/-- The same of an item of the list, wherever the index stands. -/
theorem iteration_cases {s s' : LoopState T} (h : iteration loader jsData s = .ok s') :
    ∃ itemName jsonItem, itemName ∈ s.jsonItems ∧ jsData.lookup itemName = some jsonItem ∧
      ((checkDependences jsonItem s.globals.createdComponentsOutputs = .ok false ∧
          s'.jsonItems = s.jsonItems ∧ s'.globals = s.globals) ∨
        (checkDependences jsonItem s.globals.createdComponentsOutputs = .ok true ∧
          createComponent loader itemName jsonItem s.globals = .ok s'.globals ∧
          s'.jsonItems = s.jsonItems.erase itemName)) := by
  obtain ⟨itemName, jsonItem, hx, hrest⟩ := iteration_cases_at h
  exact ⟨itemName, jsonItem, List.mem_of_getElem? hx, hrest⟩

/-- The invariant rule for the loop. -/
theorem Iterates.invariant {I : LoopState T → Prop} {s s' : LoopState T}
    (h : Iterates loader jsData s s') (h0 : I s)
    (hstep : ∀ s s', I s → iteration loader jsData s = .ok s' → I s') : I s' := by
  induction h with
  | refl => exact h0
  | tail _ ht ih => exact hstep _ _ ih ht.2

/-! ## Running with fuel -/

/-- **What the loop returns**, read off the iterations: it has run out of
names, or an iteration raised. -/
theorem loop_eq_some_iff {s : LoopState T} {r : Except Exn (Globals T)} :
    (∃ fuel, loop loader jsData fuel s = some r) ↔
      ∃ s', Iterates loader jsData s s' ∧
        ((s'.jsonItems = [] ∧ r = .ok s'.globals) ∨
          (s'.jsonItems ≠ [] ∧ ∃ e, iteration loader jsData s' = .error e ∧ r = .error e)) := by
  constructor
  · -- induction on the fuel spent
    rintro ⟨fuel, h⟩
    induction fuel generalizing s with
    | zero => cases h
    | succ fuel ih =>
      by_cases hnil : s.jsonItems = []
      · rw [loop, if_pos hnil, Option.some.injEq] at h
        exact ⟨s, .refl, .inl ⟨hnil, h.symm⟩⟩
      · rw [loop, if_neg hnil] at h
        cases hi : iteration loader jsData s with
        | error e =>
          simp only [hi, Option.some.injEq] at h
          exact ⟨s, .refl, .inr ⟨hnil, e, hi, h.symm⟩⟩
        | ok t =>
          simp only [hi] at h
          obtain ⟨s', hs', hend⟩ := ih h
          exact ⟨s', .head ⟨hnil, hi⟩ hs', hend⟩
  · -- one unit for each iteration and one to see the end
    rintro ⟨s', hs', hend⟩
    induction hs' using Relation.ReflTransGen.head_induction_on with
    | refl =>
      refine ⟨1, ?_⟩
      rcases hend with ⟨hnil, rfl⟩ | ⟨hne, e, he, rfl⟩
      · rw [loop, if_pos hnil]
      · rw [loop, if_neg hne]
        simp only [he]
    | head ht _ ih =>
      obtain ⟨fuel, hfuel⟩ := ih
      refine ⟨fuel + 1, ?_⟩
      rw [loop, if_neg ht.1]
      simp only [ht.2]
      exact hfuel

/-- The loop returns exactly when its scan ends. -/
theorem loop_returns_iff_ends {s : LoopState T} :
    (∃ fuel, loop loader jsData fuel s ≠ none) ↔
      Ends (visit loader jsData) indexError s.toScan := by
  constructor
  · rintro ⟨fuel, h⟩
    obtain ⟨r, hr⟩ := Option.ne_none_iff_exists'.mp h
    obtain ⟨s', hs', hend⟩ := loop_eq_some_iff.mp ⟨fuel, hr⟩
    refine ⟨s'.toScan, iterates_iff_visits.mp hs', ?_⟩
    rcases hend with ⟨hnil, -⟩ | ⟨-, e, he, -⟩
    · exact .inl hnil
    · exact .inr ⟨e, iteration_error_iff.mp he⟩
  · rintro ⟨t, ht, hend⟩
    have ht' : Iterates loader jsData s (ofScan t) := iterates_iff_visits.mpr ht
    by_cases hnil : t.todo = []
    · obtain ⟨fuel, hfuel⟩ := loop_eq_some_iff.mpr ⟨_, ht', .inl ⟨hnil, rfl⟩⟩
      exact ⟨fuel, by simp [hfuel]⟩
    · obtain ⟨e, he⟩ := hend.resolve_left hnil
      obtain ⟨fuel, hfuel⟩ :=
        loop_eq_some_iff.mpr ⟨_, ht', .inr ⟨hnil, e, iteration_error_iff.mpr he, rfl⟩⟩
      exact ⟨fuel, by simp [hfuel]⟩

omit [Unicode] in
/-- The index starts in range. -/
theorem inRange_start : InRange (start jsData : LoopState T).toScan :=
  fun hne => List.length_pos_iff.mpr hne

/-- **`json_items[i]` is in range at every iteration**, of any model. -/
theorem index_lt_of_iterates {s : LoopState T} (h : Iterates loader jsData (start jsData) s)
    (hne : s.jsonItems ≠ []) : s.i < s.jsonItems.length :=
  inRange_start.visits (iterates_iff_visits.mp h) hne

end Loader

end VerAI
