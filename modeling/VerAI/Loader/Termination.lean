import VerAI.Loader.Dependences
/-!
# When `create_components` ends

The loop postpones an item whose important input names a component that is
not created, whether the file defines it later or not at all. So it never
ends once every remaining item is postponed, and this is the only way it
can run for ever: the scan visits every remaining item before it finishes
none.

On the model file the same reads as a *waiting set*: components each of
which needs a component of the set, or one the file does not define. A file
without one is always loaded to an end; no member of one is ever created,
so a file with one ends only where something else raises.
-/

namespace VerAI

namespace Loader

open RoundRobin (Stalled)

section

variable [Unicode] {T : Type} {loader : ComponentLoader T} {jsData : Dict Item}

/-- Items remain, and `check_dependences` is `False` for each of them. -/
def AllPostponed (jsData : Dict Item) (s : LoopState T) : Prop :=
  s.jsonItems ≠ [] ∧ ∀ name ∈ s.jsonItems, ∃ jsonItem, jsData.lookup name = some jsonItem ∧
    checkDependences jsonItem s.globals.createdComponentsOutputs = .ok false

/-- Components of the file each of which has an important input that names a
component of the set or one the file does not define. -/
structure WaitingSet (jsData : Dict Item) (K : Set String) : Prop where
  nonempty : K.Nonempty
  waits : ∀ name ∈ K, ∃ jsonItem, jsData.lookup name = some jsonItem ∧
    ∃ obj var, Names jsonItem obj var ∧ (obj ∉ jsData ∨ obj ∈ K)

/-- The loop reaches an end: it returns, or an exception leaves it. -/
def Returns (loader : ComponentLoader T) (jsData : Dict Item) : Prop :=
  ∃ fuel, createComponents loader jsData fuel ≠ none

theorem visit_keeps_iff {g : Globals T} {name : String} :
    visit loader jsData g name = .ok none ↔ ∃ jsonItem, jsData.lookup name = some jsonItem ∧
      checkDependences jsonItem g.createdComponentsOutputs = .ok false := by
  unfold visit
  cases hl : jsData.lookup name with
  | none => simp [getKey]
  | some jsonItem =>
    cases hc : checkDependences jsonItem g.createdComponentsOutputs with
    | error e => simp [hc]
    | ok ready =>
      cases ready with
      | false => simp [hc, pure, Except.pure]
      | true =>
        cases hg : createComponent loader name jsonItem g with
        | error e => simp [hc, hg]
        | ok g' => simp [hc, hg, pure, Except.pure]

theorem stalled_iff_allPostponed {s : LoopState T} :
    Stalled (visit loader jsData) s.toScan ↔ AllPostponed jsData s := by
  refine and_congr Iff.rfl (forall₂_congr fun name _ => ?_)
  exact visit_keeps_iff

/-- **A run that gets stuck never ends.** -/
theorem not_returns_of_allPostponed {s : LoopState T}
    (h : Iterates loader jsData (start jsData) s) (hs : AllPostponed jsData s) :
    ¬ Returns loader jsData := by
  intro hr
  exact (RoundRobin.ends_iff_not_stalled inRange_start).mp (loop_returns_iff_ends.mp hr) s.toScan
    (iterates_iff_visits.mp h) (stalled_iff_allPostponed.mpr hs)

/-- **And a run that never gets stuck ends.** -/
theorem returns_of_not_allPostponed
    (h : ∀ s, Iterates loader jsData (start jsData) s → ¬ AllPostponed jsData s) :
    Returns loader jsData := by
  refine loop_returns_iff_ends.mpr (RoundRobin.ends_of_not_stalled inRange_start fun t ht hst => ?_)
  exact h (ofScan t) (iterates_iff_visits.mpr ht) (stalled_iff_allPostponed.mp hst)

/-- Where a run is stuck, the remaining items are a waiting set. -/
theorem waitingSet_of_allPostponed {s : LoopState T}
    (h : Iterates loader jsData (start jsData) s) (hs : AllPostponed jsData s) :
    WaitingSet jsData {name | name ∈ s.jsonItems} where
  nonempty := List.exists_mem_of_ne_nil _ hs.1
  waits name hname := by
    obtain ⟨jsonItem, hl, hc⟩ := hs.2 name hname
    obtain ⟨obj, var, hn, hnone⟩ := checkDependences_false hc
    refine ⟨jsonItem, hl, obj, var, hn, ?_⟩
    have hnot : obj ∉ s.globals.createdComponentsOutputs := AList.lookup_eq_none.mp hnone
    rw [h.wellPlaced.mem, not_and, not_not] at hnot
    by_cases hobj : obj ∈ jsData
    · exact .inr (hnot hobj)
    · exact .inl hobj

/-- **No member of a waiting set is ever created.** -/
theorem waitingSet_remains {K : Set String} (hK : WaitingSet jsData K) {s : LoopState T}
    (h : Iterates loader jsData (start jsData) s) : ∀ name ∈ K, name ∈ s.jsonItems := by
  have hinv : WellPlaced jsData s ∧ ∀ name ∈ K, name ∈ s.jsonItems := by
    refine h.invariant (I := fun s => WellPlaced jsData s ∧ ∀ name ∈ K, name ∈ s.jsonItems)
      ⟨wellPlaced_start, fun name hname => ?_⟩ fun s s' hs ht => ?_
    · obtain ⟨jsonItem, hl, -⟩ := hK.waits name hname
      exact AList.mem_keys.mp (AList.lookup_isSome.mp (by simp [hl]))
    · refine ⟨hs.1.iteration ht, fun name hname => ?_⟩
      obtain ⟨itemName, jsonItem, hmem, hl, ⟨-, hj, -⟩ | ⟨hc, -, hj⟩⟩ := iteration_cases ht
      · exact hj ▸ hs.2 name hname
      · -- a member of `K` that was created had everything it names created before it
        by_cases heq : name = itemName
        · subst heq
          obtain ⟨jsonItem', hl', obj, var, hn, hobj⟩ := hK.waits name hname
          rw [hl, Option.some.injEq] at hl'
          subst hl'
          obtain ⟨outputs, ho, -⟩ := checkDependences_true hc hn
          have hin : obj ∈ s.globals.createdComponentsOutputs :=
            AList.lookup_isSome.mp (by simp [ho])
          obtain ⟨hfile, hnot⟩ := (hs.1.mem obj).mp hin
          rcases hobj with hout | hin'
          · exact absurd hfile hout
          · exact absurd (hs.2 obj hin') hnot
        · rw [hj]
          exact (List.mem_erase_of_ne heq).mpr (hs.2 name hname)
  exact hinv.2

/-- A file with a waiting set is not loaded: an end of the loop is an
exception. -/
theorem raises_of_waitingSet {K : Set String} (hK : WaitingSet jsData K) {fuel : ℕ}
    {r : Except Exn (Globals T)} (h : createComponents loader jsData fuel = some r) :
    ∃ e, r = .error e := by
  obtain ⟨s, hs, hend⟩ := loop_eq_some_iff.mp ⟨fuel, h⟩
  rcases hend with ⟨hnil, -⟩ | ⟨-, e, -, rfl⟩
  · obtain ⟨name, hname⟩ := hK.nonempty
    have := waitingSet_remains hK hs name hname
    rw [hnil] at this
    cases this
  · exact ⟨e, rfl⟩

/-- **When the loop reaches an end.** Exactly on the files whose run reaches
no iteration at which every remaining item is postponed. A file without a
waiting set is one of these, and on a file with one the loop can only be
left by an exception. -/
theorem createComponents_returns_iff (loader : ComponentLoader T) (jsData : Dict Item) :
    (Returns loader jsData ↔
      ∀ s, Iterates loader jsData (start jsData) s → ¬ AllPostponed jsData s) ∧
    ((∀ K, ¬ WaitingSet jsData K) → Returns loader jsData) ∧
    (∀ K, WaitingSet jsData K → ∀ fuel r, createComponents loader jsData fuel = some r →
      ∃ e, r = .error e) := by
  refine ⟨⟨fun hr s hs hp => not_returns_of_allPostponed hs hp hr, returns_of_not_allPostponed⟩,
    fun hK => ?_, fun K hK fuel r h => raises_of_waitingSet hK h⟩
  exact returns_of_not_allPostponed fun s hs hp => hK _ (waitingSet_of_allPostponed hs hp)

end

attribute [local instance] latin1

/-- A dictionary entry as a component's constructor declares it. -/
def declared {ν : Type} (description : String) (important : Bool) : Param ν :=
  ⟨description, none, important⟩

/-- The properties a constructor sets are the ones there should be. -/
theorem keys_properties_new : (AList.keys (((AList.singleton ComponentProperties.timestamp .null :
    Dict Json).insert ComponentProperties.type .null).insert ComponentProperties.version .null)) =
    [ComponentProperties.version, ComponentProperties.type, ComponentProperties.timestamp] := by
  decide

/-- The class `Add`, its tensors named by the object that makes them. -/
def addModule : ModuleInfo String where
  className := "Add"
  version := "886525c3"
  construct name := {
    name := name
    inputs := (AList.singleton "y" (declared "A Tensor" true)).insert "x" (declared "A Tensor" true)
    outputs := AList.singleton "result" (declared "A Tensor. Has the same type as x" true)
    params := AList.singleton "name" ⟨"Operation add", some (.str name), false⟩
    properties := ((AList.singleton ComponentProperties.timestamp .null).insert
      ComponentProperties.type .null).insert ComponentProperties.version .null
    propertyKeys := keys_properties_new }
  init b := .ok (AList.singleton "result" b.name)

/-- An item of class `Add` with the given inputs, none of them marked. -/
def addItem (inputs : List (String × String)) : Item where
  className := some (.str "Add")
  version := some (.str "886525c3")
  componentType := some (.str "model")
  timestamp := none
  inputs := inputs.map fun e => ⟨some (.str e.1), some (.str e.2), none⟩
  params := []

/-- One component, an input of which names a component the file does not
define. -/
def danglingFile : Dict Item := AList.singleton "sum" (addItem [("x", "weights.result")])

/-- **The loop hangs on a dangling name.** -/
theorem createComponents_hangs :
    ¬ ∃ fuel, createComponents [addModule] danglingFile fuel ≠ none := by
  refine not_returns_of_allPostponed (s := start danglingFile) .refl ⟨by decide, ?_⟩
  intro name hname
  obtain rfl : name = "sum" := by simpa [start, danglingFile] using hname
  exact ⟨addItem [("x", "weights.result")], rfl, rfl⟩

end Loader

end VerAI
