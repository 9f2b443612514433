import VerAI.Loader.Confluence
import Mathlib.Data.Finset.Sort
import Mathlib.Data.String.Basic
/-!
# Which components a session runs

`get_components_to_run` takes the components no other one of the dictionary
names as an input, and fetches their outputs. Evaluating a fetched output
evaluates what it is computed from, so nothing is left out as long as every
component leads to a selected one. It does because the loader finished: a
component is created after what its inputs name (`CreatedInOrder`), so links
between components only go forward and a walk along them ends.
-/

namespace VerAI

namespace Loader

open Splits (forall_split_concat idxOf_lt_of_split)

section

variable [Unicode] {T : Type} {loader : ComponentLoader T} {jsData : Dict Item}

/-- The loop of `get_dependence_names`. -/
def dependenceNamesOf : List Dependence → Except Exn (List String)
  | [] => .ok []
  | d :: ds => do
    let value ← getKey "value" d.value
    let (objName, _) ← unpackDot value.toStr
    let res ← dependenceNamesOf ds
    return if objName ≠ "" then objName :: res else res

/-- `get_dependence_names`. -/
def getDependenceNames (jsonItem : Item) : Except Exn (List String) :=
  dependenceNamesOf jsonItem.inputs

/-- The loop over `components.items()` that fills `dependence_names`. -/
def collectNames : List Item → Except Exn (Finset String)
  | [] => .ok ∅
  | jsonValue :: items => do
    let names ← getDependenceNames jsonValue
    let dependenceNames ← collectNames items
    return names.toFinset ∪ dependenceNames

/-- `components_to_run`. -/
def componentsToRun (components : Dict Item) : Except Exn (Finset String) := do
  let dependenceNames ← collectNames (components.entries.map Sigma.snd)
  return components.keys.toFinset \ dependenceNames

/-- The order in which a set yields its elements, each of them once. -/
structure SetOrder where
  toList : Finset String → List String
  nodup : ∀ s, (toList s).Nodup
  mem : ∀ s name, name ∈ toList s ↔ name ∈ s

/-- The loop over `components_to_run` that fills `res`. -/
def collectOutputs (created : Dict (Dict T)) : List String → Except Exn (List T)
  | [] => .ok []
  | componentName :: names => do
    let outputs ← getKey componentName (created.lookup componentName)
    let res ← collectOutputs created names
    return outputs.entries.map Sigma.snd ++ res

/-- `get_components_to_run`. -/
def getComponentsToRun (order : SetOrder) (created : Dict (Dict T)) (components : Dict Item) :
    Except Exn (List T) := do
  let run ← componentsToRun components
  collectOutputs created (order.toList run)

/-- An input of the second component, an entry of the dictionary, names the
first. -/
def Feeds (components : Dict Item) (name name' : String) : Prop :=
  ∃ jsonItem, components.lookup name' = some jsonItem ∧
    ∃ d ∈ jsonItem.inputs, ∃ var, Target d name var

/-- The object created under this name has this type. -/
def HasType (g : Globals T) (name type : String) : Prop :=
  ∃ obj value, g.componentsInstance.lookup name = some obj ∧
    obj.base.getProperty ComponentProperties.type = .ok value ∧ isText value type = true

/-- What `created_components_outputs[name].values()` lists. -/
def outputValues (created : Dict (Dict T)) (name : String) : List T :=
  match created.lookup name with
  | none => []
  | some outputs => outputs.entries.map Sigma.snd

/-- **Every component of the type is executed.** The dictionary holds the
components of the type, the result lists the outputs of each selected one
once, and every one leads to a selected one through components of the
dictionary. -/
structure RunsAll (order : SetOrder) (g : Globals T) (type : String) (components : Dict Item) :
    Prop where
  typed : ∀ name, name ∈ components ↔ HasType g name type
  selected : ∃ names : List String, names.Nodup ∧
    (∀ name ∈ names, name ∈ components ∧ name ∈ g.createdComponentsOutputs) ∧
    getComponentsToRun order g.createdComponentsOutputs components =
      .ok (names.flatMap (outputValues g.createdComponentsOutputs)) ∧
    ∀ name ∈ components, ∃ sel ∈ names,
      Relation.ReflTransGen (fun a b => a ∈ components ∧ Feeds components a b) name sel

/-! ## What is selected -/

/-- **The names of an item's inputs.** -/
theorem dependenceNamesOf_returns {ds : List Dependence}
    (h : ∀ d ∈ ds, ∃ obj var, Target d obj var) :
    ∃ names, dependenceNamesOf ds = .ok names ∧
      ∀ obj, obj ∈ names ↔ obj ≠ "" ∧ ∃ d ∈ ds, ∃ var, Target d obj var := by
  induction ds with
  | nil => exact ⟨[], rfl, by simp⟩
  | cons d ds ih =>
    obtain ⟨names, hnames, hmem⟩ := ih fun e he => h e (List.mem_cons_of_mem _ he)
    obtain ⟨obj, var, htarget⟩ := h d (List.mem_cons_self ..)
    obtain ⟨value, hv, hs⟩ := htarget
    have hd : ∀ obj', (∃ var', Target d obj' var') ↔ obj' = obj := by
      intro obj'
      constructor
      · rintro ⟨var', ht⟩
        exact (ht.unique ⟨value, hv, hs⟩).1
      · rintro rfl
        exact ⟨var, value, hv, hs⟩
    refine ⟨if obj ≠ "" then obj :: names else names, ?_, fun obj' => ?_⟩
    · simp only [dependenceNamesOf, hv, getKey_some, ok_bind, unpackDot_eq_ok.mpr hs, hnames]
      rfl
    · rw [List.exists_mem_cons_iff, hd obj', and_or_left, ← hmem obj']
      split
      case isTrue hne =>
        rw [List.mem_cons]
        constructor
        · rintro (rfl | hin)
          · exact .inl ⟨hne, rfl⟩
          · exact .inr hin
        · rintro (⟨-, rfl⟩ | hin)
          · exact .inl rfl
          · exact .inr hin
      case isFalse heq =>
        rw [not_not] at heq
        constructor
        · exact .inr
        · rintro (⟨hne, rfl⟩ | hin)
          · exact absurd heq hne
          · exact hin

/-- The names of all the items of a list. -/
theorem collectNames_returns (items : List Item)
    (h : ∀ jsonItem ∈ items, ∀ d ∈ jsonItem.inputs, ∃ obj var, Target d obj var) :
    ∃ names, collectNames items = .ok names ∧ ∀ obj, obj ∈ names ↔
      obj ≠ "" ∧ ∃ jsonItem ∈ items, ∃ d ∈ jsonItem.inputs, ∃ var, Target d obj var := by
  induction items with
  | nil => exact ⟨∅, rfl, by simp⟩
  | cons jsonItem items ih =>
    obtain ⟨rest, hrest, hmem⟩ := ih fun i hi => h i (List.mem_cons_of_mem _ hi)
    obtain ⟨names, hnames, hmem'⟩ := dependenceNamesOf_returns (h jsonItem (List.mem_cons_self ..))
    refine ⟨names.toFinset ∪ rest, ?_, fun obj => ?_⟩
    · simp only [collectNames, getDependenceNames, hnames, ok_bind, hrest]
      rfl
    · rw [Finset.mem_union, List.mem_toFinset, hmem, hmem', List.exists_mem_cons_iff, and_or_left]

omit [Unicode] in
/-- The items of a dictionary are what its names lead to. -/
theorem mem_items_iff {components : Dict Item} {jsonItem : Item} :
    jsonItem ∈ components.entries.map Sigma.snd ↔
      ∃ name, components.lookup name = some jsonItem := by
  rw [List.mem_map]
  constructor
  · rintro ⟨⟨name, item⟩, hmem, rfl⟩
    exact ⟨name, AList.mem_lookup_iff.mpr hmem⟩
  · rintro ⟨name, hl⟩
    exact ⟨⟨name, jsonItem⟩, AList.mem_lookup_iff.mp hl, rfl⟩

/-- **The selection** is what no component of the dictionary names. -/
theorem componentsToRun_returns (components : Dict Item)
    (h : ∀ name jsonItem, components.lookup name = some jsonItem → ∀ d ∈ jsonItem.inputs,
      ∃ obj var, Target d obj var) :
    ∃ run, componentsToRun components = .ok run ∧ ∀ name, name ∈ run ↔
      name ∈ components ∧ (name = "" ∨ ∀ name', ¬ Feeds components name name') := by
  obtain ⟨names, hnames, hmem⟩ :=
    collectNames_returns (components.entries.map Sigma.snd) fun jsonItem hin => by
      obtain ⟨name, hl⟩ := mem_items_iff.mp hin
      exact h name jsonItem hl
  refine ⟨components.keys.toFinset \ names, ?_, fun name => ?_⟩
  · simp only [componentsToRun, hnames, ok_bind]
    rfl
  · rw [Finset.mem_sdiff, List.mem_toFinset, ← AList.mem_keys, hmem, not_and_or, not_not]
    refine and_congr_right' (or_congr_right ?_)
    constructor
    · rintro hnone name' ⟨jsonItem, hl, hfeeds⟩
      exact hnone ⟨jsonItem, mem_items_iff.mpr ⟨name', hl⟩, hfeeds⟩
    · rintro hnone ⟨jsonItem, hin, hfeeds⟩
      obtain ⟨name', hl⟩ := mem_items_iff.mp hin
      exact hnone name' ⟨jsonItem, hl, hfeeds⟩

omit [Unicode] in
/-- The outputs of the names, in their order. -/
theorem collectOutputs_eq {created : Dict (Dict T)} {names : List String}
    (h : ∀ name ∈ names, name ∈ created) :
    collectOutputs created names = .ok (names.flatMap (outputValues created)) := by
  induction names with
  | nil => rfl
  | cons name names ih =>
    obtain ⟨outputs, ho⟩ := Option.isSome_iff_exists.mp
      (AList.lookup_isSome.mpr (h name (List.mem_cons_self ..)))
    have hrest := ih fun n hn => h n (List.mem_cons_of_mem _ hn)
    simp only [collectOutputs, ho, getKey_some, ok_bind, hrest, List.flatMap_cons, outputValues]
    rfl

/-! ## Links go forward -/

/-- Every creation comes after the components its item names. -/
def CreatedInOrder (jsData : Dict Item) (trace : List (Creation T)) : Prop :=
  ∀ earlier c later, trace = earlier ++ c :: later → ∀ jsonItem,
    jsData.lookup c.name = some jsonItem → ∀ obj var, Names jsonItem obj var →
      obj ∈ earlier.map Creation.name

omit [Unicode] in
/-- What is created is on the trace. -/
theorem WellPlaced.mem_trace {s : LoopState T} (h : WellPlaced jsData s) {name : String}
    (hname : name ∈ s.globals.createdComponentsOutputs) :
    name ∈ s.globals.trace.map Creation.name := by
  obtain ⟨hfile, hnot⟩ := (h.mem name).mp hname
  have hin := h.perm.mem_iff.mpr (AList.mem_keys.mp hfile)
  exact (List.mem_append.mp hin).resolve_right hnot

/-- **Every run creates in order.** -/
theorem Iterates.createdInOrder {s : LoopState T} (h : Iterates loader jsData (start jsData) s) :
    WellPlaced jsData s ∧ CreatedInOrder jsData s.globals.trace := by
  refine h.invariant (I := fun s => WellPlaced jsData s ∧ CreatedInOrder jsData s.globals.trace)
    ⟨wellPlaced_start, fun earlier c later heq => by simp [start, Globals.empty] at heq⟩ ?_
  rintro s s' ⟨hw, ho⟩ ht
  refine ⟨hw.iteration ht, ?_⟩
  obtain ⟨name, jsonItem, -, hl, ⟨-, -, hg⟩ | ⟨hc, hcreate, -⟩⟩ := iteration_cases ht
  · exact hg ▸ ho
  · obtain ⟨r, -, hg⟩ := createComponent_eq_ok_iff.mp hcreate
    rw [hg]
    refine forall_split_concat ho fun item hitem obj var hn => ?_
    obtain rfl : item = jsonItem := Option.some.inj (hitem.symm.trans hl)
    exact hw.mem_trace (checkDependences_true hc hn).mem

/-- A component stands after what it names. -/
theorem CreatedInOrder.idxOf_lt {trace : List (Creation T)} (h : CreatedInOrder jsData trace)
    (hnodup : (trace.map Creation.name).Nodup) {name obj var : String} {jsonItem : Item}
    (hname : name ∈ trace.map Creation.name) (hl : jsData.lookup name = some jsonItem)
    (hn : Names jsonItem obj var) :
    (trace.map Creation.name).idxOf obj < (trace.map Creation.name).idxOf name := by
  obtain ⟨c, hc, rfl⟩ := List.mem_map.mp hname
  obtain ⟨earlier, later, rfl⟩ := List.append_of_mem hc
  rw [List.map_append, List.map_cons] at hnodup ⊢
  exact idxOf_lt_of_split hnodup rfl (h earlier c later rfl jsonItem hl obj var hn)

/-! ## Every component leads to a selected one -/

section Walk

variable {s : LoopState T} {components : Dict Item}

/-- A link of the dictionary goes from an earlier creation to a later. -/
theorem CreatedInOrder.idxOf_lt_of_feeds (hrefs : ImportantRefs jsData) (hw : WellPlaced jsData s)
    (ho : CreatedInOrder jsData s.globals.trace)
    (hitems : ∀ name jsonItem, components.lookup name = some jsonItem →
      jsData.lookup name = some jsonItem ∧ name ∈ s.globals.createdComponentsOutputs)
    {name name' : String} (h : Feeds components name name') :
    (s.globals.trace.map Creation.name).idxOf name <
      (s.globals.trace.map Creation.name).idxOf name' := by
  obtain ⟨jsonItem, hl, d, hd, var, ht⟩ := h
  obtain ⟨hfile, hcreated⟩ := hitems name' jsonItem hl
  have hnodup := (List.nodup_append.mp (hw.perm.nodup_iff.mpr jsData.keys_nodup)).1
  exact ho.idxOf_lt hnodup (hw.mem_trace hcreated) hfile (hrefs.names_of_target hfile hd ht)

/-- **The walk.** From every component the links lead to one that no
component of the dictionary names. -/
theorem exists_selected (hrefs : ImportantRefs jsData) (hw : WellPlaced jsData s)
    (ho : CreatedInOrder jsData s.globals.trace)
    (hitems : ∀ name jsonItem, components.lookup name = some jsonItem →
      jsData.lookup name = some jsonItem ∧ name ∈ s.globals.createdComponentsOutputs)
    {run : Finset String}
    (hrun : ∀ name, name ∈ run ↔
      name ∈ components ∧ (name = "" ∨ ∀ name', ¬ Feeds components name name'))
    {name : String} (hname : name ∈ components) :
    ∃ sel ∈ run,
      Relation.ReflTransGen (fun a b => a ∈ components ∧ Feeds components a b) name sel := by
  -- by the number of creations that come after the component's
  induction hk : s.globals.trace.length - (s.globals.trace.map Creation.name).idxOf name
    using Nat.strong_induction_on generalizing name with
  | _ k ih =>
    by_cases hsel : name ∈ run
    · exact ⟨name, hsel, .refl⟩
    · rw [hrun] at hsel
      push Not at hsel
      obtain ⟨-, name', hfeeds⟩ := hsel hname
      have hlt := ho.idxOf_lt_of_feeds hrefs hw hitems hfeeds
      have ⟨jsonItem, hl, _⟩ := hfeeds
      have hname' : name' ∈ components := AList.lookup_isSome.mp (by simp [hl])
      have hin := hw.mem_trace (hitems name' jsonItem hl).2
      have hle := List.idxOf_lt_length_of_mem hin
      rw [List.length_map] at hle
      obtain ⟨sel, hsel, hpath⟩ := ih _ (by omega) hname' rfl
      exact ⟨sel, hsel, .head ⟨hname, hfeeds⟩ hpath⟩

end Walk

/-! ## The dictionaries of a finished run -/

section Types

variable {g : Globals T} {name : String} {jsonItem : Item}

omit [Unicode] in
theorem isText_unique {value : Json} {text text' : String} (h : isText value text = true)
    (h' : isText value text' = true) : text = text' := by
  cases value with
  | str s => exact (beq_iff_eq.mp h).symm.trans (beq_iff_eq.mp h')
  | _ => cases h

/-- The row a type's dictionary has of a component. -/
theorem Built.row_test (r : Built T) :
    (r.row jsonItem).test = if isText r.type "test" then some jsonItem else none := by
  simp only [Built.row]
  split
  case isTrue htrain =>
    rw [if_neg fun htest => absurd (isText_unique htrain htest) (by decide)]
  case isFalse => rfl

/-- **A dictionary of one type** holds the items of the components of that
type, all of them created. `proj` is the dictionary's part of a row. -/
theorem Settled.lookup_iff_hasType (h : Settled loader jsData g) (type : String)
    {components : Dict Item} (proj : Row T → Option Item)
    (hproj : ∀ name, proj (g.row name) = components.lookup name) (hempty : proj .empty = none)
    (hbuilt : ∀ (r : Built T) jsonItem,
      proj (r.row jsonItem) = if isText r.type type then some jsonItem else none) :
    (∀ name, name ∈ components ↔ HasType g name type) ∧
      ∀ name jsonItem, components.lookup name = some jsonItem →
        jsData.lookup name = some jsonItem ∧ name ∈ g.createdComponentsOutputs := by
  refine ⟨fun name => ?_, fun name jsonItem hl => ?_⟩
  all_goals by_cases hname : name ∈ g.createdComponentsOutputs
  · obtain ⟨jsonItem, r, -, -, hr, hrow⟩ := h.created name hname
    have hobj : g.componentsInstance.lookup name = some (r.obj jsonItem) :=
      congrArg Row.instance_ hrow
    rw [← AList.lookup_isSome, ← hproj, hrow, hbuilt]
    constructor
    · intro hsome
      by_cases ht : isText r.type type
      · exact ⟨r.obj jsonItem, r.type, hobj, hr.type, ht⟩
      · rw [if_neg ht] at hsome
        cases hsome
    · rintro ⟨obj, value, ho, hv, ht⟩
      obtain rfl : r.obj jsonItem = obj := Option.some.inj (hobj.symm.trans ho)
      obtain rfl : r.type = value := Except.ok.inj (hr.type.symm.trans hv)
      rw [if_pos ht]
      rfl
  · have hrow := h.fresh name hname
    rw [← AList.lookup_isSome, ← hproj, hrow, hempty]
    constructor
    · intro hsome
      cases hsome
    · rintro ⟨obj, value, ho, -, -⟩
      rw [show g.componentsInstance.lookup name = none from congrArg Row.instance_ hrow] at ho
      cases ho
  · obtain ⟨item, r, hl', -, -, hrow⟩ := h.created name hname
    rw [← hproj, hrow, hbuilt] at hl
    split at hl
    · obtain rfl := Option.some.inj hl
      exact ⟨hl', hname⟩
    · cases hl
  · rw [← hproj, h.fresh name hname, hempty] at hl
    cases hl

end Types

/-- The selection over a dictionary of a finished run. -/
theorem runsAll_of_finished (hrefs : ImportantRefs jsData) (order : SetOrder) {s : LoopState T}
    (hs : Iterates loader jsData (start jsData) s) {type : String} {components : Dict Item}
    (htyped : ∀ name, name ∈ components ↔ HasType s.globals name type)
    (hitems : ∀ name jsonItem, components.lookup name = some jsonItem →
      jsData.lookup name = some jsonItem ∧ name ∈ s.globals.createdComponentsOutputs) :
    RunsAll order s.globals type components := by
  obtain ⟨hw, ho⟩ := hs.createdInOrder
  obtain ⟨run, hrun, hmem⟩ := componentsToRun_returns components
    fun name jsonItem hl d hd => by
      obtain ⟨obj, var, ht, -⟩ := hrefs.target (hitems name jsonItem hl).1 hd
      exact ⟨obj, var, ht⟩
  have hsub : ∀ name ∈ order.toList run,
      name ∈ components ∧ name ∈ s.globals.createdComponentsOutputs := by
    intro name hname
    have hin : name ∈ components := ((hmem name).mp ((order.mem run name).mp hname)).1
    obtain ⟨jsonItem, hl⟩ := Option.isSome_iff_exists.mp (AList.lookup_isSome.mpr hin)
    exact ⟨hin, (hitems name jsonItem hl).2⟩
  refine ⟨htyped, order.toList run, order.nodup run, hsub, ?_, fun name hname => ?_⟩
  · simp only [getComponentsToRun, hrun, ok_bind]
    exact collectOutputs_eq fun name hname => (hsub name hname).2
  · obtain ⟨sel, hsel, hpath⟩ := exists_selected hrefs hw ho hitems hmem hname
    exact ⟨sel, (order.mem run sel).mpr hsel, hpath⟩

/-- **Every train component is executed, and every test component.** Over
every file of important references that is loaded to the end, in whatever
order a set yields its elements. -/
theorem getComponentsToRun_runsAll (hrefs : ImportantRefs jsData) (order : SetOrder) {fuel : ℕ}
    {g : Globals T} (h : createComponents loader jsData fuel = some (.ok g)) :
    RunsAll order g "train" g.componentsTrainJson ∧
      RunsAll order g "test" g.componentsTestJson := by
  obtain ⟨s, hs, -, rfl⟩ := exists_finished h
  have hset := hs.settled hrefs
  obtain ⟨htrain, htrain'⟩ := hset.lookup_iff_hasType "train" Row.train (fun _ => rfl)
    rfl fun _ _ => rfl
  obtain ⟨htest, htest'⟩ := hset.lookup_iff_hasType "test" Row.test (fun _ => rfl)
    rfl fun r _ => r.row_test
  exact ⟨runsAll_of_finished hrefs order hs htrain htrain',
    runsAll_of_finished hrefs order hs htest htest'⟩

end

attribute [local instance] latin1

/-- A set that yields its elements in the order of their names. -/
def sortedOrder : SetOrder where
  toList s := s.sort (· ≤ ·)
  nodup s := s.sort_nodup _
  mem s _ := Finset.mem_sort (s := s) _

/-- `total` adds up the train component `sum` and is one itself. -/
def trainFile : Dict Item :=
  (AList.singleton "sum" { addItem [] with componentType := some (.str "train") }).insert "total"
    { addItem [("x", "sum.result")] with componentType := some (.str "train") }

theorem trainFile_importantRefs : ImportantRefs trainFile := by
  intro name jsonItem hl d hd
  have hin : jsonItem ∈ trainFile.entries.map Sigma.snd := mem_items_iff.mpr ⟨name, hl⟩
  obtain rfl | rfl : jsonItem = _ ∨ jsonItem = _ := by simpa [trainFile] using hin
  · obtain rfl := List.mem_singleton.mp hd
    exact ⟨rfl, "sum.result", "sum", "result", rfl, by decide⟩
  · cases hd

/-- The file is loaded to the end, and both its components are executed. -/
theorem trainFile_runsAll :
    ∃ fuel g, createComponents [addModule] trainFile fuel = some (.ok g) ∧
      g.componentsTrainJson.keys = ["total", "sum"] ∧
      RunsAll sortedOrder g "train" g.componentsTrainJson ∧
        RunsAll sortedOrder g "test" g.componentsTestJson := by
  have hrun : ∃ g, createComponents [addModule] trainFile 4 = some (.ok g) ∧
      g.componentsTrainJson.keys = ["total", "sum"] := ⟨_, rfl, rfl⟩
  obtain ⟨g, hg, hkeys⟩ := hrun
  exact ⟨4, g, hg, hkeys, getComponentsToRun_runsAll trainFile_importantRefs sortedOrder hg⟩

end Loader

end VerAI
