import VerAI.Loader.Completeness
import VerAI.Lib.Laps
/-!
# Files in dependency order

An optional input is bound only when its component exists already, so a file
that lists every component after the ones its inputs name should have all of
them bound. The loop does not visit such a file in its order: the entry after
the one just created is passed over, and a component may be created before
one that stands in front of it. Then its optional inputs stay unbound.

In which lap of the loop a component of such a file is created can be read
off the file (`createdInLap`): from its order and from what the important
inputs name. So can be, then, whether every input is bound: an input is unless
it names a component of a later lap.
-/

namespace VerAI

namespace Loader

open Splits (forall_split_concat idxOf_lt_of_split)
open RoundRobin (InLap Numbered)

section

variable [Unicode] {T : Type} {loader : ComponentLoader T} {jsData : Dict Item}

/-- **A file in dependency order**: every value reads `obj.var` and names an
output that exists of a component listed before, every input name is
declared, every class resolves and every `init()` returns. -/
structure InFileOrder (loader : ComponentLoader T) (jsData : Dict Item) : Prop where
  values : ∀ name jsonItem, jsData.lookup name = some jsonItem → ∀ d ∈ jsonItem.inputs,
    ∃ s obj var, d.value = some (.str s) ∧ splitDot s = [obj, var]
  resolves : ∀ name jsonItem, jsData.lookup name = some jsonItem →
    ∃ newObj, Resolved loader name jsonItem newObj
  declared : ∀ name jsonItem newObj, jsData.lookup name = some jsonItem →
    Resolved loader name jsonItem newObj → ∀ d ∈ jsonItem.inputs,
    ∃ key, d.name = some (.str key) ∧ key ∈ newObj.base.inputs
  init_returns : ∀ name jsonItem obj, jsData.lookup name = some jsonItem →
    Prepared loader name jsonItem obj → ∃ outputs, obj.cls.init obj.base = .ok outputs
  outputs : ∀ name jsonItem, jsData.lookup name = some jsonItem → ∀ d ∈ jsonItem.inputs,
    ∀ obj var, Target d obj var → ∀ jsonItem', jsData.lookup obj = some jsonItem' →
    ∀ outs, MayReturn loader obj jsonItem' outs → var ∈ outs
  listed : ∀ earlier name later, jsData.keys = earlier ++ name :: later →
    ∀ jsonItem, jsData.lookup name = some jsonItem → ∀ d ∈ jsonItem.inputs,
    ∀ obj var, Target d obj var → obj ∈ earlier

/-- A component comes after what its inputs name. -/
theorem InFileOrder.idxOf_lt (h : InFileOrder loader jsData) {name : String} {jsonItem : Item}
    (hl : jsData.lookup name = some jsonItem) {d : Dependence} (hd : d ∈ jsonItem.inputs)
    {obj var : String} (ht : Target d obj var) :
    obj ∈ jsData ∧ jsData.keys.idxOf obj < jsData.keys.idxOf name := by
  have hname : name ∈ jsData.keys :=
    AList.mem_keys.mp (AList.lookup_isSome.mp (by simp [hl]))
  obtain ⟨earlier, later, hkeys⟩ := List.append_of_mem hname
  have hobj : obj ∈ earlier := h.listed earlier name later hkeys jsonItem hl d hd obj var ht
  exact ⟨AList.mem_keys.mpr (hkeys ▸ List.mem_append_left _ hobj),
    idxOf_lt_of_split jsData.keys_nodup hkeys hobj⟩

/-- **Such a file can be loaded.** -/
theorem InFileOrder.loadable (h : InFileOrder loader jsData) : Loadable loader jsData where
  values := h.values
  resolves := h.resolves
  declared := h.declared
  init_returns := h.init_returns
  defined name jsonItem hl d hd _ obj var ht := (h.idxOf_lt hl hd ht).1
  outputs := h.outputs
  acyclic name hcycle := by
    have hlt : ∀ a b, DependsOn jsData a b → jsData.keys.idxOf b < jsData.keys.idxOf a := by
      rintro a b ⟨jsonItem, hl, var, d, hd, -, deps, hdeps, hmem⟩
      obtain ⟨s, obj, var', hv, hs⟩ := h.values a jsonItem hl d hd
      rw [depList_str hv hs, Except.ok.injEq] at hdeps
      subst hdeps
      obtain ⟨rfl, rfl⟩ := Prod.mk.inj (List.mem_singleton.mp hmem)
      exact (h.idxOf_lt hl hd ⟨.str s, hv, hs⟩).2
    have htrans : ∀ a b, Relation.TransGen (DependsOn jsData) a b →
        jsData.keys.idxOf b < jsData.keys.idxOf a := by
      intro a b hab
      induction hab with
      | single h1 => exact hlt _ _ h1
      | tail _ h1 ih => exact (hlt _ _ h1).trans ih
    exact lt_irrefl _ (htrans name name hcycle)

/-- Every input of a creation, important or not, names an output that one of
`earlier` recorded, and is bound. -/
def AllBound (jsData : Dict Item) (earlier : List (Creation T)) (c : Creation T) : Prop :=
  ∃ jsonItem, jsData.lookup c.name = some jsonItem ∧ ∀ d ∈ jsonItem.inputs,
    ∀ obj var, Target d obj var →
      (∃ c' ∈ earlier, c'.name = obj ∧ var ∈ c'.outputs) ∧ Bound jsonItem earlier d c.base

/-- **Every input of every component is bound** to what a component created
before it recorded. -/
def InputsBound (jsData : Dict Item) (trace : List (Creation T)) : Prop :=
  ∀ earlier c later, trace = earlier ++ c :: later → AllBound jsData earlier c

/-- The component an entry's value names. -/
def Dependence.object (d : Dependence) : Option String :=
  match d.value with
  | some (.str s) =>
    match splitDot s with
    | [obj, _] => some obj
    | _ => none
  | _ => none

/-- The components the important inputs of an item name. -/
def importantObjects (jsData : Dict Item) (name : String) : List String :=
  match jsData.lookup name with
  | some jsonItem => (jsonItem.inputs.filter Dependence.isImportant).filterMap Dependence.object
  | none => []

/-- **The lap in which a component of the file is created**: the first one, from
those of the components its important inputs name on, in which the entry is
not passed over. -/
def createdInLap (jsData : Dict Item) : String → ℕ :=
  RoundRobin.lap (importantObjects jsData) jsData.keys

/-- No input names a component of a later lap than that of its own. -/
def InLapOrder (jsData : Dict Item) : Prop :=
  ∀ name jsonItem, jsData.lookup name = some jsonItem → ∀ d ∈ jsonItem.inputs,
    ∀ obj var, Target d obj var → createdInLap jsData obj ≤ createdInLap jsData name

/-- The item at the index is ready while a component that one of its inputs
names is still in the list. -/
def VisitedEarly (jsData : Dict Item) (s : LoopState T) : Prop :=
  ∃ name jsonItem, s.jsonItems[s.i]? = some name ∧ jsData.lookup name = some jsonItem ∧
    checkDependences jsonItem s.globals.createdComponentsOutputs = .ok true ∧
    ∃ d ∈ jsonItem.inputs, ∃ obj var, Target d obj var ∧ obj ∈ s.jsonItems

/-! ## The trace of a run -/

section Trace

variable {s s' : LoopState T}

/-- The trace only grows. -/
theorem Iterates.trace_prefix (h : Iterates loader jsData s s') :
    s.globals.trace <+: s'.globals.trace := by
  refine h.invariant (I := fun t => s.globals.trace <+: t.globals.trace) List.prefix_rfl
    fun t t' ht hstep => ?_
  obtain ⟨itemName, jsonItem, -, -, ⟨-, -, hg⟩ | ⟨-, hcreate, -⟩⟩ := iteration_cases hstep
  · exact hg ▸ ht
  · obtain ⟨r, -, hg⟩ := createComponent_eq_ok_iff.mp hcreate
    rw [hg]
    exact ht.trans (List.prefix_append ..)

omit [Unicode] in
/-- A component that is still in the list is not on the trace. -/
theorem WellPlaced.not_created (h : WellPlaced jsData s) {obj : String} (hobj : obj ∈ s.jsonItems)
    {c : Creation T} (hc : c ∈ s.globals.trace) : c.name ≠ obj := by
  rintro rfl
  have hnodup := h.perm.nodup_iff.mpr jsData.keys_nodup
  exact (List.nodup_append.mp hnodup).2.2 c.name (List.mem_map_of_mem hc) c.name hobj rfl

/-- A name that leaves the list does so in some iteration. -/
theorem Iterates.exists_removed {t : LoopState T} (h : Iterates loader jsData s t) {name : String}
    (hin : name ∈ s.jsonItems) (hout : name ∉ t.jsonItems) :
    ∃ u u', Iterates loader jsData s u ∧ iteration loader jsData u = .ok u' ∧
      name ∈ u.jsonItems ∧ name ∉ u'.jsonItems := by
  induction h with
  | refl => exact absurd hin hout
  | @tail u u' hu hstep ih =>
    by_cases hmem : name ∈ u.jsonItems
    · exact ⟨u, u', hu, hstep.2, hmem, hout⟩
    · exact ih hmem

/-- Of two states of one run, the one with no names left is the later. -/
theorem Iterates.of_finished {t : LoopState T} (h : Iterates loader jsData (start jsData) s)
    (ht : Iterates loader jsData (start jsData) t) (hnil : t.jsonItems = [])
    (hne : s.jsonItems ≠ []) : Iterates loader jsData s t := by
  rcases Relation.ReflTransGen.total_of_right_unique
    (fun a b c hab hac => Except.ok.inj (hab.2.symm.trans hac.2)) h ht with hst | hts
  · exact hst
  · rcases Relation.ReflTransGen.cases_head hts with rfl | ⟨u, ⟨hne', -⟩, -⟩
    · exact absurd hnil hne
    · exact absurd hnil hne'

end Trace

/-! ## Which inputs are bound -/

/-- A run that never visits early binds every input. -/
theorem InFileOrder.inputsBound (h : InFileOrder loader jsData) {s : LoopState T}
    (hs : Iterates loader jsData (start jsData) s)
    (hlate : ∀ t, Iterates loader jsData (start jsData) t → ¬ VisitedEarly jsData t) :
    LoadInv loader jsData s ∧ InputsBound jsData s.globals.trace := by
  induction hs with
  | refl => exact ⟨loadInv_start, fun earlier c later heq => by simp [start, Globals.empty] at heq⟩
  | @tail t t' ht hstep ih =>
    obtain ⟨hinv, hbound⟩ := ih
    refine ⟨hinv.iteration h.loadable hstep.2, ?_⟩
    obtain ⟨name, jsonItem, hx, hl, ⟨-, -, hg⟩ | ⟨hc, hcreate, -⟩⟩ := iteration_cases_at hstep.2
    · exact hg ▸ hbound
    · obtain ⟨r, ⟨-, -, -, hb, -, -⟩, hg⟩ := createComponent_eq_ok_iff.mp hcreate
      rw [hg]
      refine forall_split_concat hbound ⟨jsonItem, hl, fun d hd obj var htarget => ?_⟩
      refine hinv.bound hb hd htarget (hinv.recorded h.loadable hl hd htarget ?_)
      -- what it names is in the file and no longer in the list
      refine (hinv.placed.mem obj).mpr ⟨(h.idxOf_lt hl hd htarget).1, fun hin => ?_⟩
      exact hlate t ht ⟨name, jsonItem, hx, hl, hc, d, hd, obj, var, htarget, hin⟩

/-- **A component created early has an input that is not bound.** -/
theorem InFileOrder.not_inputsBound (h : InFileOrder loader jsData) {s t : LoopState T}
    (hs : Iterates loader jsData (start jsData) s) (hearly : VisitedEarly jsData s)
    (ht : Iterates loader jsData (start jsData) t) (hnil : t.jsonItems = []) :
    ¬ InputsBound jsData t.globals.trace := by
  intro hbound
  obtain ⟨name, jsonItem, hx, hl, hc, d, hd, obj, var, htarget, hobj⟩ := hearly
  have hne : s.jsonItems ≠ [] := List.ne_nil_of_mem hobj
  have hinv : LoadInv loader jsData s :=
    hs.invariant loadInv_start fun _ _ hinv hstep => hinv.iteration h.loadable hstep
  obtain ⟨s', hstep⟩ := hinv.iteration_returns h.loadable (index_lt_of_iterates hs hne)
  obtain ⟨name', jsonItem', hx', hl', ⟨hc', -, -⟩ | ⟨-, hcreate, -⟩⟩ := iteration_cases_at hstep
  all_goals
    obtain rfl : name' = name := Option.some.inj (hx'.symm.trans hx)
    obtain rfl : jsonItem' = jsonItem := Option.some.inj (hl'.symm.trans hl)
  · rw [hc] at hc'
    cases hc'
  · obtain ⟨r, -, hg⟩ := createComponent_eq_ok_iff.mp hcreate
    -- the run goes through the state the creation leads to
    have hrest : Iterates loader jsData s' t := by
      rcases Relation.ReflTransGen.cases_head (hs.of_finished ht hnil hne) with
        rfl | ⟨u, ⟨-, hu⟩, hut⟩
      · exact absurd hnil hne
      · exact Except.ok.inj (hstep.symm.trans hu) ▸ hut
    obtain ⟨later, hlater⟩ := hrest.trace_prefix
    rw [hg, record, List.append_assoc, List.singleton_append] at hlater
    obtain ⟨item, hitem, hall⟩ := hbound _ _ _ hlater.symm
    obtain rfl : item = jsonItem' := Option.some.inj (hitem.symm.trans hl)
    obtain ⟨⟨c', hc', hname, -⟩, -⟩ := hall d hd obj var htarget
    exact hinv.placed.not_created hobj hc' hname

/-! ## In which lap -/

theorem InFileOrder.mem_importantObjects_iff (h : InFileOrder loader jsData) {name obj : String} :
    obj ∈ importantObjects jsData name ↔ DependsOn jsData name obj := by
  unfold importantObjects DependsOn
  cases hl : jsData.lookup name with
  | none => simp
  | some jsonItem =>
    have hobject : ∀ d ∈ jsonItem.inputs, d.object = some obj ↔ ∃ var, Target d obj var := by
      intro d hd
      obtain ⟨s, obj', var', hv, hs⟩ := h.values name jsonItem hl d hd
      have htarget : Target d obj' var' := ⟨.str s, hv, hs⟩
      simp only [Dependence.object, hv, hs, Option.some.injEq]
      constructor
      · rintro rfl
        exact ⟨var', htarget⟩
      · rintro ⟨var, ht⟩
        exact (htarget.unique ht).1
    simp only [List.mem_filterMap, List.mem_filter, Option.some.injEq, exists_eq_left']
    constructor
    · rintro ⟨d, ⟨hd, himp⟩, hobj⟩
      obtain ⟨var, ht⟩ := (hobject d hd).mp hobj
      exact ⟨var, (h.loadable.names_iff hl).mpr ⟨d, hd, himp, ht⟩⟩
    · rintro ⟨var, hn⟩
      obtain ⟨d, hd, himp, ht⟩ := (h.loadable.names_iff hl).mp hn
      exact ⟨d, ⟨hd, himp⟩, (hobject d hd).mpr ⟨var, ht⟩⟩

/-- The laps number the file. -/
theorem InFileOrder.numbered (h : InFileOrder loader jsData) :
    Numbered (importantObjects jsData) jsData.keys (createdInLap jsData) := by
  refine RoundRobin.numbered_lap jsData.keys_nodup fun earlier name later hkeys obj hobj => ?_
  obtain ⟨jsonItem, hl, var, hn⟩ := h.mem_importantObjects_iff.mp hobj
  obtain ⟨d, hd, -, ht⟩ := (h.loadable.names_iff hl).mp hn
  exact h.listed earlier name later hkeys jsonItem hl d hd obj var ht

/-- An item is ready exactly where no component that its important inputs
name is in the list. -/
theorem InFileOrder.ready_iff (h : InFileOrder loader jsData) {s : LoopState T}
    (hs : WellPlaced jsData s) {name : String} {jsonItem : Item}
    (hl : jsData.lookup name = some jsonItem) {ready : Bool}
    (hc : checkDependences jsonItem s.globals.createdComponentsOutputs = .ok ready) :
    ready = true ↔ ∀ obj ∈ importantObjects jsData name, obj ∉ s.jsonItems := by
  constructor
  · rintro rfl obj hobj
    obtain ⟨item, hitem, var, hn⟩ := h.mem_importantObjects_iff.mp hobj
    obtain rfl : item = jsonItem := Option.some.inj (hitem.symm.trans hl)
    obtain ⟨outputs, ho, -⟩ := checkDependences_true hc hn
    exact ((hs.mem obj).mp (AList.lookup_isSome.mp (by simp [ho]))).2
  · intro hready
    cases ready with
    | true => rfl
    | false =>
      obtain ⟨obj, var, hn, hnone⟩ := checkDependences_false hc
      have hdep : DependsOn jsData name obj := ⟨jsonItem, hl, var, hn⟩
      have hcreated : obj ∈ s.globals.createdComponentsOutputs := by
        refine (hs.mem obj).mpr ⟨?_, hready obj (h.mem_importantObjects_iff.mpr hdep)⟩
        obtain ⟨d, hd, -, ht⟩ := (h.loadable.names_iff hl).mp hn
        exact (h.idxOf_lt hl hd ht).1
      simp [← AList.lookup_isSome, hnone] at hcreated

/-- **Every state of a run stands in a lap.** -/
theorem InFileOrder.exists_inLap (h : InFileOrder loader jsData) {s : LoopState T}
    (hs : Iterates loader jsData (start jsData) s) :
    ∃ k behind ahead, InLap (createdInLap jsData) jsData.keys k behind ahead s.toScan := by
  induction hs with
  | refl => exact ⟨0, [], jsData.keys, RoundRobin.inLap_start _⟩
  | @tail t t' ht hstep ih =>
    obtain ⟨k, behind, ahead, hlap⟩ := ih
    have hplaced := Iterates.wellPlaced ht
    refine hlap.turn h.numbered (iteration_ok_iff.mp hstep.2) (fun name hx hv => ?_)
      fun name g hx hv => ?_
    all_goals
      obtain ⟨jsonItem, hj, hv⟩ := bind_eq_ok.mp hv
      obtain ⟨ready, hc, hv⟩ := bind_eq_ok.mp hv
      have hready := h.ready_iff hplaced (getKey_eq_ok.mp hj) hc
      cases ready
    · by_contra hnone
      push Not at hnone
      cases hready.mpr hnone
    · obtain ⟨g, -, hg⟩ := bind_eq_ok.mp hv
      cases hg
    · cases hv
    · exact hready.mp rfl

/-- At a ready item, that is in the list of what its inputs name which has a
later lap. -/
theorem InFileOrder.mem_jsonItems_iff (h : InFileOrder loader jsData) {s : LoopState T}
    (hs : Iterates loader jsData (start jsData) s) {name : String} {jsonItem : Item}
    (hx : s.jsonItems[s.i]? = some name) (hl : jsData.lookup name = some jsonItem)
    (hc : checkDependences jsonItem s.globals.createdComponentsOutputs = .ok true)
    {d : Dependence} (hd : d ∈ jsonItem.inputs) {obj var : String} (ht : Target d obj var) :
    obj ∈ s.jsonItems ↔ createdInLap jsData name < createdInLap jsData obj := by
  obtain ⟨k, behind, ahead, hlap⟩ := h.exists_inLap hs
  have hk := (hlap.ready_iff h.numbered hx).mp
    ((h.ready_iff (Iterates.wellPlaced hs) hl hc).mp rfl)
  obtain ⟨before, after, hahead, hbefore, -⟩ := hlap.exists_split hx
  have hkeys : jsData.keys = (behind ++ before) ++ name :: after := by
    rw [hlap.keys, hahead, List.append_assoc]
  rw [hk]
  exact hlap.mem_todo_iff h.numbered hahead hbefore
    (h.listed _ _ _ hkeys jsonItem hl d hd obj var ht)

/-- A component of a smaller lap than one its inputs name is visited early. -/
theorem InFileOrder.exists_visitedEarly (h : InFileOrder loader jsData)
    (horder : ¬ InLapOrder jsData) :
    ∃ s, Iterates loader jsData (start jsData) s ∧ VisitedEarly jsData s := by
  unfold InLapOrder at horder
  push Not at horder
  obtain ⟨name, jsonItem, hl, d, hd, obj, var, ht, hlt⟩ := horder
  obtain ⟨fuel, t, -, hrun, hnil, -⟩ := h.loadable.finishes
  have hmem : name ∈ (start jsData : LoopState T).jsonItems :=
    AList.mem_keys.mp (AList.lookup_isSome.mp (by simp [hl]))
  obtain ⟨s, s', hs, hstep, hin, hout⟩ := hrun.exists_removed hmem (by simp [hnil])
  obtain ⟨name', jsonItem', hx, hl', ⟨-, hsame, -⟩ | ⟨hc, -, herase⟩⟩ := iteration_cases_at hstep
  · exact absurd (hsame ▸ hin) hout
  · obtain rfl : name = name' := by
      by_contra hne
      exact hout (herase ▸ (List.mem_erase_of_ne hne).mpr hin)
    obtain rfl : jsonItem' = jsonItem := Option.some.inj (hl'.symm.trans hl)
    exact ⟨s, hs, name, jsonItem', hx, hl, hc, d, hd, obj, var, ht,
      (h.mem_jsonItems_iff hs hx hl hc hd ht).mpr hlt⟩

/-- **A run never visits early** if and only if no input names a component of a
later lap. -/
theorem InFileOrder.never_early_iff (h : InFileOrder loader jsData) :
    (∀ s, Iterates loader jsData (start jsData) s → ¬ VisitedEarly jsData s) ↔
      InLapOrder jsData := by
  constructor
  · intro hnever
    by_contra horder
    obtain ⟨s, hs, hearly⟩ := h.exists_visitedEarly horder
    exact hnever s hs hearly
  · rintro horder s hs ⟨name, jsonItem, hx, hl, hc, d, hd, obj, var, ht, hobj⟩
    have hlt := (h.mem_jsonItems_iff hs hx hl hc hd ht).mp hobj
    have hle := horder name jsonItem hl d hd obj var ht
    omega

/-- Where every component an input names is needed through important inputs
as well, the file is in the order of its laps. -/
theorem InFileOrder.inLapOrder (h : InFileOrder loader jsData)
    (hneeded : ∀ name jsonItem, jsData.lookup name = some jsonItem → ∀ d ∈ jsonItem.inputs,
      ∀ obj var, Target d obj var → Relation.TransGen (DependsOn jsData) name obj) :
    InLapOrder jsData := by
  have hle : ∀ a b, DependsOn jsData a b → createdInLap jsData b ≤ createdInLap jsData a := by
    intro a b hdep
    obtain ⟨jsonItem, hl, -⟩ := id hdep
    obtain ⟨earlier, later, hkeys⟩ := List.append_of_mem
      (AList.mem_keys.mp (AList.lookup_isSome.mp (show (jsData.lookup a).isSome by simp [hl])))
    exact h.numbered.needs_le earlier a later hkeys b (h.mem_importantObjects_iff.mpr hdep)
  have hchain : ∀ a b, Relation.TransGen (DependsOn jsData) a b →
      createdInLap jsData b ≤ createdInLap jsData a := by
    intro a b hab
    induction hab with
    | single hdep => exact hle _ _ hdep
    | tail _ hdep ih => exact (hle _ _ hdep).trans ih
  exact fun name jsonItem hl d hd obj var ht =>
    hchain name obj (hneeded name jsonItem hl d hd obj var ht)

/-- **When a file in dependency order has every input bound.** The loop ends
normally on such a file, and every input of every component is bound exactly
where no input names a component of a later lap than that of its own. A file
whose optional inputs name only components that are needed through important
ones is one of these. -/
theorem createComponents_bindsAll_iff (h : InFileOrder loader jsData) :
    ∃ fuel g, createComponents loader jsData fuel = some (.ok g) ∧
      (InputsBound jsData g.trace ↔ InLapOrder jsData) ∧
      ((∀ name jsonItem, jsData.lookup name = some jsonItem → ∀ d ∈ jsonItem.inputs,
        ∀ obj var, Target d obj var → Relation.TransGen (DependsOn jsData) name obj) →
          InLapOrder jsData) := by
  obtain ⟨fuel, t, hr, ht, hnil, -⟩ := h.loadable.finishes
  refine ⟨fuel, t.globals, hr, ?_, h.inLapOrder⟩
  rw [← h.never_early_iff]
  exact ⟨fun hbound s hs hearly => h.not_inputsBound hs hearly ht hnil hbound,
    fun hlate => (h.inputsBound ht hlate).2⟩

end

/-! ## A variable built before its initial value -/

attribute [local instance] latin1

/-- The class `Variable`: its tensor is `x` where that is bound, and made of
the parameter `initial_value` where it is not. -/
def variableModule : ModuleInfo String where
  className := "Variable"
  version := "5ad3a1b2"
  construct name := {
    name := name
    inputs := AList.singleton "x" (declared "A Tensor" false)
    outputs := AList.singleton "result" (declared "A Tensor" true)
    params := AList.singleton "initial_value" ⟨"", none, true⟩
    properties := ((AList.singleton ComponentProperties.timestamp .null).insert
      ComponentProperties.type .null).insert ComponentProperties.version .null
    propertyKeys := keys_properties_new }
  init b := .ok (AList.singleton "result" ((b.inputValue "x").getD "initial_value"))

/-- An item of class `Variable`, its inputs marked as optional. -/
def variableItem (inputs : List (String × String)) : Item where
  className := some (.str "Variable")
  version := some (.str "5ad3a1b2")
  componentType := some (.str "model")
  timestamp := none
  inputs := inputs.map fun e => ⟨some (.str e.1), some (.str e.2), some (.bool false)⟩
  params := []

/-- `bias`, `weights` and a `copy` of the weights. -/
def copyFile : Dict Item :=
  ((AList.singleton "copy" (variableItem [("x", "weights.result")])).insert "weights"
    (variableItem [])).insert "bias" (variableItem [])

theorem copyFile_lookup {name : String} {jsonItem : Item}
    (h : copyFile.lookup name = some jsonItem) :
    (name = "copy" ∧ jsonItem = variableItem [("x", "weights.result")]) ∨
      jsonItem = variableItem [] := by
  unfold copyFile at h
  by_cases hbias : name = "bias"
  · subst hbias
    rw [AList.lookup_insert, Option.some.injEq] at h
    exact .inr h.symm
  · rw [AList.lookup_insert_ne hbias] at h
    by_cases hweights : name = "weights"
    · subst hweights
      rw [AList.lookup_insert, Option.some.injEq] at h
      exact .inr h.symm
    · rw [AList.lookup_insert_ne hweights] at h
      have hmem : name ∈ (AList.singleton "copy" (variableItem [("x", "weights.result")]) :
          Dict Item) := AList.lookup_isSome.mp (by rw [h]; rfl)
      obtain rfl : name = "copy" := by simpa [AList.mem_keys] using hmem
      cases h
      exact .inl ⟨rfl, rfl⟩

theorem copyFile_inputs {name : String} {jsonItem : Item} {d : Dependence}
    (h : copyFile.lookup name = some jsonItem) (hd : d ∈ jsonItem.inputs) :
    name = "copy" ∧ d = ⟨some (.str "x"), some (.str "weights.result"), some (.bool false)⟩ := by
  rcases copyFile_lookup h with ⟨rfl, rfl⟩ | rfl
  · exact ⟨rfl, by simpa [variableItem] using hd⟩
  · simp [variableItem] at hd

theorem resolved_copyFile {name : String} {jsonItem : Item} {newObj : Component String}
    (h : copyFile.lookup name = some jsonItem) :
    Resolved [variableModule] name jsonItem newObj ↔
      newObj = ⟨variableModule, variableModule.construct name⟩ := by
  have hitem : ∃ inputs, jsonItem = variableItem inputs := by
    rcases copyFile_lookup h with ⟨-, rfl⟩ | rfl
    · exact ⟨_, rfl⟩
    · exact ⟨_, rfl⟩
  obtain ⟨inputs, rfl⟩ := hitem
  constructor
  · rintro ⟨className, version, hc, hv, hn⟩
    cases hc
    cases hv
    exact (Option.some.inj hn).symm
  · rintro rfl
    exact ⟨_, _, rfl, rfl, rfl⟩

theorem target_weights {obj var : String}
    (h : Target ⟨some (.str "x"), some (.str "weights.result"), some (.bool false)⟩ obj var) :
    obj = "weights" ∧ var = "result" :=
  h.unique ⟨_, rfl, by decide⟩

/-- The file is in dependency order. -/
theorem copyFile_inFileOrder : InFileOrder [variableModule] copyFile where
  values name jsonItem hl d hd := by
    obtain ⟨-, rfl⟩ := copyFile_inputs hl hd
    exact ⟨"weights.result", "weights", "result", rfl, by decide⟩
  resolves name jsonItem hl := ⟨_, (resolved_copyFile hl).mpr rfl⟩
  declared name jsonItem newObj hl hres d hd := by
    obtain rfl := (resolved_copyFile hl).mp hres
    obtain ⟨-, rfl⟩ := copyFile_inputs hl hd
    exact ⟨"x", rfl, by simp [variableModule, AList.mem_keys]⟩
  init_returns name jsonItem obj hl hprep := by
    obtain ⟨newObj, created, base, hres, -, -, rfl⟩ := hprep
    obtain rfl := (resolved_copyFile hl).mp hres
    exact ⟨_, rfl⟩
  outputs name jsonItem hl d hd obj var ht jsonItem' hl' outs hret := by
    obtain ⟨-, rfl⟩ := copyFile_inputs hl hd
    obtain ⟨rfl, rfl⟩ := target_weights ht
    obtain ⟨obj, ⟨newObj, created, base, hres, -, -, rfl⟩, hinit⟩ := hret
    obtain rfl := (resolved_copyFile hl').mp hres
    obtain rfl := Except.ok.inj hinit
    simp [AList.mem_keys]
  listed earlier name later hkeys jsonItem hl d hd obj var ht := by
    obtain ⟨rfl, rfl⟩ := copyFile_inputs hl hd
    obtain ⟨rfl, -⟩ := target_weights ht
    have hlist : (["bias", "weights", "copy"] : List String) = earlier ++ "copy" :: later := hkeys
    rcases earlier with _ | ⟨a, _ | ⟨b, rest⟩⟩
    · simp at hlist
    · simp at hlist
    · obtain ⟨-, rfl, -⟩ : "bias" = a ∧ "weights" = b ∧ _ := by simpa using hlist
      simp

/-- `copy` is created in the lap of `bias`, and `weights` in the next one. -/
theorem copyFile_not_inLapOrder : ¬ InLapOrder copyFile := by
  intro horder
  have hle := horder "copy" (variableItem [("x", "weights.result")]) rfl _
    (List.mem_singleton_self _) "weights" "result" ⟨_, rfl, by decide⟩
  have hlaps : createdInLap copyFile "copy" = 0 ∧ createdInLap copyFile "weights" = 1 := by decide
  omega

/-- Without `bias` the laps are in order. -/
example : ["weights", "copy"].map (createdInLap
    ((AList.singleton "copy" (variableItem [("x", "weights.result")])).insert "weights"
      (variableItem []))) = [0, 1] := by decide

/-- That file is loaded, and not all of its inputs are bound. -/
theorem copyFile_bindsAll :
    ∃ fuel g, createComponents [variableModule] copyFile fuel = some (.ok g) ∧
      ¬ InputsBound copyFile g.trace := by
  obtain ⟨fuel, g, hr, hiff, -⟩ := createComponents_bindsAll_iff copyFile_inFileOrder
  exact ⟨fuel, g, hr, fun hbound => copyFile_not_inLapOrder (hiff.mp hbound)⟩

/-- **The copy is created before the weights it should copy.** After `bias`
the loop passes `weights` over, and `copy` is built from its parameter. -/
theorem copyFile_unbound :
    ¬ ∀ (loader : ComponentLoader String) (jsData : Dict Item), InFileOrder loader jsData →
      ∀ fuel g, createComponents loader jsData fuel = some (.ok g) →
        InputsBound jsData g.trace := by
  intro h
  obtain ⟨fuel, t, hr, ht, hnil, -⟩ := copyFile_inFileOrder.loadable.finishes
  obtain ⟨s, hs, hearly⟩ := copyFile_inFileOrder.exists_visitedEarly copyFile_not_inLapOrder
  exact copyFile_inFileOrder.not_inputsBound hs hearly ht hnil
    (h _ _ copyFile_inFileOrder fuel _ hr)

end Loader

end VerAI
