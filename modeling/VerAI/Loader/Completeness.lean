import VerAI.Lib.Splits
import VerAI.Loader.Termination
import Mathlib.Order.WellFounded
import Mathlib.Data.Fintype.Card
import Mathlib.Data.Fintype.EquivFin
/-!
# Loader completeness

`Loadable` is what a good model file and its classes offer: every value
reads `obj.var`, every name is declared, classes resolve and `init()`
returns, what an important input names exists, what an optional one names
is not missing from a component that does, and important inputs have no
cycle. Such a file has no waiting set, so the loop ends, and no iteration of
it raises, so it ends with every component created once.

The creation order is the trace. Each entry of it carries the object that
was initialised, and `TopologicalOrder` says of it that every important
input was bound to what an earlier entry recorded.
-/

namespace VerAI

namespace Loader

open Splits (forall_split_concat)

section

variable [Unicode] {T : Type} {loader : ComponentLoader T} {jsData : Dict Item}

/-- The loader finds the item's class and makes the object. -/
def Resolved (loader : ComponentLoader T) (name : String) (jsonItem : Item)
    (newObj : Component T) : Prop :=
  ∃ className version, jsonItem.className = some className ∧ jsonItem.version = some version ∧
    loader.getComponentInstance className version name = some newObj

/-- An object the loader may hand to `init()`: made and bound over some
recorded outputs that make the item ready. -/
def Prepared (loader : ComponentLoader T) (name : String) (jsonItem : Item)
    (obj : Component T) : Prop :=
  ∃ newObj created base, Resolved loader name jsonItem newObj ∧
    checkDependences jsonItem created = .ok true ∧
    setInputs newObj.base jsonItem created = .ok base ∧
    obj = ⟨newObj.cls, setProperties (setParams base jsonItem) jsonItem⟩

/-- `init()` of the component may return these outputs. -/
def MayReturn (loader : ComponentLoader T) (name : String) (jsonItem : Item)
    (outputs : Dict T) : Prop :=
  ∃ obj, Prepared loader name jsonItem obj ∧ obj.cls.init obj.base = .ok outputs

/-- The first component has an important input that names the second. -/
def DependsOn (jsData : Dict Item) (name obj : String) : Prop :=
  ∃ jsonItem, jsData.lookup name = some jsonItem ∧ ∃ var, Names jsonItem obj var

/-- **A model file that can be loaded.** -/
structure Loadable (loader : ComponentLoader T) (jsData : Dict Item) : Prop where
  /-- Every input value is a string with exactly one dot. -/
  values : ∀ name jsonItem, jsData.lookup name = some jsonItem → ∀ d ∈ jsonItem.inputs,
    ∃ s obj var, d.value = some (.str s) ∧ splitDot s = [obj, var]
  /-- Every class and version resolves. -/
  resolves : ∀ name jsonItem, jsData.lookup name = some jsonItem →
    ∃ newObj, Resolved loader name jsonItem newObj
  /-- Every input name is declared by its component. -/
  declared : ∀ name jsonItem newObj, jsData.lookup name = some jsonItem →
    Resolved loader name jsonItem newObj → ∀ d ∈ jsonItem.inputs,
    ∃ key, d.name = some (.str key) ∧ key ∈ newObj.base.inputs
  /-- Every `init()` returns normally. -/
  init_returns : ∀ name jsonItem obj, jsData.lookup name = some jsonItem →
    Prepared loader name jsonItem obj → ∃ outputs, obj.cls.init obj.base = .ok outputs
  /-- Every important input names a component of the model. -/
  defined : ∀ name jsonItem, jsData.lookup name = some jsonItem → ∀ d ∈ jsonItem.inputs,
    d.isImportant = true → ∀ obj var, Target d obj var → obj ∈ jsData
  /-- An output that an input, important or not, names of a component of the
  model is one that component's `init()` returns. -/
  outputs : ∀ name jsonItem, jsData.lookup name = some jsonItem → ∀ d ∈ jsonItem.inputs,
    ∀ obj var, Target d obj var → ∀ jsonItem', jsData.lookup obj = some jsonItem' →
    ∀ outs, MayReturn loader obj jsonItem' outs → var ∈ outs
  /-- The important inputs have no cycle. -/
  acyclic : ∀ name, ¬ Relation.TransGen (DependsOn jsData) name name

/-- The input an entry is about holds an output that one of `earlier`
recorded: the one the entry names, unless another entry of the item is about
the same input. -/
def Bound (jsonItem : Item) (earlier : List (Creation T)) (d : Dependence) (b : Base T) : Prop :=
  ∃ key, d.name = some (.str key) ∧ ∃ d' ∈ jsonItem.inputs, d'.name = d.name ∧
    ∃ obj var, Target d' obj var ∧ ∃ c ∈ earlier, c.name = obj ∧ ∃ tensor,
      c.outputs.lookup var = some tensor ∧ b.inputValue key = some tensor ∧
      ((jsonItem.inputs.map Dependence.name).Nodup → d' = d)

/-- Every important input of a creation names an output that one of
`earlier` recorded, and is bound. -/
def InputsReady (jsData : Dict Item) (earlier : List (Creation T)) (c : Creation T) : Prop :=
  ∃ jsonItem, jsData.lookup c.name = some jsonItem ∧ ∀ d ∈ jsonItem.inputs,
    d.isImportant = true → ∀ obj var, Target d obj var →
      (∃ c' ∈ earlier, c'.name = obj ∧ var ∈ c'.outputs) ∧ Bound jsonItem earlier d c.base

/-- **The creations are in topological order**: each finds its important
inputs among the ones before it. -/
def TopologicalOrder (jsData : Dict Item) (trace : List (Creation T)) : Prop :=
  ∀ earlier c later, trace = earlier ++ c :: later → InputsReady jsData earlier c

theorem topologicalOrder_concat {trace : List (Creation T)} {c : Creation T}
    (h : TopologicalOrder jsData trace) (hc : InputsReady jsData trace c) :
    TopologicalOrder jsData (trace ++ [c]) :=
  forall_split_concat (P := InputsReady jsData) h hc

/-! ## A loadable file has no waiting set -/

/-- A string value is its own target, and its own list of dependences. -/
theorem depList_str {d : Dependence} {s obj var : String} (hv : d.value = some (.str s))
    (hs : splitDot s = [obj, var]) : depList d = .ok [(obj, var)] := by
  simp [depList, hv, Json.isCollection, unpackDot_eq_ok.mpr hs, pure, Except.pure]

theorem Loadable.target (h : Loadable loader jsData) {name : String} {jsonItem : Item}
    (hl : jsData.lookup name = some jsonItem) {d : Dependence} (hd : d ∈ jsonItem.inputs) :
    ∃ obj var, Target d obj var ∧ depList d = .ok [(obj, var)] := by
  obtain ⟨s, obj, var, hv, hs⟩ := h.values name jsonItem hl d hd
  exact ⟨obj, var, ⟨.str s, hv, hs⟩, depList_str hv hs⟩

theorem Loadable.names_iff (h : Loadable loader jsData) {name : String} {jsonItem : Item}
    (hl : jsData.lookup name = some jsonItem) {obj var : String} :
    Names jsonItem obj var ↔ ∃ d ∈ jsonItem.inputs, d.isImportant = true ∧ Target d obj var := by
  constructor
  · rintro ⟨d, hd, himp, deps, hdeps, hmem⟩
    obtain ⟨obj', var', ht, hlist⟩ := h.target hl hd
    rw [hlist, Except.ok.injEq] at hdeps
    subst hdeps
    rw [List.mem_singleton, Prod.mk.injEq] at hmem
    obtain ⟨rfl, rfl⟩ := hmem
    exact ⟨d, hd, himp, ht⟩
  · rintro ⟨d, hd, himp, ht⟩
    obtain ⟨obj', var', ht', hlist⟩ := h.target hl hd
    obtain ⟨rfl, rfl⟩ := ht.unique ht'
    exact ⟨d, hd, himp, _, hlist, List.mem_singleton_self _⟩

/-- **Acyclic and closed leaves nothing waiting**: a component of a waiting
set that is minimal in the dependence order would need one below it. -/
theorem Loadable.no_waitingSet (h : Loadable loader jsData) (K : Set String) :
    ¬ WaitingSet jsData K := by
  intro hK
  let r : {name // name ∈ jsData.keys} → {name // name ∈ jsData.keys} → Prop :=
    fun a b => Relation.TransGen (DependsOn jsData) b.1 a.1
  have hwf : WellFounded r := by
    have : IsTrans _ r := ⟨fun a b c hab hbc => hbc.trans hab⟩
    have : Std.Irrefl r := ⟨fun a ha => h.acyclic a.1 ha⟩
    exact Finite.wellFounded_of_trans_of_irrefl r
  have hkey : ∀ name ∈ K, name ∈ jsData.keys := by
    intro name hname
    obtain ⟨jsonItem, hl, -⟩ := hK.waits name hname
    exact AList.mem_keys.mp (AList.lookup_isSome.mp (by simp [hl]))
  -- a member that depends on no other one waits for nothing
  obtain ⟨name₀, hname₀⟩ := hK.nonempty
  obtain ⟨⟨name, hin⟩, hname, hmin⟩ :=
    hwf.has_min {a | a.1 ∈ K} ⟨⟨name₀, hkey name₀ hname₀⟩, hname₀⟩
  obtain ⟨jsonItem, hl, obj, var, hn, hobj⟩ := hK.waits name hname
  obtain ⟨d, hd, himp, ht⟩ := (h.names_iff hl).mp hn
  have hobjK : obj ∈ K :=
    hobj.resolve_left fun hout => hout (h.defined name jsonItem hl d hd himp obj var ht)
  exact hmin ⟨obj, hkey obj hobjK⟩ hobjK (.single ⟨jsonItem, hl, var, hn⟩)

/-! ## The invariant of the loop -/

/-- What holds at the head of every iteration over a loadable file. -/
structure LoadInv (loader : ComponentLoader T) (jsData : Dict Item) (s : LoopState T) : Prop where
  placed : WellPlaced jsData s
  /-- What is recorded was returned by that component's `init()`. -/
  returned : ∀ obj outs, s.globals.createdComponentsOutputs.lookup obj = some outs →
    ∃ jsonItem, jsData.lookup obj = some jsonItem ∧ MayReturn loader obj jsonItem outs
  /-- And by a creation of the trace. -/
  traced : ∀ obj outs, s.globals.createdComponentsOutputs.lookup obj = some outs →
    ∃ c ∈ s.globals.trace, c.name = obj ∧ c.outputs = outs
  ordered : TopologicalOrder jsData s.globals.trace

theorem loadInv_start : LoadInv loader jsData (start jsData : LoopState T) where
  placed := wellPlaced_start
  returned obj outs h := by cases h
  traced obj outs h := by cases h
  ordered earlier c later h := by simp [start, Globals.empty] at h

/-- Over a loadable file a component that is created has every output an
input names of it. -/
theorem LoadInv.recorded (h : Loadable loader jsData) {s : LoopState T}
    (hs : LoadInv loader jsData s) {name : String} {jsonItem : Item}
    (hl : jsData.lookup name = some jsonItem) {d : Dependence} (hd : d ∈ jsonItem.inputs)
    {obj var : String} (ht : Target d obj var)
    (hobj : obj ∈ s.globals.createdComponentsOutputs) :
    Recorded s.globals.createdComponentsOutputs obj var := by
  obtain ⟨outs, ho⟩ := Option.isSome_iff_exists.mp (AList.lookup_isSome.mpr hobj)
  obtain ⟨jsonItem', hl', hret⟩ := hs.returned obj outs ho
  exact ⟨outs, ho, h.outputs name jsonItem hl d hd obj var ht jsonItem' hl' outs hret⟩

/-- An input that names a recorded output is bound when its item is created,
to what a component of the trace recorded. -/
theorem LoadInv.bound {s : LoopState T} (hs : LoadInv loader jsData s) {jsonItem : Item}
    {b base : Base T}
    (hb : setInputs b jsonItem s.globals.createdComponentsOutputs = .ok base) {d : Dependence}
    (hd : d ∈ jsonItem.inputs) {obj var : String} (ht : Target d obj var)
    (hrec : Recorded s.globals.createdComponentsOutputs obj var) :
    (∃ c ∈ s.globals.trace, c.name = obj ∧ var ∈ c.outputs) ∧
      Bound jsonItem s.globals.trace d (setProperties (setParams base jsonItem) jsonItem) := by
  obtain ⟨outs', ho, hvar⟩ := hrec
  refine ⟨?_, ?_⟩
  · obtain ⟨c', hc', hname, houts⟩ := hs.traced obj outs' ho
    exact ⟨c', hc', hname, houts ▸ hvar⟩
  · obtain ⟨tensor, htensor⟩ := Option.isSome_iff_exists.mp (AList.lookup_isSome.mpr hvar)
    obtain ⟨key, hkey, d', hd', hname, t', ⟨obj', var', ht', outs₁, ho₁, hvar₁⟩, hval, huniq⟩ :=
      bindInputs_bound hb hd ⟨obj, var, ht, outs', ho, htensor⟩
    obtain ⟨c', hc', hcname, rfl⟩ := hs.traced obj' outs₁ ho₁
    refine ⟨key, hkey, d', hd', hname, obj', var', ht', c', hc', hcname, t', hvar₁, ?_, huniq⟩
    rw [← hval, Base.inputValue, Base.inputValue, setProperties_setParams_inputs]

/-- **A creation keeps the topological order**: what made the item ready is
on the trace, and binding took it from there. -/
theorem LoadInv.inputsReady {s : LoopState T} (hs : LoadInv loader jsData s) {name : String}
    {jsonItem : Item} (hl : jsData.lookup name = some jsonItem) (h : Loadable loader jsData)
    (hc : checkDependences jsonItem s.globals.createdComponentsOutputs = .ok true)
    {b base : Base T}
    (hb : setInputs b jsonItem s.globals.createdComponentsOutputs = .ok base) {outs : Dict T} :
    InputsReady jsData s.globals.trace ⟨name, s.globals.createdComponentsOutputs,
      setProperties (setParams base jsonItem) jsonItem, outs⟩ :=
  ⟨jsonItem, hl, fun _ hd himp _ _ ht => hs.bound hb hd ht
    (checkDependences_true hc ((h.names_iff hl).mpr ⟨_, hd, himp, ht⟩))⟩

/-- **One iteration keeps the invariant.** -/
theorem LoadInv.iteration (h : Loadable loader jsData) {s s' : LoopState T}
    (hs : LoadInv loader jsData s) (ht : Loader.iteration loader jsData s = .ok s') :
    LoadInv loader jsData s' := by
  obtain ⟨name, jsonItem, hmem, hl, ⟨-, hj, hg⟩ | ⟨hc, hcreate, hj⟩⟩ := iteration_cases ht
  · exact ⟨hs.placed.iteration ht, hg ▸ hs.returned, hg ▸ hs.traced, hg ▸ hs.ordered⟩
  · -- the item was created: its outputs are the ones just recorded
    obtain ⟨r, ⟨hcls, hver, hnew, hb, hinit, -⟩, hg⟩ := createComponent_eq_ok_iff.mp hcreate
    have hret : MayReturn loader name jsonItem r.outputs :=
      ⟨_, ⟨r.newObj, _, r.base, ⟨r.className, r.version, hcls, hver, hnew⟩, hc, hb, rfl⟩, hinit⟩
    refine ⟨hs.placed.iteration ht, fun obj outs ho => ?_, fun obj outs ho => ?_, ?_⟩
    · rw [hg] at ho
      by_cases hobj : obj = name
      · subst hobj
        simp only [record, AList.lookup_insert, Option.some.injEq] at ho
        exact ⟨jsonItem, hl, ho ▸ hret⟩
      · simp only [record, AList.lookup_insert_ne hobj] at ho
        exact hs.returned obj outs ho
    · rw [hg] at ho ⊢
      by_cases hobj : obj = name
      · subst hobj
        simp only [record, AList.lookup_insert, Option.some.injEq] at ho
        exact ⟨_, List.mem_append_right _ (List.mem_singleton_self _), rfl, ho⟩
      · simp only [record, AList.lookup_insert_ne hobj] at ho
        obtain ⟨c, hc', hcname⟩ := hs.traced obj outs ho
        exact ⟨c, List.mem_append_left _ hc', hcname⟩
    · rw [hg]
      exact topologicalOrder_concat hs.ordered (hs.inputsReady hl h hc hb)

/-- **No iteration over a loadable file raises.** -/
theorem LoadInv.iteration_returns (h : Loadable loader jsData) {s : LoopState T}
    (hs : LoadInv loader jsData s) (hi : s.i < s.jsonItems.length) :
    ∃ s', Loader.iteration loader jsData s = .ok s' := by
  have hx : s.jsonItems[s.i]? = some s.jsonItems[s.i] := List.getElem?_eq_getElem hi
  have hmem : s.jsonItems[s.i] ∈ s.jsonItems := List.getElem_mem hi
  generalize s.jsonItems[s.i] = name at hx hmem
  obtain ⟨jsonItem, hl⟩ :=
    Option.isSome_iff_exists.mp (AList.lookup_isSome.mpr (hs.placed.sub name hmem))
  obtain ⟨ready, hready⟩ := checkDependences_returns
    (fun d hd _ => by obtain ⟨obj, var, -, hdeps⟩ := h.target hl hd; exact ⟨_, hdeps⟩)
    fun obj var hn hobj => by
      obtain ⟨d, hd, -, ht⟩ := (h.names_iff hl).mp hn
      exact hs.recorded h hl hd ht hobj
  -- a postponed item raises nothing, a ready one is created
  cases ready with
  | false => exact ⟨_, by simp only [Loader.iteration, hx, hl, getKey_some, ok_bind, hready]; rfl⟩
  | true =>
    obtain ⟨newObj, hres⟩ := h.resolves name jsonItem hl
    obtain ⟨base, hb⟩ : ∃ base,
        setInputs newObj.base jsonItem s.globals.createdComponentsOutputs = .ok base := by
      refine bindInputs_returns (fun d hd => ?_) (h.declared name jsonItem newObj hl hres)
      obtain ⟨obj, var, ht, -⟩ := h.target hl hd
      exact ⟨obj, var, ht, hs.recorded h hl hd ht⟩
    obtain ⟨results, hinit⟩ : ∃ results,
        newObj.cls.init (setProperties (setParams base jsonItem) jsonItem) = .ok results :=
      h.init_returns name jsonItem _ hl ⟨newObj, _, base, hres, hready, hb, rfl⟩
    obtain ⟨type, htype⟩ := (setProperties (setParams base jsonItem) jsonItem).getProperty_type
    obtain ⟨className, version, hcls, hver, hnew⟩ := hres
    have hcreate : createComponent loader name jsonItem s.globals =
        .ok (record s.globals name jsonItem className
          ⟨newObj.cls, setProperties (setParams base jsonItem) jsonItem⟩ results type) := by
      simp only [createComponent, hcls, hver, getKey_some, ok_bind, hnew, hb, hinit, htype]
      rfl
    exact ⟨_, by
      simp only [Loader.iteration, hx, hl, getKey_some, ok_bind, hready, if_true, hcreate]; rfl⟩

/-- The loop ends over a loadable file, with nothing left to create. -/
theorem Loadable.finishes (h : Loadable loader jsData) :
    ∃ fuel s, createComponents loader jsData fuel = some (.ok s.globals) ∧
      Iterates loader jsData (start jsData) s ∧ s.jsonItems = [] ∧ LoadInv loader jsData s := by
  have hret : Returns loader jsData := by
    refine returns_of_not_allPostponed fun s hs hp => ?_
    exact h.no_waitingSet _ (waitingSet_of_allPostponed hs hp)
  obtain ⟨fuel, hfuel⟩ := hret
  obtain ⟨r, hr⟩ := Option.ne_none_iff_exists'.mp hfuel
  obtain ⟨s, hs, hend⟩ := loop_eq_some_iff.mp ⟨fuel, hr⟩
  have hinv : LoadInv loader jsData s :=
    hs.invariant loadInv_start fun _ _ hinv ht => hinv.iteration h ht
  rcases hend with ⟨hnil, rfl⟩ | ⟨hne, e, he, -⟩
  · exact ⟨fuel, s, hr, hs, hnil, hinv⟩
  · obtain ⟨s', hs'⟩ := hinv.iteration_returns h (index_lt_of_iterates hs hne)
    rw [he] at hs'
    cases hs'

/-- **Loader completeness.** On a loadable file `create_components` ends
normally, every component of the file has been created exactly once, in
topological order of the important inputs, and `json_items[i]` was in range
at every iteration. -/
theorem createComponents_complete (h : Loadable loader jsData) :
    (∃ fuel g, createComponents loader jsData fuel = some (.ok g) ∧
      (g.trace.map Creation.name).Perm jsData.keys ∧ TopologicalOrder jsData g.trace) ∧
    ∀ s, Iterates loader jsData (start jsData) s → s.jsonItems ≠ [] →
      s.i < s.jsonItems.length := by
  refine ⟨?_, fun s hs hne => index_lt_of_iterates hs hne⟩
  obtain ⟨fuel, s, hr, -, hnil, hinv⟩ := h.finishes
  refine ⟨fuel, s.globals, hr, ?_, hinv.ordered⟩
  have hperm := hinv.placed.perm
  rwa [hnil, List.append_nil] at hperm

end

/-! ## A file in reverse order -/

attribute [local instance] latin1

/-- `total` is listed before the `sum` it adds up. -/
def chainFile : Dict Item :=
  (AList.singleton "sum" (addItem [])).insert "total" (addItem [("x", "sum.result")])

theorem chainFile_lookup {name : String} {jsonItem : Item}
    (h : chainFile.lookup name = some jsonItem) :
    (name = "total" ∧ jsonItem = addItem [("x", "sum.result")]) ∨
      (name = "sum" ∧ jsonItem = addItem []) := by
  unfold chainFile at h
  by_cases htotal : name = "total"
  · subst htotal
    rw [AList.lookup_insert, Option.some.injEq] at h
    exact .inl ⟨rfl, h.symm⟩
  · rw [AList.lookup_insert_ne htotal] at h
    have hmem : name ∈ (AList.singleton "sum" (addItem []) : Dict Item) :=
      AList.lookup_isSome.mp (by rw [h]; rfl)
    obtain rfl : name = "sum" := by simpa [AList.mem_keys] using hmem
    cases h
    exact .inr ⟨rfl, rfl⟩

theorem resolved_addItem {name : String} {inputs : List (String × String)}
    {newObj : Component String} :
    Resolved [addModule] name (addItem inputs) newObj ↔
      newObj = ⟨addModule, addModule.construct name⟩ := by
  constructor
  · rintro ⟨className, version, hc, hv, hn⟩
    cases hc
    cases hv
    exact (Option.some.inj hn).symm
  · rintro rfl
    exact ⟨_, _, rfl, rfl, rfl⟩

theorem chainFile_inputs {name : String} {jsonItem : Item} {d : Dependence}
    (h : chainFile.lookup name = some jsonItem) (hd : d ∈ jsonItem.inputs) :
    name = "total" ∧ d = ⟨some (.str "x"), some (.str "sum.result"), none⟩ := by
  rcases chainFile_lookup h with ⟨rfl, rfl⟩ | ⟨rfl, rfl⟩
  · exact ⟨rfl, by simpa [addItem] using hd⟩
  · simp [addItem] at hd

theorem target_sum {obj var : String}
    (h : Target ⟨some (.str "x"), some (.str "sum.result"), none⟩ obj var) :
    obj = "sum" ∧ var = "result" :=
  h.unique ⟨_, rfl, by decide⟩

/-- The file is loadable: `total` depends on `sum` and `sum` on nothing. -/
theorem chainFile_loadable : Loadable [addModule] chainFile where
  values name jsonItem hl d hd := by
    obtain ⟨-, rfl⟩ := chainFile_inputs hl hd
    exact ⟨"sum.result", "sum", "result", rfl, by decide⟩
  resolves name jsonItem hl := by
    rcases chainFile_lookup hl with ⟨rfl, rfl⟩ | ⟨rfl, rfl⟩
    · exact ⟨_, resolved_addItem.mpr rfl⟩
    · exact ⟨_, resolved_addItem.mpr rfl⟩
  declared name jsonItem newObj hl hres d hd := by
    obtain ⟨rfl, rfl⟩ := chainFile_inputs hl hd
    rcases chainFile_lookup hl with ⟨-, rfl⟩ | ⟨hname, -⟩
    · obtain rfl := resolved_addItem.mp hres
      exact ⟨"x", rfl, by decide⟩
    · exact absurd hname (by decide)
  init_returns name jsonItem obj hl hprep := by
    obtain ⟨newObj, created, base, hres, -, -, rfl⟩ := hprep
    rcases chainFile_lookup hl with ⟨rfl, rfl⟩ | ⟨rfl, rfl⟩
    · obtain rfl := resolved_addItem.mp hres
      exact ⟨_, rfl⟩
    · obtain rfl := resolved_addItem.mp hres
      exact ⟨_, rfl⟩
  defined name jsonItem hl d hd _ obj var ht := by
    obtain ⟨-, rfl⟩ := chainFile_inputs hl hd
    obtain ⟨rfl, -⟩ := target_sum ht
    decide
  outputs name jsonItem hl d hd obj var ht jsonItem' hl' outs hret := by
    obtain ⟨-, rfl⟩ := chainFile_inputs hl hd
    obtain ⟨rfl, rfl⟩ := target_sum ht
    rcases chainFile_lookup hl' with ⟨hname, -⟩ | ⟨-, rfl⟩
    · exact absurd hname (by decide)
    · obtain ⟨obj, ⟨newObj, created, base, hres, -, -, rfl⟩, hinit⟩ := hret
      obtain rfl := resolved_addItem.mp hres
      obtain rfl := Except.ok.inj hinit
      simp [AList.mem_keys]
  acyclic := by
    have hdep : ∀ name obj, DependsOn chainFile name obj → name = "total" ∧ obj = "sum" := by
      rintro name obj ⟨jsonItem, hl, var, d, hd, -, deps, hdeps, hmem⟩
      obtain ⟨rfl, rfl⟩ := chainFile_inputs hl hd
      have hsum : depList ⟨some (.str "x"), some (.str "sum.result"), none⟩ =
          .ok [("sum", "result")] := depList_str rfl (by decide)
      rw [hsum, Except.ok.injEq] at hdeps
      subst hdeps
      rw [List.mem_singleton, Prod.mk.injEq] at hmem
      exact ⟨rfl, hmem.1⟩
    intro name hcycle
    have hlast : name = "sum" := by
      cases hcycle with
      | single h => exact (hdep _ _ h).2
      | tail _ h => exact (hdep _ _ h).2
    obtain ⟨obj, hfirst, -⟩ := Relation.TransGen.head'_iff.mp hcycle
    obtain ⟨htotal, -⟩ := hdep _ _ hfirst
    exact absurd (hlast.symm.trans htotal) (by decide)

/-- Both components of the file are created, `sum` first. -/
theorem chainFile_complete :
    (∃ fuel g, createComponents [addModule] chainFile fuel = some (.ok g) ∧
      (g.trace.map Creation.name).Perm chainFile.keys ∧ TopologicalOrder chainFile g.trace) ∧
    ∀ s, Iterates [addModule] chainFile (start chainFile) s → s.jsonItems ≠ [] →
      s.i < s.jsonItems.length :=
  createComponents_complete chainFile_loadable

end Loader

end VerAI
