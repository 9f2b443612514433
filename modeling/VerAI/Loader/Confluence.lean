import VerAI.Loader.Completeness
/-!
# The order of the entries does not matter

Over a file whose inputs are all important `obj.var` strings, what a
component is made of depends on the file alone: its item is ready only when
everything it names is recorded, and then binding reads nothing else. A run
that finishes is therefore a table of what each component comes out as
(`Settled`), and a run over the same entries in another order fills in the
same table, one row at a time (`Agrees`), never raising and never stuck.
-/

namespace VerAI

namespace Loader

section

variable [Unicode] {T : Type} {loader : ComponentLoader T} {jsData jsData' : Dict Item}

/-- **Every input is an important string reference** `obj.var`. -/
def ImportantRefs (jsData : Dict Item) : Prop :=
  ∀ name jsonItem, jsData.lookup name = some jsonItem → ∀ d ∈ jsonItem.inputs,
    d.isImportant = true ∧ ∃ s obj var, d.value = some (.str s) ∧ splitDot s = [obj, var]

theorem ImportantRefs.target (h : ImportantRefs jsData) {name : String} {jsonItem : Item}
    (hl : jsData.lookup name = some jsonItem) {d : Dependence} (hd : d ∈ jsonItem.inputs) :
    ∃ obj var, Target d obj var ∧ Names jsonItem obj var := by
  obtain ⟨himp, s, obj, var, hv, hs⟩ := h name jsonItem hl d hd
  exact ⟨obj, var, ⟨.str s, hv, hs⟩, d, hd, himp, _, depList_str hv hs, List.mem_singleton_self _⟩

/-- What an input reads as is what its item names. -/
theorem ImportantRefs.names_of_target (h : ImportantRefs jsData) {name : String} {jsonItem : Item}
    (hl : jsData.lookup name = some jsonItem) {d : Dependence} (hd : d ∈ jsonItem.inputs)
    {obj var : String} (ht : Target d obj var) : Names jsonItem obj var := by
  obtain ⟨obj', var', ht', hn⟩ := h.target hl hd
  obtain ⟨rfl, rfl⟩ := ht.unique ht'
  exact hn

/-- The pairs of an important entry are readable. -/
theorem ImportantRefs.depList_ok (h : ImportantRefs jsData) {name : String} {jsonItem : Item}
    (hl : jsData.lookup name = some jsonItem) {d : Dependence} (hd : d ∈ jsonItem.inputs) :
    ∃ deps, depList d = .ok deps := by
  obtain ⟨-, s, obj, var, hv, hs⟩ := h name jsonItem hl d hd
  exact ⟨_, depList_str hv hs⟩

omit [Unicode] in
theorem ImportantRefs.of_perm (h : ImportantRefs jsData)
    (hperm : jsData.entries.Perm jsData'.entries) : ImportantRefs jsData' := by
  intro name jsonItem hl
  rw [← AList.perm_lookup hperm] at hl
  exact h name jsonItem hl

/-! ## Over which outputs -/

/-- Binding reads the outputs of the components the entries name, and nothing
else. -/
theorem bindInputs_congr {created created' : Dict (Dict T)} {ds : List Dependence}
    (h : ∀ d ∈ ds, ∀ obj var, Target d obj var → created.lookup obj = created'.lookup obj)
    (b : Base T) : bindInputs created ds b = bindInputs created' ds b := by
  induction ds generalizing b with
  | nil => rfl
  | cons d ds ih =>
    have hone : bindInput created b d = bindInput created' b d := by
      unfold bindInput
      cases hv : d.value with
      | none => rfl
      | some value =>
        cases hp : unpackDot value.toStr with
        | error e => simp [hp]
        | ok dep =>
          obtain ⟨obj, var⟩ := dep
          have htarget : Target d obj var := ⟨value, hv, unpackDot_eq_ok.mp hp⟩
          simp only [getKey_some, ok_bind, hp, h d (List.mem_cons_self ..) obj var htarget]
    rw [bindInputs, bindInputs, hone]
    exact bind_congr fun b' => ih (fun e he => h e (List.mem_cons_of_mem _ he)) b'

/-- Over outputs that agree on what the item names, it comes out the same. -/
theorem Builds.congr (hrefs : ImportantRefs jsData) {itemName : String} {jsonItem : Item}
    (hl : jsData.lookup itemName = some jsonItem) {created created' : Dict (Dict T)}
    (h : ∀ obj var, Names jsonItem obj var → created.lookup obj = created'.lookup obj)
    {r : Built T} (hr : Builds loader itemName jsonItem created r) :
    Builds loader itemName jsonItem created' r where
  className := hr.className
  version := hr.version
  newObj := hr.newObj
  base := by
    rw [← hr.base]
    refine (bindInputs_congr (fun d hd obj var ht => ?_) _).symm
    exact h obj var (hrefs.names_of_target hl hd ht)
  outputs := hr.outputs
  type := hr.type

/-! ## The rows of the result -/

/-- What the dictionaries of a run say of one name: its outputs, its object,
and its item among the train and the test components. -/
structure Row (T : Type) where
  outputs : Option (Dict T)
  instance_ : Option (Component T)
  train : Option Item
  test : Option Item

/-- The row of a name. -/
def Globals.row (g : Globals T) (name : String) : Row T where
  outputs := g.createdComponentsOutputs.lookup name
  instance_ := g.componentsInstance.lookup name
  train := g.componentsTrainJson.lookup name
  test := g.componentsTestJson.lookup name

/-- The row of a name that is not created. -/
def Row.empty : Row T := ⟨none, none, none, none⟩

/-- The row of an item that comes out as `r`. -/
def Built.row (r : Built T) (jsonItem : Item) : Row T where
  outputs := some r.outputs
  instance_ := some (r.obj jsonItem)
  train := if isText r.type "train" then some jsonItem else none
  test :=
    if isText r.type "train" then none
    else if isText r.type "test" then some jsonItem else none

/-- **Recording writes one row** and leaves the others. -/
theorem row_record {g : Globals T} {itemName : String} (jsonItem : Item) (r : Built T)
    (hempty : g.row itemName = .empty) (name : String) :
    (record g itemName jsonItem r.className (r.obj jsonItem) r.outputs r.type).row name =
      if name = itemName then r.row jsonItem else g.row name := by
  obtain ⟨-, -, htrain, htest⟩ := Row.mk.inj hempty
  by_cases hname : name = itemName
  · subst hname
    simp only [Globals.row, record, Built.row, AList.lookup_insert, if_true]
    congr 1
    · split
      · exact AList.lookup_insert _
      · exact htrain
    · split
      · exact htest
      · split
        · exact AList.lookup_insert _
        · exact htest
  · simp only [Globals.row, record, AList.lookup_insert_ne hname, if_neg hname]
    congr 1
    · split
      · exact AList.lookup_insert_ne hname
      · rfl
    · split
      · rfl
      · split
        · exact AList.lookup_insert_ne hname
        · rfl

/-- Every name that is created has been built from what is recorded, and the
others have no row yet. -/
structure Settled (loader : ComponentLoader T) (jsData : Dict Item) (g : Globals T) : Prop where
  created : ∀ name ∈ g.createdComponentsOutputs, ∃ jsonItem r,
    jsData.lookup name = some jsonItem ∧
    (∀ obj var, Names jsonItem obj var → Recorded g.createdComponentsOutputs obj var) ∧
    Builds loader name jsonItem g.createdComponentsOutputs r ∧ g.row name = r.row jsonItem
  fresh : ∀ name, name ∉ g.createdComponentsOutputs → g.row name = .empty

theorem settled_empty : Settled loader jsData (.empty : Globals T) where
  created _ h := absurd h (AList.notMem_empty _)
  fresh _ _ := rfl

/-- A new entry leaves what was recorded. -/
theorem lookup_record_of_mem {g : Globals T} {itemName obj : String} {jsonItem : Item}
    {r : Built T} (hnew : itemName ∉ g.createdComponentsOutputs)
    (hobj : obj ∈ g.createdComponentsOutputs) :
    (record g itemName jsonItem r.className (r.obj jsonItem) r.outputs
      r.type).createdComponentsOutputs.lookup obj = g.createdComponentsOutputs.lookup obj :=
  AList.lookup_insert_ne fun heq => hnew (heq ▸ hobj)

omit [Unicode] in
theorem Recorded.mem {created : Dict (Dict T)} {obj var : String} (h : Recorded created obj var) :
    obj ∈ created := by
  obtain ⟨outputs, ho, -⟩ := h
  exact AList.lookup_isSome.mp (by simp [ho])

omit [Unicode] in
theorem Recorded.of_lookup_eq {created created' : Dict (Dict T)} {obj var : String}
    (h : Recorded created obj var) (hl : created.lookup obj = created'.lookup obj) :
    Recorded created' obj var := by
  obtain ⟨outputs, ho, hvar⟩ := h
  exact ⟨outputs, hl ▸ ho, hvar⟩

/-- **One iteration settles at most one more name.** -/
theorem Settled.iteration (hrefs : ImportantRefs jsData) {s s' : LoopState T}
    (hs : Settled loader jsData s.globals) (hw : WellPlaced jsData s)
    (ht : Loader.iteration loader jsData s = .ok s') : Settled loader jsData s'.globals := by
  obtain ⟨itemName, jsonItem, hmem, hl, ⟨-, -, hg⟩ | ⟨hc, hcreate, -⟩⟩ := iteration_cases ht
  · exact hg ▸ hs
  · obtain ⟨r, hr, hg⟩ := createComponent_eq_ok_iff.mp hcreate
    have hnew : itemName ∉ s.globals.createdComponentsOutputs :=
      fun hin => ((hw.mem itemName).mp hin).2 hmem
    have hrow := row_record jsonItem r (hs.fresh itemName hnew)
    have hkeep : ∀ obj ∈ s.globals.createdComponentsOutputs,
        s.globals.createdComponentsOutputs.lookup obj =
          s'.globals.createdComponentsOutputs.lookup obj :=
      fun obj hobj => hg ▸ (lookup_record_of_mem hnew hobj).symm
    have hmem' : ∀ name, name ∈ s'.globals.createdComponentsOutputs ↔
        name = itemName ∨ name ∈ s.globals.createdComponentsOutputs := by
      intro name
      rw [hg]
      exact AList.mem_insert _
    refine ⟨fun name hname => ?_, fun name hname => ?_⟩
    · by_cases heq : name = itemName
      · subst heq
        have hrec : ∀ obj var, Names jsonItem obj var →
            Recorded s.globals.createdComponentsOutputs obj var :=
          fun obj var hn => checkDependences_true hc hn
        refine ⟨jsonItem, r, hl, fun obj var hn => ?_, ?_, ?_⟩
        · exact (hrec obj var hn).of_lookup_eq (hkeep obj (hrec obj var hn).mem)
        · exact hr.congr hrefs hl fun obj var hn => hkeep obj (hrec obj var hn).mem
        · rw [hg, hrow, if_pos rfl]
      · have hold := ((hmem' name).mp hname).resolve_left heq
        obtain ⟨jsonItem', r', hl', hrec, hr', hrow'⟩ := hs.created name hold
        refine ⟨jsonItem', r', hl', fun obj var hn => ?_, ?_, ?_⟩
        · exact (hrec obj var hn).of_lookup_eq (hkeep obj (hrec obj var hn).mem)
        · exact hr'.congr hrefs hl' fun obj var hn => hkeep obj (hrec obj var hn).mem
        · rw [hg, hrow, if_neg heq, hrow']
    · rw [hmem', not_or] at hname
      rw [hg, hrow, if_neg hname.1]
      exact hs.fresh name hname.2

/-- **Every state of a run is settled.** -/
theorem Iterates.settled (hrefs : ImportantRefs jsData) {s : LoopState T}
    (h : Iterates loader jsData (start jsData) s) : Settled loader jsData s.globals := by
  have hinv : WellPlaced jsData s ∧ Settled loader jsData s.globals :=
    h.invariant (I := fun s => WellPlaced jsData s ∧ Settled loader jsData s.globals)
      ⟨wellPlaced_start, settled_empty⟩
      fun s s' hs ht => ⟨hs.1.iteration ht, hs.2.iteration hrefs hs.1 ht⟩
  exact hinv.2

/-! ## Two runs over one file -/

/-- The names created so far have the rows of the finished run. -/
structure Agrees (g g' : Globals T) : Prop where
  created : ∀ name ∈ g'.createdComponentsOutputs, g'.row name = g.row name
  fresh : ∀ name, name ∉ g'.createdComponentsOutputs → g'.row name = .empty

omit [Unicode] in
theorem Agrees.lookup {g g' : Globals T} (h : Agrees g g') {name : String}
    (hname : name ∈ g'.createdComponentsOutputs) :
    g'.createdComponentsOutputs.lookup name = g.createdComponentsOutputs.lookup name :=
  congrArg Row.outputs (h.created name hname)

section TwoRuns

variable {g : Globals T} {s s' : LoopState T} {name : String} {jsonItem : Item}

/-- A ready item comes out as it did in the finished run. -/
theorem Agrees.builds (h : Agrees g s.globals) (hg : Settled loader jsData g)
    (hrefs : ImportantRefs jsData) (hname : name ∈ g.createdComponentsOutputs)
    (hl : jsData.lookup name = some jsonItem)
    (hc : checkDependences jsonItem s.globals.createdComponentsOutputs = .ok true) :
    ∃ r, Builds loader name jsonItem s.globals.createdComponentsOutputs r ∧
      g.row name = r.row jsonItem := by
  obtain ⟨jsonItem', r, hl', -, hr, hrow⟩ := hg.created name hname
  obtain rfl : jsonItem' = jsonItem := Option.some.inj (hl'.symm.trans hl)
  refine ⟨r, hr.congr hrefs hl fun obj var hn => ?_, hrow⟩
  exact (h.lookup (checkDependences_true hc hn).mem).symm

/-- The dependence check raises at none of its items. -/
theorem Agrees.check_returns (h : Agrees g s.globals) (hg : Settled loader jsData g)
    (hrefs : ImportantRefs jsData) (hname : name ∈ g.createdComponentsOutputs)
    (hl : jsData.lookup name = some jsonItem) :
    ∃ ready, checkDependences jsonItem s.globals.createdComponentsOutputs = .ok ready := by
  obtain ⟨jsonItem', -, hl', hrec, -, -⟩ := hg.created name hname
  obtain rfl : jsonItem' = jsonItem := Option.some.inj (hl'.symm.trans hl)
  refine checkDependences_returns (fun d hd _ => hrefs.depList_ok hl hd) fun obj var hn hobj => ?_
  exact (hrec obj var hn).of_lookup_eq (h.lookup hobj).symm

theorem Agrees.iteration (h : Agrees g s.globals) (hg : Settled loader jsData g)
    (hrefs : ImportantRefs jsData) (hfull : ∀ name ∈ jsData, name ∈ g.createdComponentsOutputs)
    (hw : WellPlaced jsData s) (ht : Loader.iteration loader jsData s = .ok s') :
    Agrees g s'.globals := by
  obtain ⟨itemName, jsonItem, hmem, hl, ⟨-, -, hs'⟩ | ⟨hc, hcreate, -⟩⟩ := iteration_cases ht
  · exact hs' ▸ h
  · obtain ⟨r, hr, hrow⟩ := h.builds hg hrefs (hfull itemName (hw.sub itemName hmem)) hl hc
    have hs' : s'.globals = record s.globals itemName jsonItem r.className (r.obj jsonItem)
        r.outputs r.type :=
      Except.ok.inj (hcreate.symm.trans (createComponent_eq_ok_iff.mpr ⟨r, hr, rfl⟩))
    have hnew : itemName ∉ s.globals.createdComponentsOutputs :=
      fun hin => ((hw.mem itemName).mp hin).2 hmem
    have hrow' := row_record jsonItem r (h.fresh itemName hnew)
    rw [hs']
    refine ⟨fun name hname => ?_, fun name hname => ?_⟩
    · rw [hrow']
      split
      case isTrue heq => rw [heq, hrow]
      case isFalse heq => exact h.created name (((AList.mem_insert _).mp hname).resolve_left heq)
    · have hnot := mt (AList.mem_insert _).mpr hname
      rw [not_or] at hnot
      rw [hrow', if_neg hnot.1]
      exact h.fresh name hnot.2

theorem Agrees.iteration_returns (h : Agrees g s.globals) (hg : Settled loader jsData g)
    (hrefs : ImportantRefs jsData) (hfull : ∀ name ∈ jsData, name ∈ g.createdComponentsOutputs)
    (hw : WellPlaced jsData s) (hi : s.i < s.jsonItems.length) :
    ∃ s', Loader.iteration loader jsData s = .ok s' := by
  have hx : s.jsonItems[s.i]? = some s.jsonItems[s.i] := List.getElem?_eq_getElem hi
  have hfile : s.jsonItems[s.i] ∈ jsData := hw.sub _ (List.getElem_mem hi)
  obtain ⟨jsonItem, hl⟩ := Option.isSome_iff_exists.mp (AList.lookup_isSome.mpr hfile)
  obtain ⟨ready, hc⟩ := h.check_returns hg hrefs (hfull _ hfile) hl
  cases ready with
  | false => exact ⟨_, by simp only [Loader.iteration, hx, hl, getKey_some, ok_bind, hc]; rfl⟩
  | true =>
    obtain ⟨r, hr, -⟩ := h.builds hg hrefs (hfull _ hfile) hl hc
    have hcreate := createComponent_eq_ok_iff.mpr ⟨r, hr, rfl⟩
    exact ⟨_, by
      simp only [Loader.iteration, hx, hl, getKey_some, ok_bind, hc, if_true, hcreate]; rfl⟩

end TwoRuns

/-- A run that finishes has created every component of the file. -/
theorem mem_created_of_finished {s : LoopState T} (h : Iterates loader jsData (start jsData) s)
    (hnil : s.jsonItems = []) (name : String) :
    name ∈ s.globals.createdComponentsOutputs ↔ name ∈ jsData := by
  rw [h.wellPlaced.mem, hnil]
  simp

/-- The state a run that returns normally ends in. -/
theorem exists_finished {fuel : ℕ} {g : Globals T}
    (h : createComponents loader jsData fuel = some (.ok g)) :
    ∃ s, Iterates loader jsData (start jsData) s ∧ s.jsonItems = [] ∧ s.globals = g := by
  obtain ⟨s, hs, ⟨hnil, hr⟩ | ⟨-, e, -, hr⟩⟩ := loop_eq_some_iff.mp ⟨fuel, h⟩
  · exact ⟨s, hs, hnil, (Except.ok.inj hr).symm⟩
  · cases hr

/-! ## Another order of the same entries -/

omit [Unicode] in
theorem mem_of_perm (hperm : jsData.entries.Perm jsData'.entries) {name : String} :
    name ∈ jsData ↔ name ∈ jsData' := by
  rw [← AList.lookup_isSome, ← AList.lookup_isSome, AList.perm_lookup hperm]

theorem WaitingSet.of_perm {K : Set String} (h : WaitingSet jsData K)
    (hperm : jsData.entries.Perm jsData'.entries) : WaitingSet jsData' K where
  nonempty := h.nonempty
  waits name hname := by
    obtain ⟨jsonItem, hl, obj, var, hn, hobj⟩ := h.waits name hname
    rw [AList.perm_lookup hperm] at hl
    rw [mem_of_perm hperm] at hobj
    exact ⟨jsonItem, hl, obj, var, hn, hobj⟩

theorem Settled.of_perm {g : Globals T} (h : Settled loader jsData g)
    (hperm : jsData.entries.Perm jsData'.entries) : Settled loader jsData' g where
  created name hname := by
    obtain ⟨jsonItem, r, hl, hrest⟩ := h.created name hname
    rw [AList.perm_lookup hperm] at hl
    exact ⟨jsonItem, r, hl, hrest⟩
  fresh := h.fresh

/-- The table of a finished run, for the file in any order. -/
theorem exists_table (hrefs : ImportantRefs jsData) (hperm : jsData.entries.Perm jsData'.entries)
    {fuel : ℕ} {g : Globals T} (h : createComponents loader jsData fuel = some (.ok g)) :
    Settled loader jsData' g ∧ ∀ name, name ∈ g.createdComponentsOutputs ↔ name ∈ jsData' := by
  obtain ⟨s, hs, hnil, rfl⟩ := exists_finished h
  exact ⟨(hs.settled hrefs).of_perm hperm,
    fun name => (mem_created_of_finished hs hnil name).trans (mem_of_perm hperm)⟩

/-- **A run over the entries in another order fills in the same table.** -/
theorem Iterates.agrees (hrefs : ImportantRefs jsData) {g : Globals T}
    (hg : Settled loader jsData g) (hfull : ∀ name ∈ jsData, name ∈ g.createdComponentsOutputs)
    {s : LoopState T} (h : Iterates loader jsData (start jsData) s) :
    WellPlaced jsData s ∧ Agrees g s.globals := by
  refine h.invariant (I := fun s => WellPlaced jsData s ∧ Agrees g s.globals)
    ⟨wellPlaced_start, ⟨fun name hname => absurd hname (AList.notMem_empty _), fun _ _ => rfl⟩⟩
    fun s s' hs ht => ⟨hs.1.iteration ht, hs.2.iteration hg hrefs hfull hs.1 ht⟩

/-- **Finishing does not depend on the order.** -/
theorem finishes_of_perm (hrefs : ImportantRefs jsData)
    (hperm : jsData.entries.Perm jsData'.entries)
    (h : ∃ fuel g, createComponents loader jsData fuel = some (.ok g)) :
    ∃ fuel g, createComponents loader jsData' fuel = some (.ok g) := by
  obtain ⟨fuel₀, g₀, h₀⟩ := h
  obtain ⟨hg, hfull⟩ := exists_table hrefs hperm h₀
  have hret : Returns loader jsData' := by
    refine returns_of_not_allPostponed fun s hs hp => ?_
    have hwait := (waitingSet_of_allPostponed hs hp).of_perm hperm.symm
    obtain ⟨e, he⟩ := raises_of_waitingSet hwait h₀
    cases he
  obtain ⟨fuel, hfuel⟩ := hret
  obtain ⟨r, hr⟩ := Option.ne_none_iff_exists'.mp hfuel
  obtain ⟨s, hs, ⟨-, rfl⟩ | ⟨hne, e, he, -⟩⟩ := loop_eq_some_iff.mp ⟨fuel, hr⟩
  · exact ⟨fuel, s.globals, hr⟩
  · -- no iteration raises: what the finished run has built can be built here
    obtain ⟨hw, hagrees⟩ := hs.agrees (hrefs.of_perm hperm) hg fun name => (hfull name).mpr
    obtain ⟨s', hs'⟩ := hagrees.iteration_returns hg (hrefs.of_perm hperm)
      (fun name => (hfull name).mpr) hw (index_lt_of_iterates hs hne)
    rw [he] at hs'
    cases hs'

/-- **The same outputs, the same objects with the same inputs bound, the same
train and test components.** -/
structure SameResult (g g' : Globals T) : Prop where
  outputs : ∀ name,
    g.createdComponentsOutputs.lookup name = g'.createdComponentsOutputs.lookup name
  instances : ∀ name, g.componentsInstance.lookup name = g'.componentsInstance.lookup name
  train : ∀ name, g.componentsTrainJson.lookup name = g'.componentsTrainJson.lookup name
  test : ∀ name, g.componentsTestJson.lookup name = g'.componentsTestJson.lookup name

omit [Unicode] in
theorem SameResult.of_row {g g' : Globals T} (h : ∀ name, g.row name = g'.row name) :
    SameResult g g' where
  outputs name := congrArg Row.outputs (h name)
  instances name := congrArg Row.instance_ (h name)
  train name := congrArg Row.train (h name)
  test name := congrArg Row.test (h name)

/-- **Load order does not matter when nothing is optional.** Over two orders
of the same entries `create_components` finishes on both or on neither, and
two runs that finish have the same result. -/
theorem createComponents_confluent (loader : ComponentLoader T) (hrefs : ImportantRefs jsData)
    (hperm : jsData.entries.Perm jsData'.entries) :
    ((∃ fuel g, createComponents loader jsData fuel = some (.ok g)) ↔
      ∃ fuel g, createComponents loader jsData' fuel = some (.ok g)) ∧
    ∀ fuel fuel' g g', createComponents loader jsData fuel = some (.ok g) →
      createComponents loader jsData' fuel' = some (.ok g') → SameResult g g' := by
  refine ⟨⟨finishes_of_perm hrefs hperm,
    finishes_of_perm (hrefs.of_perm hperm) hperm.symm⟩, fun fuel fuel' g g' h h' => ?_⟩
  obtain ⟨hg, hfull⟩ := exists_table hrefs hperm h
  obtain ⟨s, hs, hnil, rfl⟩ := exists_finished h'
  obtain ⟨-, hagrees⟩ := hs.agrees (hrefs.of_perm hperm) hg fun name => (hfull name).mpr
  refine .of_row fun name => ?_
  by_cases hname : name ∈ jsData'
  · exact (hagrees.created name ((mem_created_of_finished hs hnil name).mpr hname)).symm
  · rw [hg.fresh name (mt (hfull name).mp hname),
      hagrees.fresh name (mt (mem_created_of_finished hs hnil name).mp hname)]

end

attribute [local instance] latin1

/-- The entries of `chainFile` with `sum` first. -/
def chainFileSumFirst : Dict Item :=
  (AList.singleton "total" (addItem [("x", "sum.result")])).insert "sum" (addItem [])

theorem chainFile_importantRefs : ImportantRefs chainFile := by
  intro name jsonItem hl d hd
  obtain ⟨-, rfl⟩ := chainFile_inputs hl hd
  exact ⟨rfl, "sum.result", "sum", "result", rfl, by decide⟩

/-- The two orders of that file. -/
theorem chainFile_confluent :
    ((∃ fuel g, createComponents [addModule] chainFile fuel = some (.ok g)) ↔
      ∃ fuel g, createComponents [addModule] chainFileSumFirst fuel = some (.ok g)) ∧
    ∀ fuel fuel' g g', createComponents [addModule] chainFile fuel = some (.ok g) →
      createComponents [addModule] chainFileSumFirst fuel' = some (.ok g') → SameResult g g' :=
  createComponents_confluent [addModule] chainFile_importantRefs (.swap _ _ _)

end Loader

end VerAI
