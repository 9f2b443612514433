import VerAI.Loader.Scan
/-!
# What the dependence check and the input binding say

`checkDependences` walks the important entries and stops at the first name
that is not created. A `true` means every pair an important entry names is
recorded (`checkDependences_true`), a `false` that some named component is
missing (`checkDependences_false`). Over every run of the loop the created
components are the names of the file that are no longer in the list
(`Iterates.wellPlaced`).
-/

namespace VerAI

namespace Loader

variable [Unicode] {T : Type} {loader : ComponentLoader T} {jsData : Dict Item}
variable {created : Dict (Dict T)}

/-- An important entry of the item names output `var` of component `obj`. -/
def Names (jsonItem : Item) (obj var : String) : Prop :=
  ∃ d ∈ jsonItem.inputs, d.isImportant = true ∧ ∃ deps, depList d = .ok deps ∧ (obj, var) ∈ deps

/-- The output is recorded. -/
def Recorded (created : Dict (Dict T)) (obj var : String) : Prop :=
  ∃ outputs, created.lookup obj = some outputs ∧ var ∈ outputs

omit [Unicode] in
theorem checkDepList_true {deps : List (String × String)} :
    checkDepList created deps = .ok true ↔ ∀ dep ∈ deps, Recorded created dep.1 dep.2 := by
  induction deps with
  | nil => simp [checkDepList]
  | cons dep deps ih =>
    obtain ⟨obj, var⟩ := dep
    rw [checkDepList, List.forall_mem_cons, ← ih]
    cases hl : created.lookup obj with
    | none => simp [Recorded, hl]
    | some outputs =>
      by_cases hv : var ∈ outputs
      · simp [Recorded, hl, hv]
      · simp [Recorded, hl, hv]

omit [Unicode] in
theorem checkDepList_false {deps : List (String × String)}
    (h : checkDepList created deps = .ok false) :
    ∃ dep ∈ deps, created.lookup dep.1 = none := by
  induction deps with
  | nil => cases h
  | cons dep deps ih =>
    obtain ⟨obj, var⟩ := dep
    rw [checkDepList] at h
    cases hl : created.lookup obj with
    | none => exact ⟨(obj, var), List.mem_cons_self .., hl⟩
    | some outputs =>
      simp only [hl] at h
      split at h
      · obtain ⟨dep, hdep, hnone⟩ := ih h
        exact ⟨dep, List.mem_cons_of_mem _ hdep, hnone⟩
      · cases h

/-- **A ready item.** -/
theorem checkDependences_true {jsonItem : Item}
    (h : checkDependences jsonItem created = .ok true) {obj var : String}
    (hn : Names jsonItem obj var) : Recorded created obj var := by
  obtain ⟨d, hd, himp, deps, hdeps, hmem⟩ := hn
  unfold checkDependences at h
  generalize jsonItem.inputs = ds at h hd
  induction ds with
  | nil => cases hd
  | cons e ds ih =>
    rw [checkInputs] at h
    by_cases he : e.isImportant
    · rw [if_pos he] at h
      obtain ⟨deps', hdeps', h⟩ := bind_eq_ok.mp h
      obtain ⟨found, hfound, h⟩ := bind_eq_ok.mp h
      cases found with
      | false => cases h
      | true =>
        rcases List.mem_cons.mp hd with rfl | hd
        · rw [hdeps, Except.ok.injEq] at hdeps'
          exact checkDepList_true.mp hfound (obj, var) (hdeps' ▸ hmem)
        · exact ih h hd
    · rw [if_neg he] at h
      rcases List.mem_cons.mp hd with rfl | hd
      · exact absurd himp he
      · exact ih h hd

/-- **A postponed item** names a component that is not created. -/
theorem checkDependences_false {jsonItem : Item}
    (h : checkDependences jsonItem created = .ok false) :
    ∃ obj var, Names jsonItem obj var ∧ created.lookup obj = none := by
  unfold checkDependences at h
  suffices hs : ∀ ds, checkInputs created ds = .ok false → ∃ d ∈ ds, d.isImportant = true ∧
      ∃ deps, depList d = .ok deps ∧ ∃ dep ∈ deps, created.lookup dep.1 = none by
    obtain ⟨d, hd, himp, deps, hdeps, ⟨obj, var⟩, hdep, hnone⟩ := hs _ h
    exact ⟨obj, var, ⟨d, hd, himp, deps, hdeps, hdep⟩, hnone⟩
  intro ds
  induction ds with
  | nil => intro h; cases h
  | cons e ds ih =>
    intro h
    rw [checkInputs] at h
    by_cases he : e.isImportant
    · rw [if_pos he] at h
      obtain ⟨deps, hdeps, h⟩ := bind_eq_ok.mp h
      obtain ⟨found, hfound, h⟩ := bind_eq_ok.mp h
      -- the scan stops at the first entry that is not found
      cases found with
      | false => exact ⟨e, List.mem_cons_self .., he, deps, hdeps, checkDepList_false hfound⟩
      | true =>
        obtain ⟨d, hd, hrest⟩ := ih h
        exact ⟨d, List.mem_cons_of_mem _ hd, hrest⟩
    · rw [if_neg he] at h
      obtain ⟨d, hd, hrest⟩ := ih h
      exact ⟨d, List.mem_cons_of_mem _ hd, hrest⟩

omit [Unicode] in
theorem checkDepList_returns {deps : List (String × String)}
    (h : ∀ dep ∈ deps, dep.1 ∈ created → Recorded created dep.1 dep.2) :
    ∃ found, checkDepList created deps = .ok found := by
  induction deps with
  | nil => exact ⟨true, rfl⟩
  | cons dep deps ih =>
    obtain ⟨obj, var⟩ := dep
    cases hl : created.lookup obj with
    | none => exact ⟨false, by simp [checkDepList, hl]⟩
    | some outputs =>
      obtain ⟨outputs', hl', hv⟩ :=
        h (obj, var) (List.mem_cons_self ..) (AList.lookup_isSome.mp (by simp [hl]))
      rw [hl, Option.some.injEq] at hl'
      subst hl'
      obtain ⟨found, hfound⟩ := ih fun dep hdep => h dep (List.mem_cons_of_mem _ hdep)
      exact ⟨found, by simp [checkDepList, hl, hv, hfound]⟩

/-- **The check returns** where every important entry parses and every
created component it names has the output: it raises in no other case. -/
theorem checkDependences_returns {jsonItem : Item}
    (hparse : ∀ d ∈ jsonItem.inputs, d.isImportant = true → ∃ deps, depList d = .ok deps)
    (hrec : ∀ obj var, Names jsonItem obj var → obj ∈ created → Recorded created obj var) :
    ∃ ready, checkDependences jsonItem created = .ok ready := by
  have key : ∀ ds : List Dependence, (∀ d ∈ ds, d ∈ jsonItem.inputs) →
      ∃ ready, checkInputs created ds = .ok ready := by
    intro ds
    induction ds with
    | nil => exact fun _ => ⟨true, rfl⟩
    | cons e ds ih =>
      intro hds
      have he := hds e (List.mem_cons_self ..)
      obtain ⟨ready, hready⟩ := ih fun d hd => hds d (List.mem_cons_of_mem _ hd)
      by_cases himp : e.isImportant
      · obtain ⟨deps, hdeps⟩ := hparse e he himp
        obtain ⟨found, hfound⟩ := checkDepList_returns fun dep hdep =>
          hrec dep.1 dep.2 ⟨e, he, himp, deps, hdeps, hdep⟩
        cases found with
        | false => exact ⟨false, by simp [checkInputs, himp, hdeps, hfound, pure, Except.pure]⟩
        | true => exact ⟨ready, by simp [checkInputs, himp, hdeps, hfound, hready]⟩
      · exact ⟨ready, by simp [checkInputs, himp, hready]⟩
  exact key _ fun d hd => hd

/-! ## Binding -/

/-- The `obj.var` an entry's value reads as. -/
def Target (d : Dependence) (obj var : String) : Prop :=
  ∃ value, d.value = some value ∧ splitDot value.toStr = [obj, var]

/-- The text of an entry reads as one name. -/
theorem Target.unique {d : Dependence} {obj var obj' var' : String} (h : Target d obj var)
    (h' : Target d obj' var') : obj = obj' ∧ var = var' := by
  obtain ⟨value, hv, hs⟩ := h
  obtain ⟨value', hv', hs'⟩ := h'
  rw [hv, Option.some.injEq] at hv'
  subst hv'
  rw [hs] at hs'
  simpa using hs'

/-- The entry names a recorded output, `tensor`. -/
def Resolves (created : Dict (Dict T)) (d : Dependence) (tensor : T) : Prop :=
  ∃ obj var, Target d obj var ∧ ∃ outputs, created.lookup obj = some outputs ∧
    outputs.lookup var = some tensor

/-- **What binding one entry does.** An entry whose component is not created
changes nothing, any other sets the input it is about. -/
theorem bindInput_ok {b b' : Base T} {d : Dependence} (h : bindInput created b d = .ok b') :
    (b' = b ∧ ∀ tensor, ¬ Resolves created d tensor) ∨
      ∃ key tensor, d.name = some (.str key) ∧ Resolves created d tensor ∧ Base.SameShape b b' ∧
        b'.inputValue key = some tensor ∧
        ∀ key', key' ≠ key → b'.inputValue key' = b.inputValue key' := by
  unfold bindInput at h
  obtain ⟨value, hv, h⟩ := bind_eq_ok.mp h
  obtain ⟨⟨obj, var⟩, hp, h⟩ := bind_eq_ok.mp h
  have hv' : d.value = some value := getKey_eq_ok.mp hv
  have hsplit := unpackDot_eq_ok.mp hp
  have htarget : ∀ {obj' var'}, Target d obj' var' → obj' = obj ∧ var' = var := by
    rintro obj' var' ⟨value', h1, h2⟩
    rw [hv', Option.some.injEq] at h1
    subst h1
    rw [hsplit] at h2
    simpa [eq_comm] using h2
  -- `set_inputs` skips an entry whose component is not created
  cases hl : created.lookup obj with
  | none =>
    simp only [hl, pure, Except.pure, Except.ok.injEq] at h
    refine .inl ⟨h.symm, ?_⟩
    rintro tensor ⟨obj', var', ht, outputs, ho, -⟩
    rw [(htarget ht).1, hl] at ho
    cases ho
  | some outputs =>
    simp only [hl] at h
    cases hvar : outputs.lookup var with
    | none =>
      simp only [hvar] at h
      cases h
    | some tensor =>
      simp only [hvar] at h
      obtain ⟨name, hn, h⟩ := bind_eq_ok.mp h
      obtain ⟨key, rfl, -, hshape, hval, hrest⟩ := Base.setInput_ok h
      exact .inr ⟨key, tensor, getKey_eq_ok.mp hn,
        ⟨obj, var, ⟨value, hv', hsplit⟩, outputs, hl, hvar⟩, hshape, hval, hrest⟩

/-- The loop of `set_inputs` binds the first entry and goes on. -/
theorem bindInputs_cons_ok {d : Dependence} {ds : List Dependence} {b b' : Base T} :
    bindInputs created (d :: ds) b = .ok b' ↔
      ∃ b₁, bindInput created b d = .ok b₁ ∧ bindInputs created ds b₁ = .ok b' := by
  rw [bindInputs]
  exact bind_eq_ok

/-- An input no resolved entry is about keeps its value. -/
theorem bindInputs_frame {ds : List Dependence} {b b' : Base T} {key : String}
    (h : bindInputs created ds b = .ok b')
    (hkey : ∀ d ∈ ds, d.name = some (.str key) → ∀ tensor, ¬ Resolves created d tensor) :
    b'.inputValue key = b.inputValue key := by
  induction ds generalizing b with
  | nil =>
    cases h
    rfl
  | cons d ds ih =>
    obtain ⟨b₁, hb, hds⟩ := bindInputs_cons_ok.mp h
    rw [ih hds fun e he => hkey e (List.mem_cons_of_mem _ he)]
    rcases bindInput_ok hb with ⟨rfl, -⟩ | ⟨key', tensor, hn, hr, -, -, hrest⟩
    · rfl
    · refine hrest key fun heq => ?_
      subst heq
      exact hkey d (List.mem_cons_self ..) hn tensor hr

/-- **Every resolved entry leaves its input bound**: to its own output, or to
that of a later entry about the same input. -/
theorem bindInputs_bound {ds : List Dependence} {b b' : Base T}
    (h : bindInputs created ds b = .ok b') {d : Dependence} (hd : d ∈ ds) {tensor : T}
    (hr : Resolves created d tensor) :
    ∃ key, d.name = some (.str key) ∧ ∃ d' ∈ ds, d'.name = d.name ∧ ∃ tensor',
      Resolves created d' tensor' ∧ b'.inputValue key = some tensor' ∧
      ((ds.map Dependence.name).Nodup → d' = d) := by
  induction ds generalizing b d tensor with
  | nil => cases hd
  | cons e ds ih =>
    obtain ⟨b₁, hb, hds⟩ := bindInputs_cons_ok.mp h
    rcases List.mem_cons.mp hd with rfl | hd
    · rcases bindInput_ok hb with ⟨-, hno⟩ | ⟨key, tensor₁, hn, hr₁, -, hval, -⟩
      · exact absurd hr (hno tensor)
      · -- a later entry about the same input overwrites this one
        by_cases hlater : ∃ d₂ ∈ ds, d₂.name = some (.str key) ∧ ∃ t, Resolves created d₂ t
        · obtain ⟨d₂, hd₂, hn₂, t₂, hr₂⟩ := hlater
          obtain ⟨key', hk', d', hd', hname, t', hr', hval', -⟩ := ih hds hd₂ hr₂
          obtain rfl : key' = key := by
            rw [hn₂] at hk'
            simpa using hk'.symm
          refine ⟨key', hn, d', List.mem_cons_of_mem _ hd', by rw [hname, hn₂, hn], t', hr', hval',
            fun hnodup => ?_⟩
          rw [List.map_cons, List.nodup_cons] at hnodup
          exact absurd (List.mem_map.mpr ⟨d₂, hd₂, by rw [hn₂, hn]⟩) hnodup.1
        · push Not at hlater
          refine ⟨key, hn, d, List.mem_cons_self .., rfl, tensor₁, hr₁, ?_, fun _ => rfl⟩
          rw [bindInputs_frame hds hlater, hval]
    · obtain ⟨key, hn, d', hd', hname, t', hr', hval', huniq⟩ := ih hds hd hr
      refine ⟨key, hn, d', List.mem_cons_of_mem _ hd', hname, t', hr', hval', fun hnodup => ?_⟩
      rw [List.map_cons, List.nodup_cons] at hnodup
      exact huniq hnodup.2

/-- **Binding returns** where every entry parses, names a declared input,
and names an output that a created component has. -/
theorem bindInputs_returns {ds : List Dependence} {b : Base T}
    (htarget : ∀ d ∈ ds, ∃ obj var, Target d obj var ∧ (obj ∈ created → Recorded created obj var))
    (hname : ∀ d ∈ ds, ∃ key, d.name = some (.str key) ∧ key ∈ b.inputs) :
    ∃ b', bindInputs created ds b = .ok b' := by
  induction ds generalizing b with
  | nil => exact ⟨b, rfl⟩
  | cons d ds ih =>
    obtain ⟨obj, var, ⟨value, hv, hsplit⟩, hrec⟩ := htarget d (List.mem_cons_self ..)
    obtain ⟨key, hn, hkey⟩ := hname d (List.mem_cons_self ..)
    -- one entry returns, and keeps the declared inputs for the rest
    have hone : ∃ b₁, bindInput created b d = .ok b₁ := by
      unfold bindInput
      simp only [hv, getKey_some, ok_bind, unpackDot_eq_ok.mpr hsplit]
      cases hl : created.lookup obj with
      | none => exact ⟨b, rfl⟩
      | some outputs =>
        obtain ⟨outputs', hl', hvar⟩ := hrec (AList.lookup_isSome.mp (by simp [hl]))
        rw [hl, Option.some.injEq] at hl'
        subst hl'
        obtain ⟨tensor, ht⟩ := Option.isSome_iff_exists.mp (AList.lookup_isSome.mpr hvar)
        simp only [ht, hn, getKey_some, ok_bind]
        exact Base.setInput_declared hkey tensor
    obtain ⟨b₁, hb₁⟩ := hone
    have hshape : b₁.inputs.keys = b.inputs.keys := by
      rcases bindInput_ok hb₁ with ⟨rfl, -⟩ | ⟨-, -, -, -, hshape, -, -⟩
      · rfl
      · exact hshape.inputs
    obtain ⟨b', hb'⟩ := ih (b := b₁)
        (fun e he => htarget e (List.mem_cons_of_mem _ he)) fun e he => by
      obtain ⟨key', hn', hkey'⟩ := hname e (List.mem_cons_of_mem _ he)
      exact ⟨key', hn', AList.mem_keys.mpr (hshape ▸ AList.mem_keys.mp hkey')⟩
    exact ⟨b', bindInputs_cons_ok.mpr ⟨b₁, hb₁, hb'⟩⟩

/-- Parameters and properties leave the inputs alone. -/
theorem setProperties_setParams_inputs (b : Base T) (jsonItem : Item) :
    (setProperties (setParams b jsonItem) jsonItem).inputs = b.inputs := by
  have hparam : ∀ (ps : List ItemParam) (b : Base T),
      (ps.foldl setItemParam b).inputs = b.inputs := by
    intro ps
    induction ps with
    | nil => exact fun _ => rfl
    | cons p ps ih =>
      intro b
      rw [List.foldl_cons, ih]
      unfold setItemParam
      split
      · rename_i b' hb'
        obtain ⟨name, -, hb'⟩ := bind_eq_ok.mp hb'
        obtain ⟨value, -, hb'⟩ := bind_eq_ok.mp hb'
        exact (Base.setParam_sameShape hb').2
      · rfl
  have hprop : ∀ (b : Base T) (entry : Option Json) (name : String),
      (setPropertie b entry name).inputs = b.inputs := by
    intro b entry name
    unfold setPropertie
    split
    · rfl
    · split
      · rename_i b' hb'
        exact (Base.setProperty_sameShape hb').2
      · rfl
  rw [setProperties, hprop, hprop, hprop, setParams, hparam]

/-! ## What a creation makes -/

/-- What a creation makes of an item: the class and version it asks for, the
new object, the same with its inputs bound, what `init()` returns, and the
type it is recorded under. -/
structure Built (T : Type) where
  className : Json
  version : Json
  newObj : Component T
  base : Base T
  outputs : Dict T
  type : Json

/-- The object that is recorded. -/
def Built.obj (r : Built T) (jsonItem : Item) : Component T :=
  ⟨r.newObj.cls, setProperties (setParams r.base jsonItem) jsonItem⟩

/-- Over the outputs `created` the item comes out as `r`. -/
structure Builds (loader : ComponentLoader T) (itemName : String) (jsonItem : Item)
    (created : Dict (Dict T)) (r : Built T) : Prop where
  className : jsonItem.className = some r.className
  version : jsonItem.version = some r.version
  newObj : loader.getComponentInstance r.className r.version itemName = some r.newObj
  base : setInputs r.newObj.base jsonItem created = .ok r.base
  outputs : r.newObj.cls.init (r.obj jsonItem).base = .ok r.outputs
  type : (r.obj jsonItem).base.getProperty ComponentProperties.type = .ok r.type

/-- **A creation builds the item and records it.** -/
theorem createComponent_eq_ok_iff {itemName : String} {jsonItem : Item} {g g' : Globals T} :
    createComponent loader itemName jsonItem g = .ok g' ↔
      ∃ r, Builds loader itemName jsonItem g.createdComponentsOutputs r ∧
        g' = record g itemName jsonItem r.className (r.obj jsonItem) r.outputs r.type := by
  constructor
  · intro h
    unfold createComponent at h
    obtain ⟨className, hc, h⟩ := bind_eq_ok.mp h
    obtain ⟨version, hv, h⟩ := bind_eq_ok.mp h
    split at h
    · cases h
    · rename_i newObj hn
      obtain ⟨base, hb, h⟩ := bind_eq_ok.mp h
      obtain ⟨results, hr, h⟩ := bind_eq_ok.mp h
      obtain ⟨type, ht, h⟩ := bind_eq_ok.mp h
      cases h
      exact ⟨⟨className, version, newObj, base, results, type⟩,
        ⟨getKey_eq_ok.mp hc, getKey_eq_ok.mp hv, hn, hb, hr, ht⟩, rfl⟩
  · rintro ⟨r, ⟨hc, hv, hn, hb, hr, ht⟩, rfl⟩
    simp only [Built.obj] at hr ht
    simp only [createComponent, hc, hv, getKey_some, ok_bind, hn, hb, hr, ht]
    rfl

/-! ## The place of every name -/

/-- Every name of the file is in the list or created, and never both; the
trace lists the created ones in order. -/
structure WellPlaced (jsData : Dict Item) (s : LoopState T) : Prop where
  nodup : s.jsonItems.Nodup
  mem : ∀ name, name ∈ s.globals.createdComponentsOutputs ↔ name ∈ jsData ∧ name ∉ s.jsonItems
  sub : ∀ name ∈ s.jsonItems, name ∈ jsData
  perm : (s.globals.trace.map Creation.name ++ s.jsonItems).Perm jsData.keys

omit [Unicode] in
theorem wellPlaced_start : WellPlaced jsData (start jsData : LoopState T) where
  nodup := jsData.keys_nodup
  mem name := by
    simp only [start, Globals.empty, AList.notMem_empty, false_iff, not_and, not_not]
    exact fun h => AList.mem_keys.mp h
  sub name h := AList.mem_keys.mpr h
  perm := by simp [start, Globals.empty]

theorem WellPlaced.iteration {s s' : LoopState T} (hs : WellPlaced jsData s)
    (h : Loader.iteration loader jsData s = .ok s') : WellPlaced jsData s' := by
  obtain ⟨itemName, jsonItem, hmem, -, ⟨-, hj, hg⟩ | ⟨-, hc, hj⟩⟩ := iteration_cases h
  · exact ⟨hj ▸ hs.nodup, fun name => by rw [hg, hj]; exact hs.mem name,
      fun name hn => hs.sub name (hj ▸ hn), by rw [hg, hj]; exact hs.perm⟩
  · obtain ⟨r, -, hg⟩ := createComponent_eq_ok_iff.mp hc
    refine ⟨hj ▸ hs.nodup.erase _, fun name => ?_, fun name hn => ?_, ?_⟩
    · rw [hg, hj]
      simp only [record, AList.mem_insert, hs.mem name, hs.nodup.mem_erase_iff]
      constructor
      · rintro (rfl | ⟨h1, h2⟩)
        · exact ⟨hs.sub _ hmem, fun hc => hc.1 rfl⟩
        · exact ⟨h1, fun hc => h2 hc.2⟩
      · rintro ⟨h1, h2⟩
        by_cases hname : name = itemName
        · exact .inl hname
        · exact .inr ⟨h1, fun hc => h2 ⟨hname, hc⟩⟩
    · rw [hj] at hn
      exact hs.sub name (List.mem_of_mem_erase hn)
    · rw [hg, hj]
      simp only [record, List.map_append, List.map_cons, List.map_nil, List.append_assoc,
        List.singleton_append]
      exact ((List.perm_cons_erase hmem).symm.append_left _).trans hs.perm

/-- **Over every run** the created components are the names taken out of
the list. -/
theorem Iterates.wellPlaced {s : LoopState T} (h : Iterates loader jsData (start jsData) s) :
    WellPlaced jsData s :=
  h.invariant wellPlaced_start fun _ _ hs ht => hs.iteration ht

end Loader

end VerAI
