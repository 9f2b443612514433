import VerAI.Loader.Dependences
/-!
# Whether the dependence check and the input binding agree

`check_dependences` and `set_inputs` read the same entries, each in its own
way. The first looks at the important ones only, and takes a list or a
dictionary for the names in it. The second looks at all of them, and takes
the text of whatever the value is for one name. They agree on an item whose
important values are strings and whose optional ones can be bound as well.

What a turn of `set_inputs` passes to `set_input` depends on the entry and
on what is created alone (`inputCall`), so that it can be told what has been
set where two entries are about one input.
-/

namespace VerAI

namespace Loader

section

variable [Unicode] {T : Type} {created : Dict (Dict T)} {b b' : Base T} {d : Dependence}
  {jsonItem : Item}

/-- `created_components[obj_name][var_name]`. -/
def outputOf (created : Dict (Dict T)) (obj var : String) : Option T :=
  (created.lookup obj).bind fun outputs => outputs.lookup var

/-- **The call of `set_input`** in a turn of the loop of `set_inputs`, if it
makes one. -/
def inputCall (created : Dict (Dict T)) (d : Dependence) : Except Exn (Option (Json × T)) := do
  let value ← getKey "value" d.value
  let (objName, varName) ← unpackDot value.toStr
  match created.lookup objName with
  | none => return none
  | some outputs =>
    match outputs.lookup varName with
    | none => .error ⟨.valueError, "Ca't find dependence value"⟩
    | some tensor =>
      let name ← getKey "name" d.name
      return some (name, tensor)

/-- **A turn is that call.** -/
theorem bindInput_eq (created : Dict (Dict T)) (b : Base T) (d : Dependence) :
    bindInput created b d = inputCall created d >>= fun
      | none => .ok b
      | some (name, tensor) => b.setInput name tensor := by
  unfold bindInput inputCall
  cases d.value with
  | none => rfl
  | some value =>
    simp only [getKey_some, ok_bind]
    cases unpackDot value.toStr with
    | error e => rfl
    | ok pair =>
      simp only [ok_bind]
      cases created.lookup pair.1 with
      | none => rfl
      | some outputs =>
        dsimp only
        cases outputs.lookup pair.2 with
        | none => rfl
        | some tensor => cases d.name <;> rfl

omit [Unicode] in
theorem outputOf_eq_some {obj var : String} {tensor : T} : outputOf created obj var = some tensor ↔
    ∃ outputs, created.lookup obj = some outputs ∧ outputs.lookup var = some tensor :=
  Option.bind_eq_some_iff

omit [Unicode] in
theorem recorded_iff_outputOf {obj var : String} :
    Recorded created obj var ↔ ∃ tensor, outputOf created obj var = some tensor := by
  constructor
  · rintro ⟨outputs, hl, hv⟩
    obtain ⟨tensor, ht⟩ := Option.isSome_iff_exists.mp (AList.lookup_isSome.mpr hv)
    exact ⟨tensor, outputOf_eq_some.mpr ⟨outputs, hl, ht⟩⟩
  · rintro ⟨tensor, ht⟩
    obtain ⟨outputs, hl, hv⟩ := outputOf_eq_some.mp ht
    exact ⟨outputs, hl, AList.lookup_isSome.mp (by simp [hv])⟩

theorem Resolves.unique {tensor tensor' : T} (h : Resolves created d tensor)
    (h' : Resolves created d tensor') : tensor = tensor' := by
  obtain ⟨obj, var, htarget, hout⟩ := h
  obtain ⟨obj', var', htarget', hout'⟩ := h'
  obtain ⟨rfl, rfl⟩ := htarget.unique htarget'
  exact Option.some.inj ((outputOf_eq_some.mpr hout).symm.trans (outputOf_eq_some.mpr hout'))

/-- An entry whose text names a created output makes the call. -/
theorem inputCall_of_resolves {name : Json} {tensor : T} (hn : d.name = some name)
    (h : Resolves created d tensor) : inputCall created d = .ok (some (name, tensor)) := by
  obtain ⟨obj, var, ⟨value, hv, hsplit⟩, outputs, hl, ht⟩ := h
  simp only [inputCall, hv, getKey_some, ok_bind, unpackDot_eq_ok.mpr hsplit, hl, ht, hn]
  rfl

/-- The text of the entry reads as a name, and where the component is created
it has the output. -/
def Reads (created : Dict (Dict T)) (d : Dependence) : Prop :=
  ∃ obj var, Target d obj var ∧ (obj ∈ created → Recorded created obj var)

/-- **A turn that does not raise.** -/
theorem reads_of_inputCall {c : Option (Json × T)} (h : inputCall created d = .ok c) :
    Reads created d ∧ ∀ name tensor, c = some (name, tensor) → Resolves created d tensor := by
  unfold inputCall at h
  obtain ⟨value, hv, h⟩ := bind_eq_ok.mp h
  obtain ⟨⟨obj, var⟩, hp, h⟩ := bind_eq_ok.mp h
  have htarget : Target d obj var := ⟨value, getKey_eq_ok.mp hv, unpackDot_eq_ok.mp hp⟩
  cases hl : created.lookup obj with
  | none =>
    simp only [hl] at h
    cases h
    refine ⟨⟨obj, var, htarget, fun hmem => ?_⟩, fun _ _ h => by cases h⟩
    simp [← AList.lookup_isSome, hl] at hmem
  | some outputs =>
    simp only [hl] at h
    cases hvar : outputs.lookup var with
    | none =>
      simp only [hvar] at h
      cases h
    | some tensor =>
      simp only [hvar] at h
      obtain ⟨name, -, h⟩ := bind_eq_ok.mp h
      have hmem : var ∈ outputs := AList.lookup_isSome.mp (by simp [hvar])
      refine ⟨⟨obj, var, htarget, fun _ => ⟨outputs, hl, hmem⟩⟩, fun name' tensor' heq => ?_⟩
      cases h
      cases heq
      exact ⟨obj, var, htarget, outputs, hl, hvar⟩

/-- **What the loop of `set_inputs` does where it returns**: each turn
returns. -/
theorem inputCall_of_bindInputs {ds : List Dependence} (h : bindInputs created ds b = .ok b') :
    ∀ d ∈ ds, ∃ c, inputCall created d = .ok c := by
  induction ds generalizing b with
  | nil => exact fun d hd => absurd hd List.not_mem_nil
  | cons e ds ih =>
    obtain ⟨b₁, hb, hds⟩ := bindInputs_cons_ok.mp h
    rw [bindInput_eq] at hb
    obtain ⟨c, hc, -⟩ := bind_eq_ok.mp hb
    exact List.forall_mem_cons.mpr ⟨⟨c, hc⟩, ih hds⟩

/-! ## The check -/

/-- The value is a list or a dictionary. -/
def Dependence.isListed (d : Dependence) : Bool := d.value.any Json.isCollection

/-- An entry whose value is no list names what its text reads as. -/
theorem depList_eq_ok_of_not_listed {deps : List (String × String)} (hlist : d.isListed = false)
    (h : depList d = .ok deps) : ∃ obj var, deps = [(obj, var)] ∧ Target d obj var := by
  unfold depList at h
  obtain ⟨value, hv, h⟩ := bind_eq_ok.mp h
  have hv' : d.value = some value := getKey_eq_ok.mp hv
  have hnot : value.isCollection = false := by simpa [Dependence.isListed, hv'] using hlist
  rw [hnot] at h
  obtain ⟨⟨obj, var⟩, hp, h⟩ := bind_eq_ok.mp h
  cases h
  exact ⟨obj, var, rfl, value, hv', unpackDot_eq_ok.mp hp⟩

/-- Where the check is passed every important entry has been parsed. -/
theorem depList_of_checkDependences (h : checkDependences jsonItem created = .ok true) :
    ∀ d ∈ jsonItem.inputs, d.isImportant = true → ∃ deps, depList d = .ok deps := by
  unfold checkDependences at h
  generalize jsonItem.inputs = ds at h
  induction ds with
  | nil => exact fun d hd => absurd hd List.not_mem_nil
  | cons e ds ih =>
    rw [checkInputs] at h
    by_cases he : e.isImportant = true
    · rw [if_pos he] at h
      obtain ⟨deps, hdeps, h⟩ := bind_eq_ok.mp h
      obtain ⟨found, -, h⟩ := bind_eq_ok.mp h
      cases found with
      | false => cases h
      | true => exact List.forall_mem_cons.mpr ⟨fun _ => ⟨deps, hdeps⟩, ih h⟩
    · rw [if_neg he] at h
      exact List.forall_mem_cons.mpr ⟨fun himp => absurd himp he, ih h⟩

/-! ## Agreement -/

/-- An item's input names are declared. -/
def Declares (b : Base T) (jsonItem : Item) : Prop :=
  ∀ d ∈ jsonItem.inputs, ∃ key, d.name = some (.str key) ∧ key ∈ b.inputs

/-- Every name in an important entry has been set as its input, and is what
the input holds where no two entries are about one input. -/
def AllSet (created : Dict (Dict T)) (jsonItem : Item) (b' : Base T) : Prop :=
  ∀ d ∈ jsonItem.inputs, d.isImportant = true → ∀ deps, depList d = .ok deps → ∀ p ∈ deps,
    ∃ key tensor, outputOf created p.1 p.2 = some tensor ∧
      inputCall created d = .ok (some (.str key, tensor)) ∧
      ((jsonItem.inputs.map Dependence.name).Nodup → b'.inputValue key = some tensor)

/-- **Check and binding agree** on an item: once the check is passed the
binding returns, with every important input set. -/
def Agree (b : Base T) (jsonItem : Item) (created : Dict (Dict T)) : Prop :=
  checkDependences jsonItem created = .ok true →
    ∃ b', setInputs b jsonItem created = .ok b' ∧ AllSet created jsonItem b'

/-- The binding can read an entry: an optional one has a text that names an
output, and an important list is read by its text as by its elements. -/
def Readable (created : Dict (Dict T)) (d : Dependence) : Prop :=
  (d.isImportant = false → Reads created d) ∧
  (d.isImportant = true → d.isListed = true → Reads created d ∧
    ∀ deps, depList d = .ok deps → ∀ p ∈ deps, ∃ tensor, outputOf created p.1 p.2 = some tensor ∧
      Resolves created d tensor)

/-- **What the check and `Readable` give**: each important name resolves. -/
theorem resolves_of_readable (h : checkDependences jsonItem created = .ok true)
    (hd : d ∈ jsonItem.inputs) (hr : Readable created d) (himp : d.isImportant = true)
    {deps : List (String × String)} (hdeps : depList d = .ok deps) {p : String × String}
    (hp : p ∈ deps) :
    ∃ tensor, outputOf created p.1 p.2 = some tensor ∧ Resolves created d tensor := by
  by_cases hlist : d.isListed = true
  · exact (hr.2 himp hlist).2 deps hdeps p hp
  · obtain ⟨obj, var, rfl, htarget⟩ :=
      depList_eq_ok_of_not_listed (Bool.eq_false_iff.mpr hlist) hdeps
    obtain rfl := List.mem_singleton.mp hp
    obtain ⟨tensor, ht⟩ :=
      recorded_iff_outputOf.mp (checkDependences_true h ⟨d, hd, himp, _, hdeps, hp⟩)
    exact ⟨tensor, ht, obj, var, htarget, outputOf_eq_some.mp ht⟩

theorem reads_of_readable (h : checkDependences jsonItem created = .ok true)
    (hd : d ∈ jsonItem.inputs) (hr : Readable created d) : Reads created d := by
  by_cases himp : d.isImportant = true
  · by_cases hlist : d.isListed = true
    · exact (hr.2 himp hlist).1
    · obtain ⟨deps, hdeps⟩ := depList_of_checkDependences h d hd himp
      obtain ⟨obj, var, rfl, htarget⟩ :=
        depList_eq_ok_of_not_listed (Bool.eq_false_iff.mpr hlist) hdeps
      exact ⟨obj, var, htarget, fun _ =>
        checkDependences_true h ⟨d, hd, himp, _, hdeps, List.mem_singleton_self _⟩⟩
  · exact hr.1 (Bool.eq_false_iff.mpr himp)

/-- **When check and binding agree.** -/
theorem agree_iff (hdecl : Declares b jsonItem) : Agree b jsonItem created ↔
    (checkDependences jsonItem created = .ok true →
      ∀ d ∈ jsonItem.inputs, Readable created d) := by
  constructor
  · intro hagree hcheck d hd
    obtain ⟨b', hb', hset⟩ := hagree hcheck
    obtain ⟨c, hc⟩ := inputCall_of_bindInputs hb' d hd
    refine ⟨fun _ => (reads_of_inputCall hc).1, fun himp _ => ⟨(reads_of_inputCall hc).1, ?_⟩⟩
    intro deps hdeps p hp
    obtain ⟨key, tensor, hout, hcall, -⟩ := hset d hd himp deps hdeps p hp
    exact ⟨tensor, hout, (reads_of_inputCall hcall).2 _ _ rfl⟩
  · intro hread hcheck
    have hall := hread hcheck
    obtain ⟨b', hb'⟩ := bindInputs_returns
      (fun d hd => reads_of_readable hcheck hd (hall d hd)) hdecl
    refine ⟨b', hb', fun d hd himp deps hdeps p hp => ?_⟩
    obtain ⟨tensor, hout, hres⟩ := resolves_of_readable hcheck hd (hall d hd) himp hdeps hp
    obtain ⟨key, hn, -⟩ := hdecl d hd
    refine ⟨key, tensor, hout, inputCall_of_resolves hn hres, fun hnodup => ?_⟩
    obtain ⟨key', hn', d', -, -, tensor', hres', hval, huniq⟩ := bindInputs_bound hb' hd hres
    obtain rfl := huniq hnodup
    obtain rfl : key' = key := by simpa using hn'.symm.trans hn
    rw [hval, hres'.unique hres]

end

attribute [local instance] latin1

/-- A component with one input `x`. -/
def adder : Base String where
  name := "adder"
  inputs := List.toAList [⟨"x", ⟨"", none, true⟩⟩]
  outputs := ∅
  params := ∅
  properties := List.toAList [⟨"version", .null⟩, ⟨"component_type", .null⟩, ⟨"timestamp", .null⟩]
  propertyKeys := rfl

/-- Two components, each with an output `result`. -/
def twoCreated : Dict (Dict String) :=
  List.toAList [⟨"weights", List.toAList [⟨"result", "w"⟩]⟩,
    ⟨"bias", List.toAList [⟨"result", "b"⟩]⟩]

/-- An item whose one entry, for `x`, has this value. -/
def inputItem (value : Json) : Item where
  className := none
  version := none
  componentType := none
  timestamp := none
  inputs := [⟨some (.str "x"), some value, none⟩]
  params := []

theorem declares_inputItem (value : Json) : Declares adder (inputItem value) := by
  intro d hd
  obtain rfl := List.mem_singleton.mp hd
  exact ⟨"x", rfl, by decide⟩

/-- A value that is one name. -/
theorem agree_string :
    checkDependences (inputItem (.str "weights.result")) twoCreated = .ok true ∧
      Agree adder (inputItem (.str "weights.result")) twoCreated := by
  refine ⟨rfl, (agree_iff (declares_inputItem _)).mpr fun _ d hd => ?_⟩
  obtain rfl := List.mem_singleton.mp hd
  exact ⟨(fun h => by cases h), fun _ h => by cases h⟩

/-- **A value that is a list of two names**: the check is passed, and the
binding raises. -/
theorem agree_not_list : ¬ ∀ (b : Base String) (jsonItem : Item) (created : Dict (Dict String)),
    Declares b jsonItem → Agree b jsonItem created := by
  intro h
  have hitem := h adder (inputItem (.arr [.str "weights.result", .str "bias.result"])) twoCreated
    (declares_inputItem _)
  have hcheck : checkDependences (inputItem (.arr [.str "weights.result", .str "bias.result"]))
      twoCreated = .ok true := by rfl
  obtain ⟨b', hb', -⟩ := hitem hcheck
  have hraise : setInputs adder (inputItem (.arr [.str "weights.result", .str "bias.result"]))
      twoCreated = .error ⟨.valueError, "too many values to unpack (expected 2)"⟩ := by rfl
  rw [hraise] at hb'
  cases hb'

end Loader

end VerAI
