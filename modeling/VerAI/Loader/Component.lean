import VerAI.Loader.Json
/-!
# Components — `base.Base` and the component loader

A component declares its inputs, outputs and parameters in its constructor
and from then on only their values change: every setter refuses a name that
is not declared, and none adds one (`Base.SameShape`). Its class is what the
component loader knows of it: a name, a version, the constructor and
`init()`.
-/

namespace VerAI

namespace Loader

/-- An entry of a component's dictionaries; `value` is `none` for `None`. -/
structure Param (ν : Type) where
  description : String
  value : Option ν
  important : Bool

namespace ComponentProperties

def version : String := "version"

def type : String := "component_type"

def timestamp : String := "timestamp"

end ComponentProperties

/-- The state of a `base.Base` object. The constructor makes the three
properties and nothing adds or drops one. -/
structure Base (T : Type) where
  name : String
  inputs : Dict (Param T)
  outputs : Dict (Param T)
  params : Dict (Param Json)
  properties : Dict Json
  propertyKeys : properties.keys =
    [ComponentProperties.version, ComponentProperties.type, ComponentProperties.timestamp]

/-- `dict_keys([...])`, as a message shows `obj.keys()`. -/
def keysText [Unicode] {ν : Type} (obj : Dict ν) : String :=
  "dict_keys([" ++ String.intercalate ", " (obj.keys.map Json.reprStr) ++ "])"

/-- `_check_param_name_in_obj`. Lists and dictionaries are no keys at all. -/
def checkParamNameInObj [Unicode] {ν : Type} (obj : Dict (Param ν)) :
    Json → Except Exn (String × Param ν)
  | .arr _ => .error ⟨.typeError, "unhashable type: 'list'"⟩
  | .obj _ => .error ⟨.typeError, "unhashable type: 'OrderedDict'"⟩
  | .str name =>
    match obj.lookup name with
    | some p => .ok (name, p)
    | none => .error ⟨.valueError,
        "\"" ++ name ++ "\" did not match as key in dictionary (" ++ keysText obj ++ ")"⟩
  | name => .error ⟨.valueError,
      "\"" ++ name.toStr ++ "\" did not match as key in dictionary (" ++ keysText obj ++ ")"⟩

/-- `_set_param_value_in_obj`. -/
def setParamValueInObj [Unicode] {ν : Type} (obj : Dict (Param ν)) (name : Json) (value : ν) :
    Except Exn (Dict (Param ν)) :=
  match checkParamNameInObj obj name with
  | .error e => .error e
  | .ok (key, p) => .ok (obj.replace key { p with value := some value })

namespace Base

variable {T : Type}

def setInput [Unicode] (b : Base T) (name : Json) (value : T) : Except Exn (Base T) :=
  match setParamValueInObj b.inputs name value with
  | .error e => .error e
  | .ok inputs => .ok { b with inputs := inputs }

def setParam [Unicode] (b : Base T) (name value : Json) : Except Exn (Base T) :=
  match setParamValueInObj b.params name value with
  | .error e => .error e
  | .ok params => .ok { b with params := params }

/-- `get_property`. -/
def getProperty (b : Base T) (property : String) : Except Exn Json :=
  match b.properties.lookup property with
  | some v => .ok v
  | none => .error ⟨.valueError, property ++ " is not a module property"⟩

/-- `set_property`. -/
def setProperty (b : Base T) (property : String) (value : Json) : Except Exn (Base T) :=
  if property ∈ b.properties then
    .ok { b with
      properties := b.properties.replace property value
      propertyKeys := by rw [AList.keys_replace]; exact b.propertyKeys }
  else .error ⟨.valueError, property ++ " is not a module property"⟩

/-- The value an input holds, `none` where it is `None` or not declared. -/
def inputValue (b : Base T) (name : String) : Option T := (b.inputs.lookup name).bind Param.value

/-- **The same name and the same declarations.** What every setter keeps. -/
structure SameShape (b b' : Base T) : Prop where
  name : b'.name = b.name
  inputs : b'.inputs.keys = b.inputs.keys
  outputs : b'.outputs = b.outputs
  params : b'.params.keys = b.params.keys

end Base

variable {T : Type}

/-- Setting succeeds exactly at a declared name. -/
theorem setParamValueInObj_str [Unicode] {ν : Type} {obj : Dict (Param ν)} {key : String}
    {p : Param ν} (h : obj.lookup key = some p) (value : ν) :
    setParamValueInObj obj (.str key) value =
      .ok (obj.replace key { p with value := some value }) := by
  simp [setParamValueInObj, checkParamNameInObj, h]

/-- What a setter that returns has done. -/
theorem setParamValueInObj_ok [Unicode] {ν : Type} {obj obj' : Dict (Param ν)} {name : Json}
    {value : ν} (h : setParamValueInObj obj name value = .ok obj') :
    ∃ key p, name = .str key ∧ obj.lookup key = some p ∧
      obj' = obj.replace key { p with value := some value } := by
  unfold setParamValueInObj at h
  split at h
  · cases h
  · rename_i key p hc
    cases h
    refine ⟨key, p, ?_⟩
    unfold checkParamNameInObj at hc
    split at hc
    · cases hc
    · cases hc
    · split at hc
      · rename_i hl
        cases hc
        exact ⟨rfl, hl, rfl⟩
      · cases hc
    · cases hc

theorem lookup_replace_self {ν : Type} {obj : Dict ν} {key : String} (h : key ∈ obj) (v : ν) :
    (obj.replace key v).lookup key = some v := by
  obtain ⟨l, hl⟩ := obj
  change key ∈ l.keys at h
  change (l.kreplace key v).dlookup key = some v
  clear hl
  induction l with
  | nil => simp at h
  | cons e l ih =>
    obtain ⟨k, w⟩ := e
    by_cases hk : key = k
    · subst hk
      rw [List.kreplace, List.lookmap_cons_some _ _ (b := ⟨key, v⟩) (by simp)]
      exact List.dlookup_cons_eq _ _ _
    · rw [List.kreplace, List.lookmap_cons_none _ _ (by simp [hk]), List.dlookup_cons_ne _ _ hk]
      exact ih (by simpa [hk] using h)

theorem lookup_replace_ne {ν : Type} {obj : Dict ν} {key key' : String} (h : key' ≠ key) (v : ν) :
    (obj.replace key v).lookup key' = obj.lookup key' := by
  obtain ⟨l, hl⟩ := obj
  change (l.kreplace key v).dlookup key' = l.dlookup key'
  clear hl
  induction l with
  | nil => rfl
  | cons e l ih =>
    obtain ⟨k, w⟩ := e
    by_cases hk : key = k
    · subst hk
      rw [List.kreplace, List.lookmap_cons_some _ _ (b := ⟨key, v⟩) (by simp),
        List.dlookup_cons_ne _ _ h, List.dlookup_cons_ne _ _ h]
    · rw [List.kreplace, List.lookmap_cons_none _ _ (by simp [hk])]
      by_cases hk' : key' = k
      · subst hk'
        rw [List.dlookup_cons_eq, List.dlookup_cons_eq]
      · rw [List.dlookup_cons_ne _ _ hk', List.dlookup_cons_ne _ _ hk']
        exact ih

namespace Base

variable {b b' : Base T}

/-- What `set_input` does when it returns. -/
theorem setInput_ok [Unicode] {name : Json} {value : T} (h : b.setInput name value = .ok b') :
    ∃ key, name = .str key ∧ key ∈ b.inputs ∧ SameShape b b' ∧ b'.inputValue key = some value ∧
      ∀ key', key' ≠ key → b'.inputValue key' = b.inputValue key' := by
  unfold setInput at h
  split at h
  · cases h
  · rename_i inputs hs
    cases h
    obtain ⟨key, p, hn, hl, rfl⟩ := setParamValueInObj_ok hs
    have hmem : key ∈ b.inputs := AList.lookup_isSome.mp (by simp [hl])
    refine ⟨key, hn, hmem, ⟨rfl, AList.keys_replace _ _ _, rfl, rfl⟩, ?_, fun key' hne => ?_⟩
    · simp [inputValue, lookup_replace_self hmem]
    · simp [inputValue, lookup_replace_ne hne]

/-- `set_input` returns at every declared name. -/
theorem setInput_declared [Unicode] {key : String} (h : key ∈ b.inputs) (value : T) :
    ∃ b', b.setInput (.str key) value = .ok b' := by
  obtain ⟨p, hp⟩ := Option.isSome_iff_exists.mp (AList.lookup_isSome.mpr h)
  exact ⟨_, by rw [setInput, setParamValueInObj_str hp]⟩

theorem setParam_sameShape [Unicode] {name value : Json} (h : b.setParam name value = .ok b') :
    SameShape b b' ∧ b'.inputs = b.inputs := by
  unfold setParam at h
  split at h
  · cases h
  · rename_i params hs
    cases h
    obtain ⟨key, p, -, -, rfl⟩ := setParamValueInObj_ok hs
    exact ⟨⟨rfl, rfl, rfl, AList.keys_replace _ _ _⟩, rfl⟩

theorem setProperty_sameShape {property : String} {value : Json}
    (h : b.setProperty property value = .ok b') : SameShape b b' ∧ b'.inputs = b.inputs := by
  unfold setProperty at h
  split at h
  · cases h
    exact ⟨⟨rfl, rfl, rfl, rfl⟩, rfl⟩
  · cases h

/-- The three properties can always be read. -/
theorem getProperty_type (b : Base T) : ∃ v, b.getProperty ComponentProperties.type = .ok v := by
  have hmem : ComponentProperties.type ∈ b.properties := by
    rw [AList.mem_keys, b.propertyKeys]
    simp
  obtain ⟨v, hv⟩ := Option.isSome_iff_exists.mp (AList.lookup_isSome.mpr hmem)
  exact ⟨v, by simp [getProperty, hv]⟩

end Base

/-- What the loader knows of a component class: `CLASS_NAME`, `VERSION`,
the constructor `INSTANCE` and the class's `init`. -/
structure ModuleInfo (T : Type) where
  className : String
  version : String
  construct : String → Base T
  init : Base T → Except Exn (Dict T)

/-- An object: its class and its state. -/
structure Component (T : Type) where
  cls : ModuleInfo T
  base : Base T

/-- `self.__components.values()`. -/
abbrev ComponentLoader (T : Type) := List (ModuleInfo T)

/-- `get_component_instance`: the first module of that class and version. -/
def ComponentLoader.getComponentInstance (loader : ComponentLoader T) (className version : Json)
    (name : String) : Option (Component T) :=
  match className, version with
  | .str c, .str v =>
    match loader.find? fun m => m.className == c && m.version == v with
    | some m => some ⟨m, m.construct name⟩
    | none => none
  | _, _ => none

end Loader

end VerAI
