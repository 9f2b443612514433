import VerAI.Lib.Loop
import VerAI.Loader.Component
/-!
# The bulk setters — `set_inputs`, `set_outputs`, `set_params`, `set_properties`

Each goes through the dictionary it is given and sets one key after the
other; a key is checked when its turn comes, so what an error leaves depends
on the keys before it. `Bulk` is what such a call can come to, and
`setMany_bulk` the one proof for the four.
-/

namespace VerAI

namespace Loader

open Loop

/-- What is iterated over in `d.items()`: one entry a key, in the order of
the dictionary. -/
structure Items (β : Type) where
  items : List (Json × β)
  nodup : (items.map Prod.fst).Nodup

section

variable [Unicode]

/-- `_set_params_value_in_obj`. -/
def setParamsValueInObj {ν : Type} (obj : Dict (Param ν)) (params : Items ν) :
    Dict (Param ν) × Except Exn Unit :=
  forEach (fun obj p => setParamValueInObj obj p.1 p.2) obj params.items

namespace Base

variable {T : Type}

def setInputs (b : Base T) (inputs : Items T) : Base T × Except Exn Unit :=
  let r := setParamsValueInObj b.inputs inputs
  ({ b with inputs := r.1 }, r.2)

def setOutputs (b : Base T) (outputs : Items T) : Base T × Except Exn Unit :=
  let r := setParamsValueInObj b.outputs outputs
  ({ b with outputs := r.1 }, r.2)

def setParams (b : Base T) (params : Items Json) : Base T × Except Exn Unit :=
  let r := setParamsValueInObj b.params params
  ({ b with params := r.1 }, r.2)

/-- `set_property` with any key. Lists and dictionaries are no keys at all. -/
def setPropertyOf (b : Base T) (property value : Json) : Except Exn (Base T) :=
  match property with
  | .arr _ => .error ⟨.typeError, "unhashable type: 'list'"⟩
  | .obj _ => .error ⟨.typeError, "unhashable type: 'OrderedDict'"⟩
  | .str property => b.setProperty property value
  | property => .error ⟨.valueError, property.toStr ++ " is not a module property"⟩

def setProperties (b : Base T) (properties : Items Json) : Base T × Except Exn Unit :=
  forEach (fun b p => b.setPropertyOf p.1 p.2) b properties.items

end Base

end

/-! ## What a bulk setter comes to -/

variable {α β : Type}

/-- The key is one of the dictionary's. -/
def Declared (obj : Dict α) (key : Json) : Prop := ∃ name, key = .str name ∧ name ∈ obj

/-- **Every key of the items is assigned and nothing else is changed.**
`put` is what an assignment makes of an entry. -/
structure Assigns (put : β → α → α) (items : List (Json × β)) (obj obj' : Dict α) : Prop where
  keys : obj'.keys = obj.keys
  declared : ∀ key value, (key, value) ∈ items → Declared obj key
  assigned : ∀ name value, (.str name, value) ∈ items →
    obj'.lookup name = (obj.lookup name).map (put value)
  kept : ∀ name, (∀ value, (.str name, value) ∉ items) → obj'.lookup name = obj.lookup name

/-- **What a bulk setter leaves and whether it returns**: every key is
assigned, or the first key that is not declared raises what setting that key
alone raises, and exactly the keys before it are assigned. -/
inductive Bulk (put : β → α → α) (assign : Dict α → Json → β → Except Exn (Dict α))
    (items : List (Json × β)) (obj : Dict α) : Dict α × Except Exn Unit → Prop
  | all {obj' : Dict α} : Assigns put items obj obj' → Bulk put assign items obj (obj', .ok ())
  | stopped {pre post : List (Json × β)} {key : Json} {value : β} {obj' : Dict α} {e : Exn} :
      items = pre ++ (key, value) :: post → ¬ Declared obj key → assign obj key value = .error e →
      Assigns put pre obj obj' → Bulk put assign items obj (obj', .error e)

/-- All of it, or an error and nothing. -/
def AllOrNothing (put : β → α → α) (items : List (Json × β)) (obj : Dict α)
    (r : Dict α × Except Exn Unit) : Prop :=
  r.2 = .ok () ∧ Assigns put items obj r.1 ∨
    (∃ e, r.2 = .error e) ∧ (∃ p ∈ items, ¬ Declared obj p.1) ∧ r.1 = obj

/-- A setter of one key: it assigns a declared one and refuses the others,
with an error that depends on the declarations only. -/
structure Setter (put : β → α → α) (assign : Dict α → Json → β → Except Exn (Dict α)) : Prop where
  assigns : ∀ obj name p value, obj.lookup name = some p →
    assign obj (.str name) value = .ok (obj.replace name (put value p))
  refuses : ∀ (obj : Dict α) key value, ¬ Declared obj key →
    ∃ e, ∀ obj' : Dict α, obj'.keys = obj.keys → assign obj' key value = .error e

theorem declared_iff_of_keys {obj obj' : Dict α} (h : obj'.keys = obj.keys) (key : Json) :
    Declared obj' key ↔ Declared obj key := by
  simp only [Declared, AList.mem_keys, h]

/-- A declared key has an entry. -/
theorem Declared.lookup {obj : Dict α} {key : Json} (h : Declared obj key) :
    ∃ name p, key = .str name ∧ obj.lookup name = some p := by
  obtain ⟨name, rfl, hmem⟩ := h
  obtain ⟨p, hp⟩ := Option.isSome_iff_exists.mp (AList.lookup_isSome.mpr hmem)
  exact ⟨name, p, rfl, hp⟩

theorem Assigns.nil {put : β → α → α} {obj : Dict α} : Assigns put [] obj obj :=
  ⟨rfl, nofun, nofun, fun _ _ => rfl⟩

/-- One key more in front, where no later item has it. -/
theorem Assigns.cons {put : β → α → α} {items : List (Json × β)} {obj obj' : Dict α}
    {name : String} {p : α} {value : β} (hp : obj.lookup name = some p)
    (hnew : .str name ∉ items.map Prod.fst)
    (h : Assigns put items (obj.replace name (put value p)) obj') :
    Assigns put ((.str name, value) :: items) obj obj' := by
  have hmem : name ∈ obj := AList.lookup_isSome.mp (by simp [hp])
  have hfresh : ∀ value', (.str name, value') ∉ items := fun value' hin =>
    hnew (List.mem_map.mpr ⟨_, hin, rfl⟩)
  have hkeys : (obj.replace name (put value p)).keys = obj.keys := AList.keys_replace _ _ _
  refine ⟨h.keys.trans hkeys, fun key value' hin => ?_, fun name' value' hin => ?_,
    fun name' hout => ?_⟩
  · rcases List.mem_cons.mp hin with heq | hin
    · cases heq
      exact ⟨name, rfl, hmem⟩
    · exact (declared_iff_of_keys hkeys key).mp (h.declared key value' hin)
  · rcases List.mem_cons.mp hin with heq | hin
    · cases heq
      rw [h.kept name hfresh, lookup_replace_self hmem, hp, Option.map_some]
    · have hne : name' ≠ name := fun heq => hfresh value' (heq ▸ hin)
      rw [h.assigned name' value' hin, lookup_replace_ne hne]
  · have hne : name' ≠ name := fun heq => hout value (heq ▸ List.mem_cons_self)
    rw [h.kept name' fun value' hin => hout value' (List.mem_cons_of_mem _ hin),
      lookup_replace_ne hne]

section Setter

variable {put : β → α → α} {assign : Dict α → Json → β → Except Exn (Dict α)}

/-- What one pass that returns has done. -/
theorem Setter.ok (hset : Setter put assign) {obj obj' : Dict α} {key : Json} {value : β}
    (h : assign obj key value = .ok obj') :
    ∃ name p, key = .str name ∧ obj.lookup name = some p ∧
      obj' = obj.replace name (put value p) := by
  by_cases hd : Declared obj key
  · obtain ⟨name, p, rfl, hp⟩ := hd.lookup
    rw [hset.assigns obj name p value hp, Except.ok.injEq] at h
    exact ⟨name, p, rfl, hp, h.symm⟩
  · obtain ⟨e, he⟩ := hset.refuses obj key value hd
    rw [he obj rfl] at h
    cases h

/-- A pass is refused at a key that is not declared. -/
theorem Setter.error (hset : Setter put assign) {obj : Dict α} {key : Json} {value : β} {e : Exn}
    (h : assign obj key value = .error e) : ¬ Declared obj key := by
  intro hd
  obtain ⟨name, p, rfl, hp⟩ := hd.lookup
  rw [hset.assigns obj name p value hp] at h
  cases h

/-- A loop that goes through has assigned every key. -/
theorem Setter.assigns_of_forEach (hset : Setter put assign) {items : List (Json × β)}
    (hnodup : (items.map Prod.fst).Nodup) {obj obj' : Dict α}
    (h : forEach (fun obj p => assign obj p.1 p.2) obj items = (obj', .ok ())) :
    Assigns put items obj obj' := by
  induction items generalizing obj with
  | nil =>
    cases h
    exact .nil
  | cons item items ih =>
    obtain ⟨key, value⟩ := item
    obtain ⟨obj1, h1, hrest⟩ := forEach_cons_eq_ok h
    obtain ⟨name, p, rfl, hp, rfl⟩ := hset.ok h1
    rw [List.map_cons, List.nodup_cons] at hnodup
    exact (ih hnodup.2 hrest).cons hp hnodup.1

/-- **One key after the other.** The loop assigns everything, or it stops at
the first key that is not declared. -/
theorem setMany_bulk (hset : Setter put assign) (d : Items β) (obj : Dict α) :
    Bulk put assign d.items obj (forEach (fun obj p => assign obj p.1 p.2) obj d.items) := by
  rcases forEach_cases (fun obj p => assign obj p.1 p.2) obj d.items with
    ⟨obj', h⟩ | ⟨pre, ⟨key, value⟩, post, obj', e, hitems, hpre, hkey, h⟩
  · rw [h]
    exact .all (hset.assigns_of_forEach d.nodup h)
  · have hnodup : (pre.map Prod.fst).Nodup := by
      have hd := d.nodup
      rw [hitems, List.map_append] at hd
      exact hd.of_append_left
    have hassigns : Assigns put pre obj obj' := hset.assigns_of_forEach hnodup hpre
    have hundeclared : ¬ Declared obj key := fun hd =>
      hset.error hkey ((declared_iff_of_keys hassigns.keys key).mpr hd)
    obtain ⟨e', he'⟩ := hset.refuses obj key value hundeclared
    have he : e' = e := Except.error.inj ((he' obj' hassigns.keys).symm.trans hkey)
    rw [h]
    exact .stopped hitems hundeclared (he ▸ he' obj rfl) hassigns

end Setter

/-! ## The four setters -/

/-- Assigning to an entry of inputs, outputs or parameters. -/
def Param.put {ν : Type} (value : ν) (p : Param ν) : Param ν := { p with value := some value }

/-- Assigning to a property. -/
def putValue (value : Json) (_ : Json) : Json := value

theorem lookup_eq_none_of_not_declared {obj obj' : Dict α} {name : String}
    (h : obj'.keys = obj.keys) (hd : ¬ Declared obj (.str name)) : obj'.lookup name = none :=
  AList.lookup_eq_none.mpr fun hmem => hd ((declared_iff_of_keys h _).mp ⟨name, rfl, hmem⟩)

section

variable [Unicode]

/-- The message shows the declared names and nothing else of the dictionary. -/
theorem setParamValueInObj_of_keys {ν : Type} {obj obj' : Dict (Param ν)} {key : Json}
    (h : obj'.keys = obj.keys) (hd : ¬ Declared obj key) (value : ν) :
    setParamValueInObj obj' key value = setParamValueInObj obj key value := by
  cases key with
  | str name =>
    have hnone : obj.lookup name = none := lookup_eq_none_of_not_declared rfl hd
    have hnone' : obj'.lookup name = none := lookup_eq_none_of_not_declared h hd
    simp [setParamValueInObj, checkParamNameInObj, keysText, hnone, hnone', h]
  | _ => simp [setParamValueInObj, checkParamNameInObj, keysText, h]

/-- `_set_param_value_in_obj` is a setter of one key. -/
theorem setParamValueInObj_setter {ν : Type} :
    Setter (Param.put (ν := ν)) setParamValueInObj where
  assigns obj name p value hp := setParamValueInObj_str hp value
  refuses obj key value hd := by
    cases hset : setParamValueInObj obj key value with
    | error e => exact ⟨e, fun obj' h => (setParamValueInObj_of_keys h hd value).trans hset⟩
    | ok obj1 =>
      obtain ⟨name, p, rfl, hp, -⟩ := setParamValueInObj_ok hset
      exact absurd ⟨name, rfl, AList.lookup_isSome.mp (by simp [hp])⟩ hd

/-- What `set_property` does to the dictionary of the properties. -/
def setPropertyInObj (properties : Dict Json) (property value : Json) : Except Exn (Dict Json) :=
  match property with
  | .arr _ => .error ⟨.typeError, "unhashable type: 'list'"⟩
  | .obj _ => .error ⟨.typeError, "unhashable type: 'OrderedDict'"⟩
  | .str property =>
    if property ∈ properties then .ok (properties.replace property value)
    else .error ⟨.valueError, property ++ " is not a module property"⟩
  | property => .error ⟨.valueError, property.toStr ++ " is not a module property"⟩

theorem setPropertyInObj_setter : Setter putValue setPropertyInObj where
  assigns obj name p value hp := by
    have hmem : name ∈ obj := AList.lookup_isSome.mp (by simp [hp])
    rw [setPropertyInObj, if_pos hmem]
    rfl
  refuses obj key value hd := by
    cases key with
    | str name =>
      refine ⟨⟨.valueError, name ++ " is not a module property"⟩, fun obj' h => ?_⟩
      exact if_neg fun hmem => hd ((declared_iff_of_keys h _).mp ⟨name, rfl, hmem⟩)
    | arr elems => exact ⟨_, fun obj' _ => rfl⟩
    | obj entries => exact ⟨_, fun obj' _ => rfl⟩
    | null => exact ⟨_, fun obj' _ => rfl⟩
    | bool b => exact ⟨_, fun obj' _ => rfl⟩
    | int n => exact ⟨_, fun obj' _ => rfl⟩
    | float t => exact ⟨_, fun obj' _ => rfl⟩

namespace Base

variable {T : Type}

/-- `set_property` works on the properties alone. -/
theorem setPropertyOf_properties (b : Base T) (property value : Json) :
    (b.setPropertyOf property value).map properties =
      setPropertyInObj b.properties property value := by
  cases property with
  | str property =>
    by_cases hmem : property ∈ b.properties
    · simp [setPropertyOf, setProperty, setPropertyInObj, hmem, Except.map]
    · simp [setPropertyOf, setProperty, setPropertyInObj, hmem, Except.map]
  | _ => rfl

theorem setPropertyOf_other {b b' : Base T} {property value : Json}
    (h : b.setPropertyOf property value = .ok b') :
    b'.name = b.name ∧ b'.inputs = b.inputs ∧ b'.outputs = b.outputs ∧ b'.params = b.params := by
  cases property with
  | str property =>
    change b.setProperty property value = .ok b' at h
    unfold setProperty at h
    split at h
    · cases h
      exact ⟨rfl, rfl, rfl, rfl⟩
    · cases h
  | _ => cases h

/-- The loop of `set_properties`, on the properties alone. -/
theorem setProperties_properties (b : Base T) (d : Items Json) :
    forEach (fun obj p => setPropertyInObj obj p.1 p.2) b.properties d.items =
      ((b.setProperties d).1.properties, (b.setProperties d).2) :=
  forEach_map (fun s p => s.setPropertyOf_properties p.1 p.2) b d.items

theorem setProperties_other (b : Base T) (d : Items Json) :
    (b.setProperties d).1.name = b.name ∧ (b.setProperties d).1.inputs = b.inputs ∧
      (b.setProperties d).1.outputs = b.outputs ∧ (b.setProperties d).1.params = b.params := by
  refine forEach_invariant (I := fun s : Base T => s.name = b.name ∧ s.inputs = b.inputs ∧
    s.outputs = b.outputs ∧ s.params = b.params) (fun s p s' hs h => ?_) ⟨rfl, rfl, rfl, rfl⟩ _
  obtain ⟨hname, hinputs, houtputs, hparams⟩ := setPropertyOf_other h
  exact ⟨hname.trans hs.1, hinputs.trans hs.2.1, houtputs.trans hs.2.2.1,
    hparams.trans hs.2.2.2⟩

/-- **The bulk setters stop at the first key that is not declared.** Each of
the four assigns every key and changes nothing else, or raises at such a key
with exactly the keys before it assigned; its own dictionary is the only one
it touches. -/
theorem bulk_stops (b : Base T) :
    (∀ d : Items T, ∃ r, b.setInputs d = ({ b with inputs := r.1 }, r.2) ∧
      Bulk Param.put setParamValueInObj d.items b.inputs r) ∧
    (∀ d : Items T, ∃ r, b.setOutputs d = ({ b with outputs := r.1 }, r.2) ∧
      Bulk Param.put setParamValueInObj d.items b.outputs r) ∧
    (∀ d : Items Json, ∃ r, b.setParams d = ({ b with params := r.1 }, r.2) ∧
      Bulk Param.put setParamValueInObj d.items b.params r) ∧
    ∀ d : Items Json, ∃ r h,
      b.setProperties d = ({ b with properties := r.1, propertyKeys := h }, r.2) ∧
        Bulk putValue setPropertyInObj d.items b.properties r := by
  refine ⟨fun d => ⟨_, rfl, setMany_bulk setParamValueInObj_setter d _⟩,
    fun d => ⟨_, rfl, setMany_bulk setParamValueInObj_setter d _⟩,
    fun d => ⟨_, rfl, setMany_bulk setParamValueInObj_setter d _⟩, fun d => ?_⟩
  have hbulk := setMany_bulk setPropertyInObj_setter d b.properties
  rw [setProperties_properties] at hbulk
  refine ⟨_, (b.setProperties d).1.propertyKeys, ?_, hbulk⟩
  obtain ⟨hname, hinputs, houtputs, hparams⟩ := setProperties_other b d
  generalize b.setProperties d = r at hname hinputs houtputs hparams
  obtain ⟨⟨name, inputs, outputs, params, properties, hkeys⟩, res⟩ := r
  subst hname hinputs houtputs hparams
  rfl

end Base

end

attribute [local instance] latin1

/-- A component with the one input `x`. -/
def oneInput : Base ℕ where
  name := "adder"
  inputs := List.toAList [⟨"x", ⟨"", none, true⟩⟩]
  outputs := ∅
  params := ∅
  properties :=
    List.toAList [⟨"version", .str "1"⟩, ⟨"component_type", .null⟩, ⟨"timestamp", .null⟩]
  propertyKeys := rfl

/-- A key the component declares and one it does not. -/
def xAndY : Items ℕ where
  items := [(.str "x", 1), (.str "y", 2)]
  nodup := by simp

/-- `set_inputs` raises at `y` and leaves `x` assigned. -/
theorem xAndY_not_allOrNothing :
    ¬ AllOrNothing Param.put xAndY.items oneInput.inputs
      ((oneInput.setInputs xAndY).1.inputs, (oneInput.setInputs xAndY).2) := by
  rintro (⟨hok, -⟩ | ⟨-, -, hsame⟩)
  · cases hok
  · have hx := congrArg (fun obj : Dict (Param ℕ) => (obj.lookup "x").bind Param.value) hsame
    revert hx
    decide

end Loader

end VerAI
