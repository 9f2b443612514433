import VerAI.Loader.Component
import VerAI.Lib.RoundRobin
/-!
# The model loader — `main.py`

`create_components` keeps the names that are still to be created in a list
and walks it round robin: an item whose important inputs are all there is
created and taken out of the list, any other is passed by. The script's
module-level dictionaries are `Globals`; what it prints is left out.

The loop is written as the script writes it (`iteration`, `loop`), and
`iteration_eq_turn` reads it as a turn of a round-robin scan.
-/

namespace VerAI

namespace Loader

/-- An entry of `"inputs"`: `{"name": .., "value": .., "important": ..}`. -/
structure Dependence where
  name : Option Json
  value : Option Json
  important : Option Json

/-- An entry of `"params"`. -/
structure ItemParam where
  name : Option Json
  value : Option Json

/-- A component's item in the model file. Lists that are absent, `null` or
empty are the empty list: the script asks `"inputs" in json_item and
json_item["inputs"]`. -/
structure Item where
  className : Option Json
  version : Option Json
  componentType : Option Json
  timestamp : Option Json
  inputs : List Dependence
  params : List ItemParam

variable [Unicode] {T : Type}

/-- `"important" not in dependence.keys() or dependence["important"]`. -/
def Dependence.isImportant (d : Dependence) : Bool :=
  match d.important with
  | none => true
  | some v => v.truthy

/-- `dep_list` of one entry: the pairs its value names. -/
def depList (d : Dependence) : Except Exn (List (String × String)) := do
  let value ← getKey "value" d.value
  if value.isCollection then
    value.iter.mapM unpackElem
  else
    let dep ← unpackDot value.toStr
    return [dep]

/-- The loop over `dep_list`: `false` is "creation has been postponed". -/
def checkDepList (created : Dict (Dict T)) : List (String × String) → Except Exn Bool
  | [] => .ok true
  | (objName, varName) :: deps =>
    match created.lookup objName with
    | none => .ok false
    | some outputs =>
      if varName ∈ outputs then checkDepList created deps
      else .error ⟨.exception, "\x1b[93mCan't find dependence variable in object " ++ objName ++
        ": " ++ varName ++ "\x1b[0m"⟩

/-- The loop over `json_item["inputs"]`. -/
def checkInputs (created : Dict (Dict T)) : List Dependence → Except Exn Bool
  | [] => .ok true
  | d :: ds =>
    if d.isImportant then do
      let deps ← depList d
      let found ← checkDepList created deps
      if found then checkInputs created ds else return false
    else checkInputs created ds

/-- `check_dependences`. -/
def checkDependences (jsonItem : Item) (created : Dict (Dict T)) : Except Exn Bool :=
  checkInputs created jsonItem.inputs

/-- One turn of the loop of `set_inputs`. -/
def bindInput (created : Dict (Dict T)) (b : Base T) (d : Dependence) : Except Exn (Base T) := do
  let value ← getKey "value" d.value
  let (objName, varName) ← unpackDot value.toStr
  match created.lookup objName with
  | none => return b
  | some outputs =>
    match outputs.lookup varName with
    | none => .error ⟨.valueError, "Ca't find dependence value"⟩
    | some tensor =>
      let name ← getKey "name" d.name
      b.setInput name tensor

/-- The loop of `set_inputs`. -/
def bindInputs (created : Dict (Dict T)) : List Dependence → Base T → Except Exn (Base T)
  | [], b => .ok b
  | d :: ds, b => do
    let b ← bindInput created b d
    bindInputs created ds b

/-- `set_inputs`. -/
def setInputs (b : Base T) (jsonItem : Item) (created : Dict (Dict T)) : Except Exn (Base T) :=
  bindInputs created jsonItem.inputs b

/-- One turn of the loop of `set_params`: what it raises is printed and
dropped. -/
def setItemParam (b : Base T) (p : ItemParam) : Base T :=
  match (do let name ← getKey "name" p.name; let value ← getKey "value" p.value
            b.setParam name value) with
  | .ok b => b
  | .error _ => b

/-- `set_params`. -/
def setParams (b : Base T) (jsonItem : Item) : Base T := jsonItem.params.foldl setItemParam b

/-- `set_propertie`, with the item's entry under the property's name. -/
def setPropertie (b : Base T) (entry : Option Json) (propertyName : String) : Base T :=
  match entry with
  | none => b
  | some v =>
    match b.setProperty propertyName v with
    | .ok b => b
    | .error _ => b

/-- `set_properties`. -/
def setProperties (b : Base T) (jsonItem : Item) : Base T :=
  let b := setPropertie b jsonItem.version ComponentProperties.version
  let b := setPropertie b jsonItem.componentType ComponentProperties.type
  setPropertie b jsonItem.timestamp ComponentProperties.timestamp

/-- What a creation saw and made: the outputs recorded before it, the object
it handed to `init()` and what `init()` returned. -/
structure Creation (T : Type) where
  name : String
  before : Dict (Dict T)
  base : Base T
  outputs : Dict T

/-- The script's module-level dictionaries. `trace` is not one of them: it
lists the creations in the order they happened. -/
structure Globals (T : Type) where
  createdComponentsOutputs : Dict (Dict T)
  componentsInstance : Dict (Component T)
  componentsTrainJson : Dict Item
  componentsTestJson : Dict Item
  dataset : Option (Component T)
  trace : List (Creation T)

def Globals.empty : Globals T := ⟨∅, ∅, ∅, ∅, none, []⟩

/-- `value == text`. -/
def isText (value : Json) (text : String) : Bool :=
  match value with
  | .str s => s == text
  | _ => false

/-- The tail of a creation: what `create_components` records of the object
it has just initialised. -/
def record (g : Globals T) (itemName : String) (jsonItem : Item) (className : Json)
    (newObj : Component T) (results : Dict T) (type : Json) : Globals T where
  createdComponentsOutputs := g.createdComponentsOutputs.insert itemName results
  componentsInstance := g.componentsInstance.insert itemName newObj
  componentsTrainJson :=
    if isText type "train" then g.componentsTrainJson.insert itemName jsonItem
    else g.componentsTrainJson
  componentsTestJson :=
    if isText type "train" then g.componentsTestJson
    else if isText type "test" then g.componentsTestJson.insert itemName jsonItem
    else g.componentsTestJson
  dataset := if isText className "DataSet" then some newObj else g.dataset
  trace := g.trace ++ [⟨itemName, g.createdComponentsOutputs, newObj.base, results⟩]

/-- The body of `if ready_to_create:`, without the removal from the list. -/
def createComponent (loader : ComponentLoader T) (itemName : String) (jsonItem : Item)
    (g : Globals T) : Except Exn (Globals T) := do
  let className ← getKey "class" jsonItem.className
  let version ← getKey "version" jsonItem.version
  match loader.getComponentInstance className version itemName with
  | none => .error ⟨.valueError, "Can't find module instance: class_name = " ++ className.toStr ++
      ", version = " ++ version.toStr⟩
  | some newObj =>
    let base ← setInputs newObj.base jsonItem g.createdComponentsOutputs
    let base := setProperties (setParams base jsonItem) jsonItem
    let results ← newObj.cls.init base
    let type ← base.getProperty ComponentProperties.type
    return record g itemName jsonItem className ⟨newObj.cls, base⟩ results type

/-- The state at the head of the loop of `create_components`. -/
structure LoopState (T : Type) where
  jsonItems : List String
  i : ℕ
  globals : Globals T

/-- What indexing a list past its end raises. -/
def indexError : Exn := ⟨.indexError, "list index out of range"⟩

/-- **One iteration of `while len(json_items) > 0`.** The index advances
over the list as the iteration leaves it. -/
def iteration (loader : ComponentLoader T) (jsData : Dict Item) (s : LoopState T) :
    Except Exn (LoopState T) :=
  match s.jsonItems[s.i]? with
  | none => .error indexError
  | some itemName => do
    let jsonItem ← getKey itemName (jsData.lookup itemName)
    let readyToCreate ← checkDependences jsonItem s.globals.createdComponentsOutputs
    if readyToCreate then
      let globals ← createComponent loader itemName jsonItem s.globals
      let jsonItems := s.jsonItems.erase itemName
      return ⟨jsonItems, if s.i < jsonItems.length - 1 then s.i + 1 else 0, globals⟩
    else
      return { s with i := if s.i < s.jsonItems.length - 1 then s.i + 1 else 0 }

/-- The loop, for as many iterations as the fuel allows: `none` is a loop
still running. -/
def loop (loader : ComponentLoader T) (jsData : Dict Item) :
    ℕ → LoopState T → Option (Except Exn (Globals T))
  | 0, _ => none
  | fuel + 1, s =>
    if s.jsonItems = [] then some (.ok s.globals)
    else
      match iteration loader jsData s with
      | .error e => some (.error e)
      | .ok s' => loop loader jsData fuel s'

/-- Before the first iteration: `json_items = list(js_data.keys())`, `i = 0`. -/
def start (jsData : Dict Item) : LoopState T := ⟨jsData.keys, 0, .empty⟩

/-- `create_components`. -/
def createComponents (loader : ComponentLoader T) (jsData : Dict Item) (fuel : ℕ) :
    Option (Except Exn (Globals T)) :=
  loop loader jsData fuel (start jsData)

end Loader

end VerAI
