import Mathlib.Data.List.Basic
import Mathlib.Data.List.AList
/-!
# The loader's values — json, its python text, and what a script raises

A model file is read with `json.load(.., object_pairs_hook=OrderedDict)`,
so objects keep their order and print as `OrderedDict([...])`. The scripts
look at a value in four ways only: its truth, its `str()`, iteration over
it, and `split('.')`. An exception is its class and its message.

The text of a list shows its strings as literals, in which some characters
are escaped. Which of those past ASCII are is in the interpreter's Unicode
data, a parameter here (`Unicode`). Lone surrogates are no characters.
-/

namespace VerAI

namespace Loader

/-- Built-in classes of exceptions the loader meets, `base.Exception`
being the plain one `check_dependences` raises. -/
inductive ExnClass
  | exception
  | valueError
  | keyError
  | typeError
  | attributeError
  | indexError
  deriving DecidableEq, Repr

/-- A raised exception. -/
structure Exn where
  cls : ExnClass
  msg : String
  deriving DecidableEq, Repr

@[simp] theorem ok_bind {α β : Type} (a : α) (f : α → Except Exn β) : Except.ok a >>= f = f a := rfl

@[simp] theorem error_bind {α β : Type} (e : Exn) (f : α → Except Exn β) :
    Except.error e >>= f = .error e := rfl

/-- A sequence returns exactly where its first part returns and the rest
returns on that. -/
theorem bind_eq_ok {α β : Type} {x : Except Exn α} {f : α → Except Exn β} {r : β} :
    x >>= f = .ok r ↔ ∃ a, x = .ok a ∧ f a = .ok r := by
  cases x with
  | error e => simp
  | ok a => simp

/-- A json value as `json.load` builds it. A float is kept by the text
`str()` gives it. -/
inductive Json
  | null
  | bool (b : Bool)
  | int (n : ℤ)
  | float (text : String)
  | str (s : String)
  | arr (elems : List Json)
  | obj (entries : List (String × Json))

/-- **The Unicode data of the interpreter**: `str.isprintable` of a character
past ASCII. -/
class Unicode where
  isprintable : Char → Bool

/-- The data of the Latin-1 characters; the others pass for printable. -/
@[reducible] def latin1 : Unicode where
  isprintable c := decide (0xa0 < c.toNat ∧ c.toNat ≠ 0xad)

/-- A dictionary with string keys: one entry a key. -/
abbrev Dict (ν : Type) := AList fun _ : String => ν

namespace Json

/-- `bool(value)`. -/
def truthy : Json → Bool
  | null => false
  | bool b => b
  | int n => n != 0
  | float text => text != "0.0" && text != "-0.0"
  | str s => s != ""
  | arr elems => !elems.isEmpty
  | obj entries => !entries.isEmpty

/-- The last digits of a number, base sixteen. -/
def hexDigits : ℕ → ℕ → List Char
  | 0, _ => []
  | k + 1, n => hexDigits k (n / 16) ++ [Nat.digitChar (n % 16)]

/-- A character of a string literal that `repr` quotes with `quote`. -/
def reprChar [Unicode] (quote c : Char) : String :=
  if c = '\\' then "\\\\"
  else if c = quote then String.ofList ['\\', c]
  else if c = '\n' then "\\n"
  else if c = '\r' then "\\r"
  else if c = '\t' then "\\t"
  else if c.toNat < 32 ∨ c.toNat = 127 then "\\x" ++ String.ofList (hexDigits 2 c.toNat)
  else if c.toNat < 127 ∨ Unicode.isprintable c then String.ofList [c]
  else if c.toNat < 0x100 then "\\x" ++ String.ofList (hexDigits 2 c.toNat)
  else if c.toNat < 0x10000 then "\\u" ++ String.ofList (hexDigits 4 c.toNat)
  else "\\U" ++ String.ofList (hexDigits 8 c.toNat)

/-- `repr(s)` of a string: single quotes, unless only double ones save
escaping. -/
def reprStr [Unicode] (s : String) : String :=
  let quote := if '\'' ∈ s.toList ∧ '"' ∉ s.toList then '"' else '\''
  String.ofList [quote] ++ String.join (s.toList.map (reprChar quote)) ++ String.ofList [quote]

mutual

/-- `repr(value)`. -/
def repr [Unicode] : Json → String
  | null => "None"
  | bool b => if b then "True" else "False"
  | int n => toString n
  | float text => text
  | str s => reprStr s
  | arr elems => "[" ++ String.intercalate ", " (reprElems elems) ++ "]"
  | obj [] => "OrderedDict()"
  | obj entries => "OrderedDict([" ++ String.intercalate ", " (reprEntries entries) ++ "])"

def reprElems [Unicode] : List Json → List String
  | [] => []
  | v :: vs => repr v :: reprElems vs

def reprEntries [Unicode] : List (String × Json) → List String
  | [] => []
  | (k, v) :: es => ("(" ++ reprStr k ++ ", " ++ repr v ++ ")") :: reprEntries es

end

/-- `str(value)`: a string is its own text. -/
def toStr [Unicode] : Json → String
  | str s => s
  | v => repr v

@[simp] theorem toStr_str [Unicode] (s : String) : toStr (str s) = s := rfl

/-- `isinstance(value, dict) or isinstance(value, list)`. -/
def isCollection : Json → Bool
  | arr _ => true
  | obj _ => true
  | _ => false

/-- What `for obj in value` yields: the elements, or the keys. -/
def iter : Json → List Json
  | arr elems => elems
  | obj entries => entries.map fun e => str e.1
  | _ => []

/-- The name `type(value)` has in messages. -/
def typeName : Json → String
  | null => "NoneType"
  | bool _ => "bool"
  | int _ => "int"
  | float _ => "float"
  | str _ => "str"
  | arr _ => "list"
  | obj _ => "OrderedDict"

end Json

/-- `s.split('.')`. -/
def splitDot (s : String) : List String := (s.toList.splitOn '.').map String.ofList

/-- `dep_obj_name, dep_var_name = s.split('.')`. -/
def unpackDot (s : String) : Except Exn (String × String) :=
  match splitDot s with
  | [obj, var] => .ok (obj, var)
  | [_] => .error ⟨.valueError, "not enough values to unpack (expected 2, got 1)"⟩
  | _ => .error ⟨.valueError, "too many values to unpack (expected 2)"⟩

/-- `obj.split('.')` of an element that need not be a string. -/
def unpackElem : Json → Except Exn (String × String)
  | .str s => unpackDot s
  | v => .error ⟨.attributeError, "'" ++ v.typeName ++ "' object has no attribute 'split'"⟩

/-- `d[key]`. -/
def getKey {ν : Type} (key : String) : Option ν → Except Exn ν
  | some v => .ok v
  | none => .error ⟨.keyError, "'" ++ key ++ "'"⟩

@[simp] theorem getKey_some {ν : Type} (key : String) (v : ν) : getKey key (some v) = .ok v := rfl

theorem getKey_eq_ok {ν : Type} {key : String} {o : Option ν} {v : ν} :
    getKey key o = .ok v ↔ o = some v := by
  cases o with
  | none => simp [getKey]
  | some w => simp

/-- A string splits in two exactly where it is two dot-free parts around
one dot. -/
theorem unpackDot_eq_ok {s obj var : String} :
    unpackDot s = .ok (obj, var) ↔ splitDot s = [obj, var] := by
  unfold unpackDot
  split
  · rename_i o v h
    simp [h]
  · rename_i h
    simp [h]
  · rename_i h1 _
    constructor
    · intro h
      cases h
    · intro h
      exact absurd h (h1 obj var)

example : unpackDot "ZerosW.result" = .ok ("ZerosW", "result") := by decide

section Latin1

attribute [local instance] latin1

example : Json.toStr (.arr [.str "a.b", .int 3]) = "['a.b', 3]" := by decide

example : Json.toStr (.arr [.str "é\u00a0"]) = "['é\\xa0']" := by decide

end Latin1

end Loader

end VerAI
