import Mathlib.Data.List.Basic
/-!
# Trees of named values

A node holds a text and its children, in order, each under a name; of two
children of one name the first counts. A path of names leads from a node to
one below it. `put` makes what is missing on the way.
-/

namespace PropertyTree

/-- A node: its text and its named children. -/
inductive Tree where
  | node (data : String) (children : List (String × Tree))

namespace Tree

def data : Tree → String
  | node data _ => data

def children : Tree → List (String × Tree)
  | node _ children => children

/-- The node with nothing in it. -/
def empty : Tree := node "" []

/-- The first child of that name. -/
def childOf (name : String) : List (String × Tree) → Option Tree
  | [] => none
  | (k, c) :: rest => if k = name then some c else childOf name rest

/-- The list with that child in the place of the first of its name, or at
the end. -/
def setChild (name : String) (c : Tree) : List (String × Tree) → List (String × Tree)
  | [] => [(name, c)]
  | (k, d) :: rest => if k = name then (k, c) :: rest else (k, d) :: setChild name c rest

/-- The node a path leads to. -/
def descend : List String → Tree → Option Tree
  | [], t => some t
  | name :: path, t => (childOf name t.children).bind (descend path)

/-- The text at a path. -/
def get (path : List String) (t : Tree) : Option String := (t.descend path).map data

/-- The tree with that text at a path. -/
def put : List String → String → Tree → Tree
  | [], v, t => node v t.children
  | name :: path, v, t =>
    node t.data (setChild name (put path v ((childOf name t.children).getD empty)) t.children)

variable {name : String} {path path' : List String} {v : String} {t c : Tree}
  {cs : List (String × Tree)}

@[simp] theorem data_node (d : String) (cs : List (String × Tree)) : (node d cs).data = d := rfl

@[simp] theorem children_node (d : String) (cs : List (String × Tree)) :
    (node d cs).children = cs := rfl

@[simp] theorem descend_nil : t.descend [] = some t := rfl

@[simp] theorem descend_cons :
    t.descend (name :: path) = (childOf name t.children).bind (descend path) := rfl

theorem node_data_children (t : Tree) : node t.data t.children = t := by
  cases t with
  | node data children => rfl

/-- Going down one path and then another. -/
theorem descend_append (t : Tree) (path path' : List String) :
    t.descend (path ++ path') = (t.descend path).bind (descend path') := by
  induction path generalizing t with
  | nil => rfl
  | cons name path ih =>
    rw [List.cons_append, descend_cons, descend_cons]
    cases childOf name t.children with
    | none => rfl
    | some c => exact ih c

/-- Where a path leads somewhere, so does each path it begins with. -/
theorem get_ne_none_of_append (path' : List String) (h : t.get (path ++ path') ≠ none) :
    t.get path ≠ none := by
  intro hnone
  rw [get, Option.map_eq_none_iff] at hnone
  rw [get, descend_append, hnone] at h
  exact h rfl

theorem childOf_setChild (name : String) (c : Tree) (cs : List (String × Tree)) :
    childOf name (setChild name c cs) = some c := by
  induction cs with
  | nil => simp [setChild, childOf]
  | cons kc cs ih =>
    obtain ⟨k, d⟩ := kc
    by_cases hk : k = name
    · simp [setChild, childOf, hk]
    · simp [setChild, childOf, hk, ih]

/-- Putting a child where it stands changes nothing. -/
theorem setChild_of_childOf (h : childOf name cs = some c) : setChild name c cs = cs := by
  induction cs with
  | nil => cases h
  | cons kc cs ih =>
    obtain ⟨k, d⟩ := kc
    by_cases hk : k = name
    · rw [childOf, if_pos hk, Option.some.injEq] at h
      rw [setChild, if_pos hk, h]
    · rw [childOf, if_neg hk] at h
      rw [setChild, if_neg hk, ih h]

/-- **What is put is what is read.** -/
theorem get_put (path : List String) (v : String) (t : Tree) :
    (t.put path v).get path = some v := by
  induction path generalizing t with
  | nil => rfl
  | cons name path ih =>
    have hchild := ih ((childOf name t.children).getD empty)
    rw [get] at hchild ⊢
    simp only [put, descend_cons, children_node, childOf_setChild, Option.bind_some]
    exact hchild

theorem childOf_setChild_of_ne {name' : String} (h : name' ≠ name) :
    childOf name' (setChild name c cs) = childOf name' cs := by
  induction cs with
  | nil => simp [setChild, childOf, h.symm]
  | cons kc cs ih =>
    obtain ⟨k, d⟩ := kc
    by_cases hk : k = name
    · simp [setChild, childOf, hk, h.symm]
    · simp [setChild, childOf, hk, ih]

/-- **What is put shows nowhere else**, but where nodes had to be made on the
way to it. -/
theorem get_put_of_apart (h : ¬ path' <+: path) : (t.put path v).get path' = t.get path' := by
  induction path generalizing t path' with
  | nil =>
    cases path' with
    | nil => exact absurd List.prefix_rfl h
    | cons name' path' => rfl
  | cons name path ih =>
    cases path' with
    | nil => exact absurd List.nil_prefix h
    | cons name' path' =>
      by_cases hn : name' = name
      · subst hn
        have htail : ¬ path' <+: path := fun hp => h (List.cons_prefix_cons.mpr ⟨rfl, hp⟩)
        have hchild : ((childOf name' t.children).getD empty).get path' =
            t.get (name' :: path') := by
          cases hc : childOf name' t.children with
          | some c => simp [get, hc]
          | none =>
            cases path' with
            | nil => exact absurd List.nil_prefix htail
            | cons name path' => simp [get, hc, empty, childOf]
        rw [← hchild, ← ih htail]
        simp only [get, put, descend_cons, children_node, childOf_setChild, Option.bind_some]
      · simp only [get, put, descend_cons, children_node, childOf_setChild_of_ne hn]

/-- **Putting what is read changes nothing.** -/
theorem put_of_get (h : t.get path = some v) : t.put path v = t := by
  induction path generalizing t with
  | nil =>
    rw [get, descend_nil, Option.map_some, Option.some.injEq] at h
    rw [put, ← h, node_data_children]
  | cons name path ih =>
    cases hc : childOf name t.children with
    | none => simp [get, hc] at h
    | some c =>
      have hget : c.get path = some v := by simpa [get, hc] using h
      rw [put, hc, Option.getD_some, ih hget, setChild_of_childOf hc, node_data_children]

mutual

/-- No node below has both a text and children. -/
def plain : Tree → Bool
  | node data children => (data == "" || children.isEmpty) && plainChildren children

def plainChildren : List (String × Tree) → Bool
  | [] => true
  | (_, c) :: rest => plain c && plainChildren rest

end

end Tree

end PropertyTree
