import Mathlib.Logic.Function.Basic
import Mathlib.Data.Nat.Notation
/-!
# Named files

Names stand for files, and a file holds what was last written to it. A name
that is removed leaves its file to those who have opened it: they write to it
still, and nobody reads it by name. No two names stand for one file, and the
next file made has a number no name has.
-/

namespace Transition

universe u v

/-- What the names stand for, and what the files hold. -/
structure FileStore (κ : Type u) (β : Type v) where
  names : κ → Option ℕ
  content : ℕ → β
  fresh : ℕ
  lt_fresh : ∀ {name n}, names name = some n → n < fresh
  unique : ∀ {name name' n}, names name = some n → names name' = some n → name = name'

namespace FileStore

variable {κ : Type u} {β : Type v} {fs : FileStore κ β} {name name' : κ} {n : ℕ}
  {b : β}

/-- No files. -/
def empty (b : β) : FileStore κ β := ⟨fun _ => none, fun _ => b, 0, nofun, nofun⟩

/-- There is a file of that name. -/
def has (name : κ) (fs : FileStore κ β) : Bool := (fs.names name).isSome

/-- What is read by a name. -/
def read (name : κ) (fs : FileStore κ β) : Option β := (fs.names name).map fs.content

/-- The store after `b` is written to the file `n`. -/
def write (n : ℕ) (b : β) (fs : FileStore κ β) : FileStore κ β :=
  { fs with content := Function.update fs.content n b }

theorem read_write (h : fs.names name = some n) : (fs.write n b).read name = some b := by
  simp [read, write, h]

/-- A name that stands for no file reads as none. -/
theorem read_of_not_has (h : fs.has name = false) : fs.read name = none := by
  rw [read, Option.map_eq_none_iff]
  exact Option.isSome_eq_false_iff.mp h |> Option.isNone_iff_eq_none.mp

/-- **Writing to the file of a name** leaves what the others read. -/
theorem read_write_of_ne (hn : fs.names name = some n) (h : name' ≠ name) :
    (fs.write n b).read name' = fs.read name' := by
  unfold read write
  rcases hname : fs.names name' with _ | n'
  · rfl
  · have hne : n' ≠ n := fun heq => h (fs.unique (heq ▸ hname) hn)
    simp [Function.update_of_ne hne]

/-- The store with the names moved: each stands for what `g` gives for it. -/
def reindex (g : κ → Option κ)
    (hg : ∀ {name name' old}, g name = some old → g name' = some old → name = name')
    (fs : FileStore κ β) : FileStore κ β where
  names name := (g name).bind fs.names
  content := fs.content
  fresh := fs.fresh
  lt_fresh h := by
    obtain ⟨old, -, hold⟩ := Option.bind_eq_some_iff.mp h
    exact fs.lt_fresh hold
  unique h h' := by
    obtain ⟨old, hold, hn⟩ := Option.bind_eq_some_iff.mp h
    obtain ⟨old', hold', hn'⟩ := Option.bind_eq_some_iff.mp h'
    obtain rfl := fs.unique hn hn'
    exact hg hold hold'

variable [DecidableEq κ]

/-- The store after a name is removed. -/
def remove (name : κ) (fs : FileStore κ β) : FileStore κ β where
  names := Function.update fs.names name none
  content := fs.content
  fresh := fs.fresh
  lt_fresh := by
    intro name' n h
    by_cases hname : name' = name
    · rw [hname, Function.update_self] at h
      cases h
    · rw [Function.update_of_ne hname] at h
      exact fs.lt_fresh h
  unique := by
    intro name1 name2 n h1 h2
    by_cases hname1 : name1 = name
    · rw [hname1, Function.update_self] at h1
      cases h1
    · by_cases hname2 : name2 = name
      · rw [hname2, Function.update_self] at h2
        cases h2
      · rw [Function.update_of_ne hname1] at h1
        rw [Function.update_of_ne hname2] at h2
        exact fs.unique h1 h2

/-- The store after a new file is made for a name. -/
def make (name : κ) (b : β) (fs : FileStore κ β) : FileStore κ β where
  names := Function.update fs.names name (some fs.fresh)
  content := Function.update fs.content fs.fresh b
  fresh := fs.fresh + 1
  lt_fresh := by
    intro name' n h
    by_cases hname : name' = name
    · rw [hname, Function.update_self] at h
      exact Option.some.inj h ▸ Nat.lt_succ_self _
    · rw [Function.update_of_ne hname] at h
      exact Nat.lt_succ_of_lt (fs.lt_fresh h)
  unique := by
    have hfresh : ∀ {name1 : κ}, fs.names name1 ≠ some fs.fresh := fun h =>
      absurd (fs.lt_fresh h) (Nat.lt_irrefl _)
    intro name1 name2 n h1 h2
    by_cases hname1 : name1 = name
    · by_cases hname2 : name2 = name
      · exact hname1.trans hname2.symm
      · rw [hname1, Function.update_self] at h1
        rw [Function.update_of_ne hname2, ← h1] at h2
        exact absurd h2 hfresh
    · rw [Function.update_of_ne hname1] at h1
      by_cases hname2 : name2 = name
      · rw [hname2, Function.update_self] at h2
        exact absurd (h1.trans h2.symm) hfresh
      · rw [Function.update_of_ne hname2] at h2
        exact fs.unique h1 h2

/-- The store after a name is opened for writing, its file emptied or made,
and the file. -/
def openTrunc (name : κ) (b : β) (fs : FileStore κ β) : FileStore κ β × ℕ :=
  match fs.names name with
  | some n => (fs.write n b, n)
  | none => (fs.make name b, fs.fresh)

/-! ## The name an operation is about -/

@[simp] theorem read_remove : (fs.remove name).read name = none := by
  simp [read, remove]

@[simp] theorem names_remove_self : (fs.remove name).names name = none :=
  Function.update_self _ _ _

@[simp] theorem names_make_self : (fs.make name b).names name = some fs.fresh :=
  Function.update_self _ _ _

theorem names_openTrunc (fs : FileStore κ β) (name : κ) (b : β) :
    (fs.openTrunc name b).1.names name = some (fs.openTrunc name b).2 := by
  unfold openTrunc
  rcases h : fs.names name with _ | n
  · exact Function.update_self _ _ _
  · exact h

/-! ## The other names -/

theorem names_remove_of_ne (h : name' ≠ name) : (fs.remove name).names name' = fs.names name' :=
  Function.update_of_ne h _ _

theorem read_remove_of_ne (h : name' ≠ name) : (fs.remove name).read name' = fs.read name' := by
  rw [read, names_remove_of_ne h]
  rfl

theorem names_openTrunc_of_ne (fs : FileStore κ β) (b : β) (h : name' ≠ name) :
    (fs.openTrunc name b).1.names name' = fs.names name' := by
  unfold openTrunc
  rcases fs.names name with _ | n
  · exact Function.update_of_ne h _ _
  · rfl

theorem names_make_of_ne (h : name' ≠ name) : (fs.make name b).names name' = fs.names name' :=
  Function.update_of_ne h _ _

theorem read_make_of_ne (h : name' ≠ name) : (fs.make name b).read name' = fs.read name' := by
  rw [read, read, names_make_of_ne h]
  rcases hname : fs.names name' with _ | n'
  · rfl
  · have hne : n' ≠ fs.fresh := Nat.ne_of_lt (fs.lt_fresh hname)
    exact congrArg some (Function.update_of_ne hne _ _)

theorem read_openTrunc_of_ne (fs : FileStore κ β) (b : β) (h : name' ≠ name) :
    (fs.openTrunc name b).1.read name' = fs.read name' := by
  unfold openTrunc
  rcases hn : fs.names name with _ | n
  · exact read_make_of_ne h
  · exact read_write_of_ne hn h

end FileStore

end Transition
