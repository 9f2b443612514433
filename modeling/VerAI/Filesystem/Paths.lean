import VerAI.Lib.FileSystem
/-!
# Paths

A path is a string; the system calls read it as the names between its
slashes, from the root or from the working directory. `.` and `..` are no
names of entries: they lead to the directory itself and to the one above.
Every name on the way must be a directory's. Symbolic links are left out.
-/

namespace VerAI

namespace Filesystem

open Directories

/-- The name of an entry in a directory. -/
abbrev Name := List Char

/-- The names a path goes through. -/
def names (path : List Char) : List Name := (path.splitOn '/').filter fun name => !name.isEmpty

/-- Where a path leads from the working directory. -/
def resolve (cwd : List Name) (path : List Char) : List Name :=
  if path.head? = some '/' then names path else cwd ++ names path

/-- The directory a path starts from. -/
def base (cwd : List Name) (path : List Char) : List Name :=
  if path.head? = some '/' then [] else cwd

/-! ## The names of a path -/

variable {part : List Char}

@[simp] theorem names_nil : names [] = [] := rfl

theorem names_append_slash (path path' : List Char) :
    names (path ++ '/' :: path') = names path ++ names path' := by
  simp only [names, List.splitOn_eq_splitOnP]
  rw [List.splitOnP_append_cons path path' (by simp), List.filter_append]

theorem names_of_no_slash (h : '/' ∉ part) :
    names part = if part = [] then [] else [part] := by
  have hsingle : part.splitOn '/' = [part] := by
    rw [List.splitOn_eq_splitOnP]
    refine List.splitOnP_eq_singleton fun c hc => ?_
    have hne : c ≠ '/' := fun heq => h (heq ▸ hc)
    simpa using hne
  rw [names, hsingle]
  by_cases hnil : part = []
  · simp [hnil]
  · simp [hnil]

theorem resolve_eq (cwd : List Name) (path : List Char) :
    resolve cwd path = base cwd path ++ names path := by
  unfold resolve base
  split
  · rfl
  · rfl

/-! ## Where a path leads in a file system -/

/-- Where one name leads. -/
def step (place : List Name) (name : Name) : List Name :=
  if name = ['.'] then place
  else if name = ['.', '.'] then place.dropLast
  else place ++ [name]

/-- Where the names lead from the root. -/
def place (path : List Name) : List Name := path.foldl step []

section

variable {β : Type}

instance (fs : FileSystem Name β) (p : List Name) : Decidable (p ∈ fs.dirs) := inferInstance

/-- Every name but the last leads to a directory. -/
def passes (fs : FileSystem Name β) (cur : List Name) : List Name → Bool
  | [] => true
  | name :: path => cur ∈ fs.dirs && passes fs (step cur name) path

variable {fs fs' : FileSystem Name β} {cur path : List Name} {name : Name}

theorem passes_append_singleton :
    passes fs cur (path ++ [name]) = true ↔
      passes fs cur path = true ∧ path.foldl step cur ∈ fs.dirs := by
  induction path generalizing cur with
  | nil => simp [passes]
  | cons n path ih => simp [passes, ih, and_assoc]

theorem passes_mono (h : ∀ d ∈ fs.dirs, d ∈ fs'.dirs) (hp : passes fs cur path = true) :
    passes fs' cur path = true := by
  induction path generalizing cur with
  | nil => rfl
  | cons n path ih =>
    simp only [passes, Bool.and_eq_true, decide_eq_true_eq] at hp ⊢
    exact ⟨h _ hp.1, ih hp.2⟩

/-- What `stat` finds at the names of a path. -/
def kindAt (fs : FileSystem Name β) (path : List Name) : Option Kind :=
  if passes fs [] path then fs.kind (place path) else none

/-- `mkdir`, where the system allows it. -/
def mkdirAt (allows : List Name → Bool) (fs : FileSystem Name β) (path : List Name) :
    Option (FileSystem Name β) :=
  if allows path ∧ passes fs [] path then fs.mkdir (place path) else none

theorem mkdirAt_eq_some {allows : List Name → Bool} (h : mkdirAt allows fs path = some fs') :
    passes fs [] path = true ∧ fs.mkdir (place path) = some fs' := by
  obtain ⟨⟨-, hp⟩, hmk⟩ := Option.ite_none_right_eq_some.mp h
  exact ⟨hp, hmk⟩

theorem dir_of_passes (h : passes fs [] (path ++ [name]) = true) :
    kindAt fs path = some .dir := by
  obtain ⟨hp, hdir⟩ := passes_append_singleton.mp h
  rw [kindAt, if_pos hp, FileSystem.kind, if_pos (show place path ∈ fs.dirs from hdir)]

/-- **A file system as `stat` and `mkdir` see it**, the system refusing
`mkdir` where it likes. -/
def treeSystem (allows : List Name → Bool) : DirSystem (FileSystem Name β) Name where
  kind := kindAt
  mkdir := mkdirAt allows
  kind_root fs := by simp [kindAt, passes, place, FileSystem.kind, fs.root_mem]
  dir_of_child h := dir_of_passes (Option.ite_none_right_eq_some.mp
    (Option.ne_none_iff_exists'.mp h).choose_spec).1
  absent_of_mkdir h := by
    obtain ⟨hp, hmk⟩ := mkdirAt_eq_some h
    obtain ⟨⟨-, hdir, hfile, -⟩, -⟩ := FileSystem.mkdir_eq_some hmk
    simp [kindAt, hp, FileSystem.kind, hdir, Transition.FileStore.has, hfile]
  parent_of_mkdir h := dir_of_passes (mkdirAt_eq_some h).1
  kind_mkdir h := by
    obtain ⟨hp, hmk⟩ := mkdirAt_eq_some h
    obtain ⟨-, hdirs, -⟩ := FileSystem.mkdir_eq_some hmk
    have hp' := passes_mono (fun d hd => hdirs ▸ List.mem_cons_of_mem _ hd) hp
    simp [kindAt, hp', FileSystem.kind, hdirs]
  kind_mkdir_of_exists {fs fs' p q} h hq := by
    obtain ⟨hp, hmk⟩ := mkdirAt_eq_some h
    obtain ⟨⟨-, hdir, hfile, -⟩, hdirs, hfiles⟩ := FileSystem.mkdir_eq_some hmk
    obtain ⟨k, hk⟩ := Option.ne_none_iff_exists'.mp hq
    obtain ⟨hpq, hkind⟩ := Option.ite_none_right_eq_some.mp hk
    have hpq' := passes_mono (fun d hd => hdirs ▸ List.mem_cons_of_mem _ hd) hpq
    have hne : place q ≠ place p := by
      intro heq
      rw [heq] at hkind
      simp [FileSystem.kind, hdir, Transition.FileStore.has, hfile] at hkind
    simp [kindAt, hpq, hpq', FileSystem.kind, hdirs, hfiles, hne]

/-- **What calls of `mkdir` leave**: the files as they are, and every place
too, but for those where a directory has been made. -/
theorem look_of_foldlM {allows : List Name → Bool} {ps : List (List Name)}
    (h : ps.foldlM (mkdirAt allows) fs = some fs') :
    fs'.files = fs.files ∧ ∀ q, fs'.look q = fs.look q ∨
      (fs.look q = none ∧ fs'.look q = some .dir ∧ ∃ p ∈ ps, q = place p) := by
  induction ps generalizing fs with
  | nil =>
    obtain rfl : fs = fs' := by simpa using h
    exact ⟨rfl, fun q => .inl rfl⟩
  | cons p ps ih =>
    rw [List.foldlM_cons] at h
    obtain ⟨fs1, hmkdirAt, hrest⟩ := Option.bind_eq_some_iff.mp h
    obtain ⟨-, hmkdir⟩ := mkdirAt_eq_some hmkdirAt
    obtain ⟨-, -, hfiles⟩ := FileSystem.mkdir_eq_some hmkdir
    obtain ⟨hfiles', hlook⟩ := ih hrest
    refine ⟨hfiles'.trans hfiles, fun q => ?_⟩
    by_cases hq : q = place p
    · obtain ⟨hnone, hdir⟩ := FileSystem.look_mkdir_self hmkdir
      rw [← hq] at hnone hdir
      rcases hlook q with hsame | ⟨hnone', -⟩
      · exact .inr ⟨hnone, hsame.trans hdir, p, List.mem_cons_self, hq⟩
      · rw [hnone'] at hdir
        cases hdir
    · rw [← FileSystem.look_mkdir_of_ne hmkdir hq]
      rcases hlook q with hsame | ⟨hnone, hdir, p', hp', heq⟩
      · exact .inl hsame
      · exact .inr ⟨hnone, hdir, p', List.mem_cons_of_mem _ hp', heq⟩

end

end Filesystem

end VerAI
