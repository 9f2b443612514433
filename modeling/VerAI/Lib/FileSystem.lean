import VerAI.Lib.FileStore
import VerAI.Lib.Directories
/-!
# Directories and the files in them

A file system is a tree of directories with named files at its leaves. A
place is the list of names that leads there from the root; what is there is
a directory, a file or nothing (`look`). No two places hold one file. Each
operation gives the file system it leaves, where it can be done at all, and
has a frame lemma: the places it does not name look as they did.
-/

namespace Directories

open Transition

universe u v

/-- What is seen at a place. -/
inductive Entry (β : Type v)
  | dir
  | file (b : β)
  deriving DecidableEq

/-- **A tree of directories and files.** Everything stands in a directory,
and `places` has every place of a file. -/
structure FileSystem (ν : Type u) (β : Type v) where
  files : FileStore (List ν) β
  dirs : List (List ν)
  places : List (List ν)
  root_mem : [] ∈ dirs
  dir_of_dir : ∀ {p n}, p ++ [n] ∈ dirs → p ∈ dirs
  dir_of_file : ∀ {p n}, files.names (p ++ [n]) ≠ none → p ∈ dirs
  file_of_dir : ∀ {p}, p ∈ dirs → files.names p = none
  mem_places : ∀ {p}, files.names p ≠ none → p ∈ places

namespace FileSystem

variable {ν : Type u} {β : Type v} {fs fs' : FileSystem ν β} {p q old new : List ν} {n : ℕ} {b : β}

variable [DecidableEq ν]

/-- What a place leads to. -/
def kind (fs : FileSystem ν β) (p : List ν) : Option Kind :=
  if p ∈ fs.dirs then some .dir else if fs.files.has p then some .other else none

/-- What is seen there. -/
def look (fs : FileSystem ν β) (p : List ν) : Option (Entry β) :=
  if p ∈ fs.dirs then some .dir else (fs.files.read p).map .file

/-- A place where something can be made: nothing is there, in a directory. -/
def Vacant (fs : FileSystem ν β) (p : List ν) : Prop :=
  p ≠ [] ∧ p ∉ fs.dirs ∧ fs.files.names p = none ∧ p.dropLast ∈ fs.dirs

instance (fs : FileSystem ν β) (p : List ν) : Decidable (fs.Vacant p) :=
  inferInstanceAs (Decidable (_ ∧ _))

/-- No directory and no file stands in it. -/
def Bare (fs : FileSystem ν β) (p : List ν) : Prop :=
  (∀ q ∈ fs.dirs, q ≠ [] → q.dropLast ≠ p) ∧
    ∀ q ∈ fs.places, fs.files.names q ≠ none → q ≠ [] → q.dropLast ≠ p

instance (fs : FileSystem ν β) (p : List ν) : Decidable (fs.Bare p) :=
  inferInstanceAs (Decidable (_ ∧ _))

/-! ## The operations -/

/-- A directory is made. -/
def mkdir (fs : FileSystem ν β) (p : List ν) : Option (FileSystem ν β) :=
  if h : fs.Vacant p then
    some
      { fs with
        dirs := p :: fs.dirs
        root_mem := List.mem_cons_of_mem _ fs.root_mem
        dir_of_dir := by
          intro q n hq
          rcases List.mem_cons.mp hq with rfl | hq
          · exact List.mem_cons_of_mem _ (by simpa using h.2.2.2)
          · exact List.mem_cons_of_mem _ (fs.dir_of_dir hq)
        dir_of_file := fun hq => List.mem_cons_of_mem _ (fs.dir_of_file hq)
        file_of_dir := by
          intro q hq
          rcases List.mem_cons.mp hq with rfl | hq
          · exact h.2.2.1
          · exact fs.file_of_dir hq }
  else none

/-- A new file is made. -/
def make (fs : FileSystem ν β) (p : List ν) (b : β) : Option (FileSystem ν β) :=
  if h : fs.Vacant p then
    some
      { fs with
        files := fs.files.make p b
        places := p :: fs.places
        dir_of_file := by
          intro q n hq
          by_cases heq : q ++ [n] = p
          · subst heq
            simpa using h.2.2.2
          · exact fs.dir_of_file (by rwa [FileStore.names_make_of_ne heq] at hq)
        file_of_dir := by
          intro q hq
          have hne : q ≠ p := fun heq => h.2.1 (heq ▸ hq)
          exact (FileStore.names_make_of_ne hne).trans (fs.file_of_dir hq)
        mem_places := by
          intro q hq
          by_cases heq : q = p
          · exact heq ▸ List.mem_cons_self
          · exact List.mem_cons_of_mem _
              (fs.mem_places (by rwa [FileStore.names_make_of_ne heq] at hq)) }
  else none

/-- A file is written to. -/
def write (fs : FileSystem ν β) (n : ℕ) (b : β) : FileSystem ν β :=
  { fs with files := fs.files.write n b }

/-- A file, or a directory in which nothing stands, is removed. -/
def remove (fs : FileSystem ν β) (p : List ν) : Option (FileSystem ν β) :=
  if p ∈ fs.dirs then
    if h : p ≠ [] ∧ fs.Bare p then
      some
        { fs with
          dirs := fs.dirs.filter (· ≠ p)
          root_mem := by simpa using ⟨fs.root_mem, h.1⟩
          dir_of_dir := by
            intro q n hq
            obtain ⟨hmem, -⟩ := List.mem_filter.mp hq
            have hne : q ≠ p := fun heq => h.2.1 _ hmem (by simp) (by simpa using heq)
            exact List.mem_filter.mpr ⟨fs.dir_of_dir hmem, by simpa using hne⟩
          dir_of_file := by
            intro q n hq
            have hne : q ≠ p := fun heq =>
              h.2.2 _ (fs.mem_places hq) hq (by simp) (by simpa using heq)
            exact List.mem_filter.mpr ⟨fs.dir_of_file hq, by simpa using hne⟩
          file_of_dir := fun hq => fs.file_of_dir (List.mem_filter.mp hq).1 }
    else none
  else if fs.files.has p then
    some
      { fs with
        files := fs.files.remove p
        dir_of_file := by
          intro q n hq
          by_cases heq : q ++ [n] = p
          · rw [heq, FileStore.names_remove_self] at hq
            exact absurd rfl hq
          · exact fs.dir_of_file (by rwa [FileStore.names_remove_of_ne heq] at hq)
        file_of_dir := by
          intro q hq
          by_cases heq : q = p
          · rw [heq, FileStore.names_remove_self]
          · rw [FileStore.names_remove_of_ne heq]
            exact fs.file_of_dir hq
        mem_places := by
          intro q hq
          by_cases heq : q = p
          · rw [heq, FileStore.names_remove_self] at hq
            exact absurd rfl hq
          · exact fs.mem_places (by rwa [FileStore.names_remove_of_ne heq] at hq) }
  else none

/-- The place whose entry stands at `q` after `old` is moved to `new`. -/
def movedFrom (old new q : List ν) : Option (List ν) :=
  if new <+: q then some (old ++ q.drop new.length)
  else if old <+: q then none
  else some q

/-- The place at which the entry of `q` stands after `old` is moved to
`new`. -/
def movedTo (old new q : List ν) : List ν :=
  if old <+: q then new ++ q.drop old.length else q

theorem movedFrom_append (old new r : List ν) : movedFrom old new (new ++ r) = some (old ++ r) := by
  rw [movedFrom, if_pos (List.prefix_append new r), List.drop_left]

theorem movedFrom_of_not_below (hold : ¬ old <+: q) (hnew : ¬ new <+: q) :
    movedFrom old new q = some q := by
  rw [movedFrom, if_neg hnew, if_neg hold]

/-- What stands at a place has come from there or from below `old`. -/
theorem movedFrom_cases (h : movedFrom old new q = some p) :
    (∃ r, q = new ++ r ∧ p = old ++ r) ∨ (¬ new <+: q ∧ ¬ old <+: q ∧ p = q) := by
  unfold movedFrom at h
  split at h
  · rename_i hnew
    obtain ⟨r, rfl⟩ := hnew
    rw [List.drop_left] at h
    exact .inl ⟨r, rfl, (Option.some.inj h).symm⟩
  · rename_i hnew
    split at h
    · cases h
    · rename_i hold
      exact .inr ⟨hnew, hold, (Option.some.inj h).symm⟩

theorem movedFrom_injective {q q' : List ν} (h : movedFrom old new q = some p)
    (h' : movedFrom old new q' = some p) : q = q' := by
  rcases movedFrom_cases h with ⟨r, rfl, rfl⟩ | ⟨-, hold, rfl⟩
  · rcases movedFrom_cases h' with ⟨r', rfl, heq⟩ | ⟨-, hold, rfl⟩
    · rw [List.append_cancel_left heq]
    · exact absurd (List.prefix_append old r) hold
  · rcases movedFrom_cases h' with ⟨r', rfl, rfl⟩ | ⟨-, -, rfl⟩
    · exact absurd (List.prefix_append old r') hold
    · rfl

/-- **When a place can be moved to another**: something is there, the other
one is in a directory, not the same place and not below it; a file replaces
nothing or a file, a directory nothing or a directory in which nothing
stands. -/
def Movable (fs : FileSystem ν β) (old new : List ν) : Prop :=
  old ≠ [] ∧ new ≠ [] ∧ new.dropLast ∈ fs.dirs ∧ ¬ old <+: new ∧ ¬ new <+: old ∧
    (old ∈ fs.dirs ∧ fs.files.names new = none ∧ fs.Bare new ∨
      fs.files.names old ≠ none ∧ new ∉ fs.dirs)

instance (fs : FileSystem ν β) (old new : List ν) : Decidable (fs.Movable old new) :=
  inferInstanceAs (Decidable (_ ∧ _))

omit [DecidableEq ν] in
theorem dir_of_append {r : List ν} (h : p ++ r ∈ fs.dirs) : p ∈ fs.dirs := by
  induction r using List.reverseRecOn with
  | nil => simpa using h
  | append_singleton r n ih => exact ih (fs.dir_of_dir (by rwa [List.append_assoc]))

omit [DecidableEq ν] in
/-- Nothing is below a place in which nothing stands. -/
theorem not_dir_below (h : fs.Bare p) {r : List ν} (hr : r ≠ []) : p ++ r ∉ fs.dirs := by
  intro hmem
  obtain ⟨n, r, rfl⟩ := List.exists_cons_of_ne_nil hr
  have hchild : p ++ [n] ∈ fs.dirs := dir_of_append (r := r) (by simpa using hmem)
  exact h.1 _ hchild (by simp) (by simp)

omit [DecidableEq ν] in
/-- Nothing stands in the place something is moved to. -/
theorem Movable.bare (h : fs.Movable old new) : fs.Bare new := by
  rcases h.2.2.2.2.2 with ⟨-, -, hbare⟩ | ⟨-, hnew⟩
  · exact hbare
  · refine ⟨fun q hq hne heq => hnew ?_, fun q _ hq hne heq => hnew ?_⟩
    · rw [← List.dropLast_append_getLast hne] at hq
      exact heq ▸ fs.dir_of_dir hq
    · rw [← List.dropLast_append_getLast hne] at hq
      exact heq ▸ fs.dir_of_file hq

/-- The directories after `old` is moved to `new`. -/
def movedDirs (fs : FileSystem ν β) (old new : List ν) : List (List ν) :=
  (fs.dirs.filter (· ≠ new)).map (movedTo old new)

theorem mem_movedDirs_of_not_below (hq : q ∈ fs.dirs) (hold : ¬ old <+: q) (hne : q ≠ new) :
    q ∈ fs.movedDirs old new :=
  List.mem_map.mpr ⟨q, List.mem_filter.mpr ⟨hq, by simpa using hne⟩, if_neg hold⟩

theorem append_mem_movedDirs {r : List ν} (h : fs.Movable old new) (hr : old ++ r ∈ fs.dirs) :
    new ++ r ∈ fs.movedDirs old new := by
  refine List.mem_map.mpr ⟨old ++ r, List.mem_filter.mpr ⟨hr, ?_⟩, ?_⟩
  · have hne : old ++ r ≠ new := fun heq => h.2.2.2.1 (heq ▸ List.prefix_append old r)
    simpa using hne
  · rw [movedTo, if_pos (List.prefix_append old r), List.drop_left]

/-- A directory afterwards was one before, there or below `old`. -/
theorem movedDirs_cases (hq : q ∈ fs.movedDirs old new) :
    (∃ r, q = new ++ r ∧ old ++ r ∈ fs.dirs) ∨ (¬ old <+: q ∧ q ≠ new ∧ q ∈ fs.dirs) := by
  obtain ⟨c, hc, rfl⟩ := List.mem_map.mp hq
  obtain ⟨hc, hne⟩ := List.mem_filter.mp hc
  unfold movedTo
  split
  · rename_i hold
    obtain ⟨r, rfl⟩ := hold
    exact .inl ⟨r, by rw [List.drop_left], hc⟩
  · rename_i hold
    exact .inr ⟨hold, by simpa using hne, hc⟩

/-- The directory `new` stands in stays where it is. -/
theorem dropLast_mem_movedDirs (h : fs.Movable old new) :
    new.dropLast ∈ fs.movedDirs old new := by
  refine mem_movedDirs_of_not_below h.2.2.1 (fun hold => ?_) fun heq => ?_
  · exact h.2.2.2.1 (hold.trans (List.dropLast_prefix new))
  · have hlen := congrArg List.length heq
    have hpos := List.length_pos_of_ne_nil h.2.1
    rw [List.length_dropLast] at hlen
    omega

/-- What stands below `new` afterwards stands in a directory. -/
theorem dir_of_moved (h : fs.Movable old new) {r : List ν} {n : ν} (hp : p ++ [n] = new ++ r)
    (hr : ∀ r' n', r = r' ++ [n'] → old ++ r' ∈ fs.dirs) : p ∈ fs.movedDirs old new := by
  rcases List.eq_nil_or_concat r with rfl | ⟨r', n', rfl⟩
  · have hdrop : p = new.dropLast := by
      rw [List.append_nil] at hp
      rw [← hp, List.dropLast_concat]
    exact hdrop ▸ dropLast_mem_movedDirs h
  · rw [List.concat_eq_append, ← List.append_assoc] at hp
    obtain ⟨rfl, -⟩ := List.append_inj' hp rfl
    exact append_mem_movedDirs h (hr r' n' (List.concat_eq_append))

/-- A directory or a file is moved, with all that is below it. -/
def rename (fs : FileSystem ν β) (old new : List ν) : Option (FileSystem ν β) :=
  if old = new then (fs.kind old).map fun _ => fs
  else if h : fs.Movable old new then
    some
      { files := fs.files.reindex (movedFrom old new) movedFrom_injective
        dirs := fs.movedDirs old new
        places := fs.places.map (movedTo old new)
        root_mem := mem_movedDirs_of_not_below fs.root_mem (by simpa using h.1) h.2.1.symm
        dir_of_dir := by
          intro p n hp
          rcases movedDirs_cases hp with ⟨r, heq, hr⟩ | ⟨hold, hne, hdir⟩
          · exact dir_of_moved h heq fun r' n' hr' =>
              fs.dir_of_dir (n := n') (by rwa [hr', ← List.append_assoc] at hr)
          · refine mem_movedDirs_of_not_below (fs.dir_of_dir hdir)
              (fun hp => hold (hp.trans (List.prefix_append p [n]))) fun heq => ?_
            exact not_dir_below h.bare (r := [n]) (by simp) (heq ▸ hdir)
        dir_of_file := by
          intro p n hp
          obtain ⟨m, hm⟩ := Option.ne_none_iff_exists'.mp hp
          obtain ⟨c, hc, hm⟩ := Option.bind_eq_some_iff.mp hm
          have hfile : fs.files.names c ≠ none := by simp [hm]
          rcases movedFrom_cases hc with ⟨r, heq, rfl⟩ | ⟨hnew, hold, rfl⟩
          · exact dir_of_moved h heq fun r' n' hr' =>
              fs.dir_of_file (n := n') (by rwa [hr', ← List.append_assoc] at hfile)
          · exact mem_movedDirs_of_not_below (fs.dir_of_file hfile)
              (fun hp => hold (hp.trans (List.prefix_append p [n])))
              fun heq => hnew (heq ▸ List.prefix_append p [n])
        file_of_dir := by
          intro q hq
          change (movedFrom old new q).bind fs.files.names = none
          rcases movedDirs_cases hq with ⟨r, rfl, hr⟩ | ⟨hold, hne, hdir⟩
          · rw [movedFrom_append, Option.bind_some, fs.file_of_dir hr]
          · have hnew : ¬ new <+: q := by
              rintro ⟨r, rfl⟩
              exact not_dir_below h.bare (fun hr => hne (by rw [hr, List.append_nil])) hdir
            rw [movedFrom_of_not_below hold hnew, Option.bind_some, fs.file_of_dir hdir]
        mem_places := by
          intro q hq
          obtain ⟨m, hm⟩ := Option.ne_none_iff_exists'.mp hq
          obtain ⟨c, hc, hm⟩ := Option.bind_eq_some_iff.mp hm
          refine List.mem_map.mpr ⟨c, fs.mem_places (by simp [hm]), ?_⟩
          rcases movedFrom_cases hc with ⟨r, rfl, rfl⟩ | ⟨hnew, hold, rfl⟩
          · rw [movedTo, if_pos (List.prefix_append old r), List.drop_left]
          · exact if_neg hold }
  else none

/-! ## What an operation does, and where -/

theorem mkdir_eq_some (h : fs.mkdir p = some fs') :
    fs.Vacant p ∧ fs'.dirs = p :: fs.dirs ∧ fs'.files = fs.files := by
  unfold mkdir at h
  split at h
  · rename_i hv
    obtain rfl := Option.some.inj h
    exact ⟨hv, rfl, rfl⟩
  · cases h

theorem look_mkdir_self (h : fs.mkdir p = some fs') :
    fs.look p = none ∧ fs'.look p = some .dir := by
  obtain ⟨⟨-, hdir, hfile, -⟩, hdirs, -⟩ := mkdir_eq_some h
  refine ⟨?_, by simp [look, hdirs]⟩
  simp [look, hdir, FileStore.read, hfile]

theorem look_mkdir_of_ne (h : fs.mkdir p = some fs') (hq : q ≠ p) : fs'.look q = fs.look q := by
  obtain ⟨-, hdirs, hfiles⟩ := mkdir_eq_some h
  simp [look, hdirs, hfiles, hq]

theorem make_eq_some (h : fs.make p b = some fs') :
    fs.Vacant p ∧ fs'.dirs = fs.dirs ∧ fs'.files = fs.files.make p b := by
  unfold make at h
  split at h
  · rename_i hv
    obtain rfl := Option.some.inj h
    exact ⟨hv, rfl, rfl⟩
  · cases h

theorem look_make_of_ne (h : fs.make p b = some fs') (hq : q ≠ p) : fs'.look q = fs.look q := by
  obtain ⟨-, hdirs, hfiles⟩ := make_eq_some h
  rw [look, look, hdirs, hfiles, FileStore.read_make_of_ne hq]

theorem look_write_of_ne (hn : fs.files.names p = some n) (hq : q ≠ p) :
    (fs.write n b).look q = fs.look q := by
  unfold look write
  rw [FileStore.read_write_of_ne hn hq]

theorem look_remove_self (h : fs.remove p = some fs') : fs'.look p = none := by
  unfold remove at h
  split at h
  · rename_i hdir
    split at h
    · obtain rfl := Option.some.inj h
      simp [look, FileStore.read, fs.file_of_dir hdir]
    · cases h
  · rename_i hdir
    split at h
    · obtain rfl := Option.some.inj h
      simp [look, hdir]
    · cases h

theorem look_remove_of_ne (h : fs.remove p = some fs') (hq : q ≠ p) : fs'.look q = fs.look q := by
  unfold remove at h
  split at h
  · split at h
    · obtain rfl := Option.some.inj h
      simp [look, hq]
    · cases h
  · split at h
    · obtain rfl := Option.some.inj h
      simp [look, FileStore.read_remove_of_ne hq]
    · cases h

/-- What can be removed is there. -/
theorem look_of_remove (h : fs.remove p = some fs') : fs.look p ≠ none := by
  unfold remove at h
  split at h
  · rename_i hdir
    simp [look, hdir]
  · rename_i hdir
    split at h
    · rename_i hfile
      simpa [look, hdir, FileStore.read, FileStore.has, Option.isSome_iff_ne_none] using hfile
    · cases h

/-- **Moving leaves what is neither below the one place nor below the
other.** -/
theorem look_rename_of_not_below (h : fs.rename old new = some fs') (hold : ¬ old <+: q)
    (hnew : ¬ new <+: q) : fs'.look q = fs.look q := by
  unfold rename at h
  split at h
  · obtain ⟨_, -, rfl⟩ := Option.map_eq_some_iff.mp h
    rfl
  · split at h
    · obtain rfl := Option.some.inj h
      have hdirs : q ∈ fs.movedDirs old new ↔ q ∈ fs.dirs := by
        constructor
        · intro hq
          rcases movedDirs_cases hq with ⟨r, rfl, -⟩ | ⟨-, -, hdir⟩
          · exact absurd (List.prefix_append new r) hnew
          · exact hdir
        · intro hq
          exact mem_movedDirs_of_not_below hq hold fun heq => hnew (heq ▸ List.prefix_refl q)
      simp only [look, FileStore.read, FileStore.reindex, hdirs,
        movedFrom_of_not_below hold hnew, Option.bind_some]
    · cases h

end FileSystem

end Directories
