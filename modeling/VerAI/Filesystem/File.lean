import VerAI.Filesystem.CreateFolder
import VerAI.Lib.Transition
import VerAI.Torrent.Create
/-!
# `common::filesystem::File`

The object keeps its path three times, whole, as a directory and as a name,
and a descriptor while the file is open. Each call hands one of the three to
the system: `Open` the directory and the whole path, `Trunc` and `Move` the
whole path, `Remove` the name alone. What a call may touch is `Own`; the
calls that keep to it are found in `touchesOwn_iff`.
-/

namespace VerAI

namespace Filesystem

open Directories
open Torrent (findLastOf)

/-- The flags of `open` that matter here. -/
structure OpenFlags where
  creat : Bool
  excl : Bool
  trunc : Bool
  append : Bool
  /-- Not `O_RDONLY`. -/
  writing : Bool

/-- `O_CREAT | O_RDWR | O_TRUNC`. -/
def defaultParams : OpenFlags := ⟨true, false, true, false, true⟩

/-- What an open descriptor stands for: a file, or none for a directory,
and the place in it. -/
structure Descriptor where
  file : Option ℕ
  offset : ℕ

/-- A `File`; without a descriptor it is -1. -/
structure File where
  openFileParams : OpenFlags
  fullPath : String
  fileName : String
  dirName : String
  fileDescriptor : Option Descriptor

/-- `File::File`. -/
def File.new (fullPath : String) (params : OpenFlags) : File :=
  match findLastOf '/' fullPath.toList with
  | some pos =>
    { openFileParams := params
      fullPath := fullPath
      fileName := String.ofList (fullPath.toList.drop (pos + 1))
      dirName := String.ofList (fullPath.toList.take pos)
      fileDescriptor := none }
  | none =>
    { openFileParams := params
      fullPath := fullPath
      fileName := fullPath
      dirName := "./"
      fileDescriptor := none }

/-! ## The system calls -/

/-- A working directory and a file system, whose files hold characters. -/
structure Sys where
  cwd : List Name
  fs : FileSystem Name (List Char)

namespace Sys

/-- The place a path leads to, whatever is there. -/
def placeOf (sys : Sys) (path : String) : List Name := place (resolve sys.cwd path.toList)

/-- That place, where the way there can be gone. -/
def entryAt (sys : Sys) (path : String) : Option (List Name) :=
  if path ≠ "" ∧ passes sys.fs [] (resolve sys.cwd path.toList) then some (sys.placeOf path)
  else none

/-- The path ends in a slash: it is for a directory. -/
def EndsInSlash (path : String) : Prop := path.toList.getLast? = some '/'

instance (path : String) : Decidable (EndsInSlash path) := inferInstanceAs (Decidable (_ = _))

/-- The path ends in the name of an entry, not in `.` or `..`. -/
def EndsInName (path : String) : Prop :=
  (names path.toList).getLast? ∉ [none, some ['.'], some ['.', '.']]

instance (path : String) : Decidable (EndsInName path) := inferInstanceAs (Decidable (¬ _))

/-- `open`. A directory can be opened for reading alone. -/
def openAt (flags : OpenFlags) (sys : Sys) (path : String) : Option (Sys × Descriptor) :=
  match sys.entryAt path with
  | none => none
  | some p =>
    match sys.fs.files.names p with
    | some n =>
      if EndsInSlash path ∨ flags.creat ∧ flags.excl then none
      else some ({ sys with fs := if flags.trunc then sys.fs.write n [] else sys.fs }, ⟨some n, 0⟩)
    | none =>
      if p ∈ sys.fs.dirs then
        if flags.creat ∨ flags.trunc ∨ flags.writing then none else some (sys, ⟨none, 0⟩)
      else if flags.creat ∧ ¬ EndsInSlash path then
        (sys.fs.make p []).map fun fs => ({ sys with fs := fs }, ⟨some sys.fs.files.fresh, 0⟩)
      else none

/-- The content with those bytes at an offset, what is missing before them
filled with zeros. -/
def writeAt (offset : ℕ) (bytes content : List Char) : List Char :=
  content.take offset ++ List.replicate (offset - content.length) (Char.ofNat 0) ++ bytes ++
    content.drop (offset + bytes.length)

/-- `write` of those bytes. -/
def writeFile (flags : OpenFlags) (sys : Sys) (fd : Descriptor) (bytes : List Char) :
    Option (Sys × Descriptor) :=
  match fd.file with
  | some n =>
    if flags.writing then
      let content := sys.fs.files.content n
      let offset := if flags.append then content.length else fd.offset
      some ({ sys with fs := sys.fs.write n (writeAt offset bytes content) },
        { fd with offset := offset + bytes.length })
    else none
  | none => none

/-- `truncate(path, 0)`. -/
def truncate (sys : Sys) (path : String) : Option Sys :=
  match sys.entryAt path with
  | none => none
  | some p =>
    match sys.fs.files.names p with
    | some n => if EndsInSlash path then none else some { sys with fs := sys.fs.write n [] }
    | none => none

/-- `remove`. -/
def remove (sys : Sys) (path : String) : Option Sys :=
  match sys.entryAt path with
  | none => none
  | some p =>
    if EndsInName path ∧ (EndsInSlash path → p ∈ sys.fs.dirs) then
      (sys.fs.remove p).map fun fs => { sys with fs := fs }
    else none

/-- `rename`. A working directory in what is moved is moved with it. -/
def rename (sys : Sys) (old new : String) : Option Sys :=
  match sys.entryAt old, sys.entryAt new with
  | some p, some q =>
    if EndsInName old ∧ EndsInName new ∧ (EndsInSlash old ∨ EndsInSlash new → p ∈ sys.fs.dirs) then
      (sys.fs.rename p q).map fun fs => { cwd := FileSystem.movedTo p q sys.cwd, fs := fs }
    else none
  | _, _ => none

end Sys

/-- A system call that the system may also refuse. -/
def permit {α : Type} (ok : Bool) (r : Option α) : Option α := if ok then r else none

/-- A call that is permitted. -/
theorem permit_eq_some {α : Type} {ok : Bool} {r : Option α} {x : α} :
    permit ok r = some x ↔ ok = true ∧ r = some x :=
  Option.ite_none_right_eq_some

/-! ## The calls of the object -/

/-- The object in its system, and the places its moves have had for a
target. -/
structure FileState where
  file : File
  sys : Sys
  targets : List (List Name)

/-- The calls, each with what the system lets the calls in it do: which
directories may be made, and whether the others are refused. -/
inductive Call
  | openFile (allows : List Name → Bool) (ok : Bool)
  /-- `behind` is what lies behind the data in memory, `written` how much of
  it the system writes. -/
  | write (data : String) (length : ℤ) (behind : List Char) (allows : List Name → Bool)
      (ok : Bool) (written : Option ℕ)
  | trunc (ok : Bool)
  | close (ok : Bool)
  | forceClose (ok : Bool)
  | remove (closeOk ok : Bool)
  | move (newPath : String) (closeOk ok : Bool)

/-- `bufLength` in `Write`. -/
def bufLength (data : String) (length : ℤ) : ℤ := if length = -1 then data.length else length

/-- What `Write` hands to the system. -/
def buffer (data : String) (length : ℤ) (behind : List Char) : List Char :=
  (data.toList ++ behind).take (bufLength data length).toNat

namespace FileState

/-- The state after `CreateFolder(GetDirectory())`. -/
def createDir (allows : List Name → Bool) (s : FileState) : FileState :=
  { s with
    sys :=
      { s.sys with
        fs := (createFolder (treeSystem allows) s.sys.cwd s.sys.fs s.file.dirName).1 } }

/-- `File::Open` behind its `CreateFolder`. -/
def openCreated (ok : Bool) (s : FileState) : FileState × Except String Unit :=
  match permit ok (s.sys.openAt s.file.openFileParams s.file.fullPath) with
  | none => (s, .error ("Can't open file: " ++ s.file.fullPath))
  | some (sys, fd) =>
    ({ s with sys := sys, file := { s.file with fileDescriptor := some fd } }, .ok ())

/-- `File::Open`. -/
def openFile (allows : List Name → Bool) (ok : Bool) (s : FileState) :
    FileState × Except String Unit :=
  if s.file.fileDescriptor.isSome then (s, .ok ()) else (s.createDir allows).openCreated ok

/-- `File::Write` behind its `Open`. -/
def writeOpened (data : String) (length : ℤ) (behind : List Char) (written : Option ℕ)
    (s : FileState) : FileState × Except String Unit :=
  match s.file.fileDescriptor with
  | none => (s, .error ("File does not open: " ++ s.file.fullPath))
  | some fd =>
    if 0 < bufLength data length then
      match written.bind fun k =>
        s.sys.writeFile s.file.openFileParams fd ((buffer data length behind).take k) with
      | none => (s, .error ("Can't write data to file: " ++ s.file.fileName))
      | some (sys, fd) =>
        ({ s with sys := sys, file := { s.file with fileDescriptor := some fd } }, .ok ())
    else (s, .ok ())

/-- `File::Write`. -/
def write (data : String) (length : ℤ) (behind : List Char) (allows : List Name → Bool) (ok : Bool)
    (written : Option ℕ) (s : FileState) : FileState × Except String Unit :=
  match s.openFile allows ok with
  | (s, .error e) => (s, .error e)
  | (s, .ok ()) => s.writeOpened data length behind written

/-- `File::Trunc`. -/
def trunc (ok : Bool) (s : FileState) : FileState × Except String Unit :=
  match permit ok (s.sys.truncate s.file.fullPath) with
  | none => (s, .error ("Can't truncate file: " ++ s.file.fullPath))
  | some sys => ({ s with sys := sys }, .ok ())

/-- The object without its descriptor. -/
def dropDescriptor (s : FileState) : FileState :=
  { s with file := { s.file with fileDescriptor := none } }

/-- `File::Close`. -/
def close (ok : Bool) (s : FileState) : FileState × Except String Unit :=
  if s.file.fileDescriptor.isSome then
    if ok then (s.dropDescriptor, .ok ())
    else (s, .error ("Can't close file: " ++ s.file.fullPath))
  else (s, .ok ())

/-- `File::ForceClose`. -/
def forceClose (ok : Bool) (s : FileState) : FileState × Except String Unit :=
  match s.close ok with
  | (s, .error _) => (s.dropDescriptor, .ok ())
  | (s, .ok ()) => (s, .ok ())

/-- `File::Remove`. -/
def remove (closeOk ok : Bool) (s : FileState) : FileState × Except String Unit :=
  match s.close closeOk with
  | (s, .error e) => (s, .error e)
  | (s, .ok ()) =>
    match permit ok (s.sys.remove s.file.fileName) with
    | none => (s, .error ("Can't remove file: " ++ s.file.fileName))
    | some sys => ({ s with sys := sys }, .ok ())

/-- `File::Move`. -/
def move (newPath : String) (closeOk ok : Bool) (s : FileState) : FileState × Except String Unit :=
  match s.close closeOk with
  | (s, .error e) => (s, .error e)
  | (s, .ok ()) =>
    match permit ok (s.sys.rename s.file.fullPath newPath) with
    | none => (s, .error ("Can't rename " ++ s.file.fullPath ++ " to " ++ newPath))
    | some sys => ({ s with sys := sys, targets := s.sys.placeOf newPath :: s.targets }, .ok ())

/-- A call of the object: the state it leaves, and whether it returns. -/
def call (s : FileState) : Call → FileState × Except String Unit
  | .openFile allows ok => s.openFile allows ok
  | .write data length behind allows ok written => s.write data length behind allows ok written
  | .trunc ok => s.trunc ok
  | .close ok => s.close ok
  | .forceClose ok => s.forceClose ok
  | .remove closeOk ok => s.remove closeOk ok
  | .move newPath closeOk ok => s.move newPath closeOk ok

/-- The place of the file, and the place its bare name leads to. -/
def full (s : FileState) : List Name := s.sys.placeOf s.file.fullPath

def bare (s : FileState) : List Name := s.sys.placeOf s.file.fileName

end FileState

/-- A new object for any path, in any system, and any calls. -/
def fileSystem : Transition.System FileState Call where
  init s := (∃ fullPath params, s.file = .new fullPath params) ∧ s.targets = []
  step s a := some (s.call a).1

/-! ## What the system calls leave alone -/

namespace Sys

variable {sys sys' : Sys} {flags : OpenFlags} {path old new : String} {fd fd' : Descriptor}
  {bytes : List Char} {p q : List Name}

/-- An entry is where its path leads. -/
theorem entryAt_eq_some (h : sys.entryAt path = some p) : p = sys.placeOf path :=
  (Option.some.inj (Option.ite_none_right_eq_some.mp h).2).symm

/-- Opening empties or makes the file of the path, and the descriptor is
for it. -/
theorem openAt_frame (h : sys.openAt flags path = some (sys', fd)) :
    sys'.cwd = sys.cwd ∧ (∀ q, q ≠ sys.placeOf path → sys'.fs.look q = sys.fs.look q) ∧
      ∀ n, fd.file = some n → sys'.fs.files.names (sys.placeOf path) = some n := by
  unfold openAt at h
  split at h
  · cases h
  · rename_i p hp
    obtain rfl := entryAt_eq_some hp
    split at h
    · rename_i n hn
      obtain ⟨-, h⟩ := Option.ite_none_left_eq_some.mp h
      obtain ⟨rfl, rfl⟩ := Prod.mk.inj (Option.some.inj h)
      refine ⟨rfl, fun q hq => ?_, fun m hm => ?_⟩
      · dsimp only
        split
        · exact FileSystem.look_write_of_ne hn hq
        · rfl
      · obtain rfl := Option.some.inj hm
        dsimp only
        split
        · exact hn
        · exact hn
    · split at h
      · obtain ⟨-, h⟩ := Option.ite_none_left_eq_some.mp h
        obtain ⟨rfl, rfl⟩ := Prod.mk.inj (Option.some.inj h)
        exact ⟨rfl, fun q _ => rfl, nofun⟩
      · obtain ⟨-, h⟩ := Option.ite_none_right_eq_some.mp h
        obtain ⟨fs, hmake, h⟩ := Option.map_eq_some_iff.mp h
        obtain ⟨rfl, rfl⟩ := Prod.mk.inj h
        refine ⟨rfl, fun q hq => FileSystem.look_make_of_ne hmake hq, fun m hm => ?_⟩
        obtain rfl := Option.some.inj hm
        obtain ⟨-, -, hfiles⟩ := FileSystem.make_eq_some hmake
        exact hfiles ▸ Transition.FileStore.names_make_self

/-- Writing changes the file of the descriptor. -/
theorem writeFile_frame (h : sys.writeFile flags fd bytes = some (sys', fd')) :
    sys'.cwd = sys.cwd ∧ sys'.fs.files.names = sys.fs.files.names ∧ fd'.file = fd.file ∧
      ∀ p, (∀ n, fd.file = some n → sys.fs.files.names p = some n) →
        ∀ q, q ≠ p → sys'.fs.look q = sys.fs.look q := by
  unfold writeFile at h
  split at h
  · rename_i n hn
    obtain ⟨-, h⟩ := Option.ite_none_right_eq_some.mp h
    obtain ⟨rfl, rfl⟩ := Prod.mk.inj (Option.some.inj h)
    exact ⟨rfl, rfl, rfl, fun p hp q hq => FileSystem.look_write_of_ne (hp n hn) hq⟩
  · cases h

/-- `truncate` touches the one file. -/
theorem truncate_frame (h : sys.truncate path = some sys') :
    sys'.cwd = sys.cwd ∧ (∀ q, q ≠ sys.placeOf path → sys'.fs.look q = sys.fs.look q) ∧
      sys'.fs.files.names = sys.fs.files.names := by
  unfold truncate at h
  split at h
  · cases h
  · rename_i p hp
    obtain rfl := entryAt_eq_some hp
    split at h
    · rename_i n hn
      obtain ⟨-, h⟩ := Option.ite_none_left_eq_some.mp h
      obtain rfl := Option.some.inj h
      exact ⟨rfl, fun q hq => FileSystem.look_write_of_ne hn hq, rfl⟩
    · cases h

/-- Removing takes away what is at the path and nothing else. -/
theorem remove_frame (h : sys.remove path = some sys') :
    sys'.cwd = sys.cwd ∧ sys.fs.look (sys.placeOf path) ≠ none ∧
      sys'.fs.look (sys.placeOf path) = none ∧
      ∀ q, q ≠ sys.placeOf path → sys'.fs.look q = sys.fs.look q := by
  unfold remove at h
  split at h
  · cases h
  · rename_i p hp
    obtain rfl := entryAt_eq_some hp
    obtain ⟨-, h⟩ := Option.ite_none_right_eq_some.mp h
    obtain ⟨fs, hremove, rfl⟩ := Option.map_eq_some_iff.mp h
    exact ⟨rfl, FileSystem.look_of_remove hremove, FileSystem.look_remove_self hremove,
      fun q hq => FileSystem.look_remove_of_ne hremove hq⟩

/-- `rename` touches what is below its two paths. -/
theorem rename_frame (h : sys.rename old new = some sys') (hold : ¬ sys.placeOf old <+: q)
    (hnew : ¬ sys.placeOf new <+: q) : sys'.fs.look q = sys.fs.look q := by
  unfold rename at h
  split at h
  · rename_i p p' hp hp'
    obtain rfl := entryAt_eq_some hp
    obtain rfl := entryAt_eq_some hp'
    obtain ⟨-, h⟩ := Option.ite_none_right_eq_some.mp h
    obtain ⟨fs, hrename, rfl⟩ := Option.map_eq_some_iff.mp h
    exact FileSystem.look_rename_of_not_below hrename hold hnew
  · cases h

end Sys

/-! ## What the calls of the object may touch -/

namespace FileState

variable {s s' : FileState} {a : Call} {q : List Name}

/-- **The places that are a call's own**: the file, the targets of the moves
so far, and for a move the target and all that lies below the two. -/
def Own (s : FileState) : Call → List Name → Prop
  | .move newPath _ _, q => s.full <+: q ∨ s.sys.placeOf newPath <+: q ∨ q ∈ s.targets
  | _, q => q = s.full ∨ q ∈ s.targets

/-- A directory that was missing on the way to the file has been made. -/
def ParentMade (s s' : FileState) (q : List Name) : Prop :=
  s.sys.fs.look q = none ∧ s'.sys.fs.look q = some .dir ∧
    ∃ part, part <+: names s.file.dirName.toList ∧
      q = place (base s.sys.cwd s.file.dirName.toList ++ part)

/-- **A call touches its own places only**, but for missing directories, and
where `Remove` returns nothing is left at the place of the file. -/
structure TouchesOwn (s : FileState) (a : Call) : Prop where
  others : ∀ q, ¬ s.Own a q →
    (s.call a).1.sys.fs.look q = s.sys.fs.look q ∨ ParentMade s (s.call a).1 q
  removed : ∀ closeOk ok, a = .remove closeOk ok → (s.call a).2 = .ok () →
    (s.call a).1.sys.fs.look s.full = none

/-- **What a `Remove` must find**: it does not get as far as removing
something, or the bare name leads to the file itself, or, with no file there,
to the target of a move. -/
def RemovesOwn (s : FileState) : Call → Prop
  | .remove closeOk ok =>
    (s.file.fileDescriptor = none ∨ closeOk = true) → ok = true →
      s.sys.remove s.file.fileName ≠ none →
        s.bare = s.full ∨ s.sys.fs.look s.full = none ∧ s.bare ∈ s.targets
  | _ => True

/-- The same object in the same directory, all but its descriptor. -/
structure SameObject (s s' : FileState) : Prop where
  cwd : s'.sys.cwd = s.sys.cwd
  fullPath : s'.file.fullPath = s.file.fullPath
  fileName : s'.file.fileName = s.file.fileName
  dirName : s'.file.dirName = s.file.dirName
  targets : s'.targets = s.targets

theorem SameObject.refl (s : FileState) : SameObject s s := ⟨rfl, rfl, rfl, rfl, rfl⟩

theorem SameObject.trans {s s1 s' : FileState} (h : SameObject s s1) (h' : SameObject s1 s') :
    SameObject s s' where
  cwd := h'.cwd.trans h.cwd
  fullPath := h'.fullPath.trans h.fullPath
  fileName := h'.fileName.trans h.fileName
  dirName := h'.dirName.trans h.dirName
  targets := h'.targets.trans h.targets

/-- The object keeps its path. -/
theorem SameObject.full (h : SameObject s s') : s'.full = s.full := by
  rw [FileState.full, FileState.full, Sys.placeOf, Sys.placeOf, h.cwd, h.fullPath]

/-- An open descriptor is for the file at the place of the file. -/
def Holds (s : FileState) : Prop :=
  ∀ fd n, s.file.fileDescriptor = some fd → fd.file = some n →
    s.sys.fs.files.names s.full = some n

/-- A closed file holds nothing. -/
theorem holds_of_closed (h : s.file.fileDescriptor = none) : s.Holds := fun fd n hfd _ => by
  rw [h] at hfd
  cases hfd

/-- What `Open`, `Write` and `Trunc` do: the place of the file may change,
and missing directories may be made. -/
structure WorksOn (s s' : FileState) : Prop where
  same : SameObject s s'
  holds : s.Holds → s'.Holds
  look : s.Holds → ∀ q, q ≠ s.full →
    s'.sys.fs.look q = s.sys.fs.look q ∨ ParentMade s s' q

theorem WorksOn.refl (s : FileState) : WorksOn s s := ⟨.refl s, id, fun _ _ _ => .inl rfl⟩

/-- The directories are made first, then something else is done to the
file. -/
theorem WorksOn.trans {s1 : FileState} (h : WorksOn s s1) (h' : WorksOn s1 s')
    (hdirs : s1.Holds → ∀ q, q ≠ s1.full → s'.sys.fs.look q = s1.sys.fs.look q) :
    WorksOn s s' where
  same := h.same.trans h'.same
  holds hs := h'.holds (h.holds hs)
  look hs q hq := by
    have hsame := hdirs (h.holds hs) q (h.same.full ▸ hq)
    rw [ParentMade, hsame]
    exact h.look hs q hq

/-- `Create` makes folders only. -/
theorem createDir_worksOn (allows : List Name → Bool) (s : FileState)
    (hclosed : s.file.fileDescriptor = none) : WorksOn s (s.createDir allows) where
  same := ⟨rfl, rfl, rfl, rfl, rfl⟩
  holds _ := holds_of_closed hclosed
  look _ q _ := (createFolder_look allows s.sys.cwd s.sys.fs s.file.dirName).2 q

/-- Behind the directories only the place of the file changes. -/
theorem openCreated_worksOn (ok : Bool) (s : FileState) : WorksOn s (s.openCreated ok).1 ∧
    ∀ q, q ≠ s.full → (s.openCreated ok).1.sys.fs.look q = s.sys.fs.look q := by
  unfold openCreated
  split
  · exact ⟨.refl s, fun _ _ => rfl⟩
  · rename_i sys fd hopen
    obtain ⟨-, hopen⟩ := permit_eq_some.mp hopen
    obtain ⟨hcwd, hlook, hnames⟩ := Sys.openAt_frame hopen
    have hsame : SameObject s
        { s with sys := sys, file := { s.file with fileDescriptor := some fd } } :=
      ⟨hcwd, rfl, rfl, rfl, rfl⟩
    refine ⟨⟨hsame, fun _ fd' n hfd' hn => ?_, fun _ q hq => .inl (hlook q hq)⟩, hlook⟩
    obtain rfl := Option.some.inj hfd'
    rw [hsame.full]
    exact hnames n hn

/-- `Open` touches its own path. -/
theorem openFile_worksOn (allows : List Name → Bool) (ok : Bool) (s : FileState) :
    WorksOn s (s.openFile allows ok).1 := by
  unfold openFile
  split
  · exact .refl s
  · rename_i hclosed
    obtain ⟨hworks, hlook⟩ := openCreated_worksOn ok (s.createDir allows)
    exact (createDir_worksOn allows s (by simpa using hclosed)).trans hworks fun _ => hlook

/-- `Write` on an open file touches the file it holds. -/
theorem writeOpened_worksOn (data : String) (length : ℤ) (behind : List Char) (written : Option ℕ)
    (s : FileState) : WorksOn s (s.writeOpened data length behind written).1 ∧
      (s.Holds → ∀ q, q ≠ s.full →
        (s.writeOpened data length behind written).1.sys.fs.look q = s.sys.fs.look q) := by
  unfold writeOpened
  split
  · exact ⟨.refl s, fun _ _ _ => rfl⟩
  · rename_i fd hfd
    split
    · split
      · exact ⟨.refl s, fun _ _ _ => rfl⟩
      · rename_i sys fd' hwrite
        obtain ⟨k, -, hwrite⟩ := Option.bind_eq_some_iff.mp hwrite
        obtain ⟨hcwd, hnames, hfile, hlook⟩ := Sys.writeFile_frame hwrite
        have hsame : SameObject s
            { s with sys := sys, file := { s.file with fileDescriptor := some fd' } } :=
          ⟨hcwd, rfl, rfl, rfl, rfl⟩
        have hothers := fun hs : s.Holds => hlook s.full fun n hn => hs fd n hfd hn
        refine ⟨⟨hsame, fun hs fd'' n hfd'' hn => ?_, fun hs q hq => .inl (hothers hs q hq)⟩,
          hothers⟩
        obtain rfl := Option.some.inj hfd''
        rw [hsame.full]
        exact (congrFun hnames _).trans (hs fd n hfd (hfile ▸ hn))
    · exact ⟨.refl s, fun _ _ _ => rfl⟩

/-- `Write` opens first where it must. -/
theorem write_worksOn (data : String) (length : ℤ) (behind : List Char)
    (allows : List Name → Bool) (ok : Bool) (written : Option ℕ) (s : FileState) :
    WorksOn s (s.write data length behind allows ok written).1 := by
  have hopen := openFile_worksOn allows ok s
  unfold write
  split
  · rename_i s1 e h1
    rwa [h1] at hopen
  · rename_i s1 h1
    rw [h1] at hopen
    obtain ⟨hworks, hlook⟩ := writeOpened_worksOn data length behind written s1
    exact hopen.trans hworks hlook

/-- `Trunc` touches its own path. -/
theorem trunc_worksOn (ok : Bool) (s : FileState) : WorksOn s (s.trunc ok).1 := by
  unfold trunc
  split
  · exact .refl s
  · rename_i sys htrunc
    obtain ⟨-, htrunc⟩ := permit_eq_some.mp htrunc
    obtain ⟨hcwd, hlook, hnames⟩ := Sys.truncate_frame htrunc
    have hsame : SameObject s { s with sys := sys } := ⟨hcwd, rfl, rfl, rfl, rfl⟩
    refine ⟨hsame, fun hs fd n hfd hn => ?_, fun _ q hq => .inl (hlook q hq)⟩
    rw [hsame.full, show ({ s with sys := sys } : FileState).sys = sys from rfl, hnames]
    exact hs fd n hfd hn

/-- `Close` fails and changes nothing, or lets go of the descriptor. -/
theorem close_cases (ok : Bool) (s : FileState) :
    (s.file.fileDescriptor ≠ none ∧ ok = false ∧ ∃ e, s.close ok = (s, .error e)) ∨
      ((s.file.fileDescriptor = none ∨ ok = true) ∧ s.close ok = (s.dropDescriptor, .ok ())) := by
  unfold close
  cases hfd : s.file.fileDescriptor with
  | none =>
    refine .inr ⟨.inl rfl, ?_⟩
    have hsame : s.dropDescriptor = s := by
      obtain ⟨⟨params, fullPath, fileName, dirName, fd⟩, sys, targets⟩ := s
      obtain rfl : fd = none := hfd
      rfl
    rw [hsame]
    rfl
  | some fd =>
    cases ok with
    | false => exact .inl ⟨by simp, rfl, _, rfl⟩
    | true => exact .inr ⟨.inr rfl, rfl⟩

/-- A dropped descriptor holds nothing. -/
theorem holds_dropDescriptor (s : FileState) : s.dropDescriptor.Holds := holds_of_closed rfl

/-- A call that leaves the system as it is, with the descriptor it had or
none. -/
structure LeavesSystem (s s' : FileState) : Prop where
  sys : s'.sys = s.sys
  holds : s.Holds → s'.Holds

/-- `Close` leaves the file system. -/
theorem close_leaves (ok : Bool) (s : FileState) : LeavesSystem s (s.close ok).1 := by
  rcases close_cases ok s with ⟨-, -, e, hclose⟩ | ⟨-, hclose⟩
  · rw [hclose]
    exact ⟨rfl, id⟩
  · rw [hclose]
    exact ⟨rfl, fun _ => holds_dropDescriptor s⟩

/-- So does `ForceClose`. -/
theorem forceClose_leaves (ok : Bool) (s : FileState) : LeavesSystem s (s.forceClose ok).1 := by
  unfold forceClose
  rcases close_cases ok s with ⟨-, -, e, hclose⟩ | ⟨-, hclose⟩
  · rw [hclose]
    exact ⟨rfl, fun _ => holds_dropDescriptor s⟩
  · rw [hclose]
    exact ⟨rfl, fun _ => holds_dropDescriptor s⟩

/-- `Remove` throws and changes nothing, or removes what the bare name leads
to. -/
theorem remove_cases (closeOk ok : Bool) (s : FileState) :
    (LeavesSystem s (s.remove closeOk ok).1 ∧ (s.remove closeOk ok).2 ≠ .ok () ∧
      ¬ ((s.file.fileDescriptor = none ∨ closeOk = true) ∧ ok = true ∧
        s.sys.remove s.file.fileName ≠ none)) ∨
    (s.file.fileDescriptor = none ∨ closeOk = true) ∧ ok = true ∧
      ∃ sys, s.sys.remove s.file.fileName = some sys ∧
        s.remove closeOk ok = ({ s.dropDescriptor with sys := sys }, .ok ()) := by
  unfold remove
  rcases close_cases closeOk s with ⟨hopen, hrefused, e, hclose⟩ | ⟨hclosed, hclose⟩
  · refine .inl ?_
    rw [hclose]
    refine ⟨⟨rfl, id⟩, by simp, ?_⟩
    rintro ⟨hclosed | hok, -⟩
    · exact hopen hclosed
    · rw [hrefused] at hok
      cases hok
  · rw [hclose]
    cases hremove : permit ok (s.sys.remove s.file.fileName) with
    | none =>
      refine .inl ?_
      have hnone : permit ok (s.dropDescriptor.sys.remove s.dropDescriptor.file.fileName) = none :=
        hremove
      simp only [hnone]
      refine ⟨⟨rfl, fun _ => holds_dropDescriptor s⟩, by simp, ?_⟩
      rintro ⟨-, hok, hsome⟩
      rw [permit, if_pos hok] at hremove
      exact hsome hremove
    | some sys =>
      have hsome : permit ok (s.dropDescriptor.sys.remove s.dropDescriptor.file.fileName) =
          some sys := hremove
      obtain ⟨hok, hsys⟩ := permit_eq_some.mp hremove
      exact .inr ⟨hclosed, hok, sys, hsys, by simp only [hsome]⟩

/-- `Move` throws and changes nothing, or renames. -/
theorem move_cases (newPath : String) (closeOk ok : Bool) (s : FileState) :
    LeavesSystem s (s.move newPath closeOk ok).1 ∨
    ∃ sys, s.sys.rename s.file.fullPath newPath = some sys ∧
      (s.move newPath closeOk ok).1.sys = sys ∧
      (s.move newPath closeOk ok).1.file.fileDescriptor = none := by
  unfold move
  rcases close_cases closeOk s with ⟨-, -, e, hclose⟩ | ⟨-, hclose⟩
  · rw [hclose]
    exact .inl ⟨rfl, id⟩
  · rw [hclose]
    cases hrename : permit ok
        (s.dropDescriptor.sys.rename s.dropDescriptor.file.fullPath newPath) with
    | none =>
      simp only [hrename]
      exact .inl ⟨rfl, fun _ => holds_dropDescriptor s⟩
    | some sys =>
      simp only [hrename]
      exact .inr ⟨sys, (permit_eq_some.mp hrename).2, rfl, rfl⟩

/-- **The descriptor stays with the file**, whatever is called. -/
theorem Holds.step (h : s.Holds) (a : Call) : (s.call a).1.Holds := by
  cases a with
  | openFile allows ok => exact (openFile_worksOn allows ok s).holds h
  | write data length behind allows ok written =>
    exact (write_worksOn data length behind allows ok written s).holds h
  | trunc ok => exact (trunc_worksOn ok s).holds h
  | close ok => exact (close_leaves ok s).holds h
  | forceClose ok => exact (forceClose_leaves ok s).holds h
  | remove closeOk ok =>
    rcases remove_cases closeOk ok s with ⟨hleaves, -⟩ | ⟨-, -, sys, -, hremove⟩
    · exact hleaves.holds h
    · change (s.remove closeOk ok).1.Holds
      rw [hremove]
      exact holds_of_closed rfl
  | move newPath closeOk ok =>
    rcases move_cases newPath closeOk ok s with hleaves | ⟨sys, -, -, hclosed⟩
    · exact hleaves.holds h
    · exact holds_of_closed hclosed

/-- In every run an open file holds the file of its path. -/
theorem holds_of_reachable (h : fileSystem.Reachable s) : s.Holds := by
  refine h.invariant ?_ fun s a s' hs _ hstep => ?_
  · rintro s ⟨⟨fullPath, params, hfile⟩, -⟩
    refine holds_of_closed ?_
    rw [hfile, File.new]
    split
    · rfl
    · rfl
  · obtain rfl := Option.some.inj hstep
    exact hs.step a

/-- A call that works on its path touches nothing else. -/
theorem WorksOn.touchesOwn (h : WorksOn s (s.call a).1) (hs : s.Holds)
    (hown : ∀ q, q = s.full → s.Own a q) (ha : ∀ closeOk ok, a ≠ .remove closeOk ok) :
    s.TouchesOwn a where
  others q hq := h.look hs q fun heq => hq (hown q heq)
  removed closeOk ok heq _ := absurd heq (ha closeOk ok)

/-- So does one that leaves the file system. -/
theorem LeavesSystem.touchesOwn (h : LeavesSystem s (s.call a).1)
    (hret : ∀ closeOk ok, a = .remove closeOk ok → (s.call a).2 ≠ .ok ()) : s.TouchesOwn a where
  others q _ := .inl (by rw [h.sys])
  removed closeOk ok heq hok := absurd hok (hret closeOk ok heq)

/-- What `Remove` does where it removes something. -/
theorem remove_touchesOwn_iff {closeOk ok : Bool} {sys : Sys}
    (hsys : s.sys.remove s.file.fileName = some sys)
    (hcall : s.remove closeOk ok = ({ s.dropDescriptor with sys := sys }, .ok ())) :
    s.TouchesOwn (.remove closeOk ok) ↔
      s.bare = s.full ∨ s.sys.fs.look s.full = none ∧ s.bare ∈ s.targets := by
  obtain ⟨-, hthere, hgone, hothers⟩ := Sys.remove_frame hsys
  have hcall' : s.call (.remove closeOk ok) = ({ s.dropDescriptor with sys := sys }, .ok ()) :=
    hcall
  constructor
  · intro h
    by_cases heq : s.bare = s.full
    · exact .inl heq
    · have hfull := h.removed closeOk ok rfl (by rw [hcall'])
      rw [hcall', show ({ s.dropDescriptor with sys := sys } : FileState).sys = sys from rfl,
        hothers s.full (Ne.symm heq)] at hfull
      refine .inr ⟨hfull, ?_⟩
      by_contra htarget
      rcases h.others s.bare (by simp [Own, heq, htarget]) with hsame | ⟨hnone, -⟩
      · rw [hcall'] at hsame
        exact hthere (hsame.symm.trans hgone)
      · exact hthere hnone
  · intro h
    refine ⟨fun q hq => .inl ?_, fun _ _ _ _ => ?_⟩
    · rw [hcall']
      refine hothers q fun hbare => hq ?_
      rcases h with heq | ⟨-, htarget⟩
      · exact .inl (hbare.trans heq)
      · exact .inr (hbare ▸ htarget)
    · rw [hcall']
      change sys.fs.look s.full = none
      by_cases heq : s.full = s.bare
      · rw [heq]
        exact hgone
      · rw [hothers s.full heq]
        exact (h.resolve_left (Ne.symm heq)).1

/-- **Which calls touch only the file.** In every state that any calls of an
object lead to, whatever the system refuses, a call changes nothing but the
file, the targets of moves and missing directories on the way, and leaves no
file where `Remove` returns, exactly where it is no `Remove` that removes
something else than the file by its bare name. -/
theorem touchesOwn_iff (h : fileSystem.Reachable s) (a : Call) :
    s.TouchesOwn a ↔ s.RemovesOwn a := by
  have hs := holds_of_reachable h
  cases a with
  | openFile allows ok =>
    exact iff_of_true ((openFile_worksOn allows ok s).touchesOwn hs (fun _ => .inl) (by simp))
      trivial
  | write data length behind allows ok written =>
    exact iff_of_true ((write_worksOn data length behind allows ok written s).touchesOwn hs
      (fun _ => .inl) (by simp)) trivial
  | trunc ok =>
    exact iff_of_true ((trunc_worksOn ok s).touchesOwn hs (fun _ => .inl) (by simp)) trivial
  | close ok => exact iff_of_true ((close_leaves ok s).touchesOwn (by simp)) trivial
  | forceClose ok => exact iff_of_true ((forceClose_leaves ok s).touchesOwn (by simp)) trivial
  | remove closeOk ok =>
    rcases remove_cases closeOk ok s with ⟨hleaves, hthrows, hnot⟩ | ⟨hclose, hok, sys, hsys, hcall⟩
    · refine iff_of_true (hleaves.touchesOwn fun _ _ _ => hthrows) fun hclose hok hsome => ?_
      exact absurd ⟨hclose, hok, hsome⟩ hnot
    · rw [remove_touchesOwn_iff hsys hcall]
      exact ⟨fun h _ _ _ => h, fun h => h hclose hok (by simp [hsys])⟩
  | move newPath closeOk ok =>
    refine iff_of_true ?_ trivial
    rcases move_cases newPath closeOk ok s with hleaves | ⟨sys, hrename, hsys, -⟩
    · exact hleaves.touchesOwn (by simp)
    · refine ⟨fun q hq => .inl ?_, by simp⟩
      rw [Own, not_or, not_or] at hq
      rw [show (s.call (.move newPath closeOk ok)).1.sys = sys from hsys]
      exact Sys.rename_frame hrename hq.1 hq.2.1

end FileState

/-! ## An object in two directories -/

/-- A directory `logs`, and in the root and in it a file `x`. -/
def twoFiles : FileSystem Name (List Char) :=
  (((onlyRoot.mkdir [['l', 'o', 'g', 's']]).bind fun fs => fs.make [['x']] ['a']).bind fun fs =>
    fs.make [['l', 'o', 'g', 's'], ['x']] ['b']).getD onlyRoot

/-- An object for `/logs/x` in a working directory. -/
def logFile (cwd : List Name) : FileState := ⟨.new "/logs/x" defaultParams, ⟨cwd, twoFiles⟩, []⟩

/-- A file just made. -/
theorem logFile_reachable (cwd : List Name) : fileSystem.Reachable (logFile cwd) :=
  .init ⟨⟨"/logs/x", defaultParams, rfl⟩, rfl⟩

/-- With `/logs` for the working directory the file itself is removed. -/
theorem logFile_removesOwn :
    (logFile [['l', 'o', 'g', 's']]).TouchesOwn (.remove true true) :=
  (FileState.touchesOwn_iff (logFile_reachable _) _).mpr fun _ _ _ => .inl (by decide)

/-- With the root for it, the other file is removed and the file is left. -/
theorem logFile_not_touchesOwn :
    ¬ (logFile []).TouchesOwn (.remove true true) ∧
      ((logFile []).call (.remove true true)).2 = .ok () ∧
      ((logFile []).call (.remove true true)).1.sys.fs.look [['x']] = none ∧
      ((logFile []).call (.remove true true)).1.sys.fs.look (logFile []).full =
        some (.file ['b']) := by
  have hreturns : ((logFile []).call (.remove true true)).2 = .ok () := rfl
  have hleft : ((logFile []).call (.remove true true)).1.sys.fs.look (logFile []).full =
      some (.file ['b']) := by decide
  refine ⟨fun h => ?_, hreturns, by decide, hleft⟩
  have hgone := h.removed true true rfl hreturns
  rw [hleft] at hgone
  cases hgone

end Filesystem

end VerAI
