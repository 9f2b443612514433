import VerAI.Filesystem.Paths
/-!
# `CreateFolder`

The loop cuts the path at its slashes and grows a second string, which is
handed to `stat` and `mkdir` after each part; empty parts leave it ending in
slashes. `createParts_makes` says what the two strings have to do with each
other: the grown one leads down the path, and the loop makes what is
missing.

The loop asks whether a part is there, not whether it is a directory, and
never for the path with its last slash. So of a path that ends in a slash
behind the name of a file it takes the file for the whole: no call of
`mkdir` fails, and `stat` of the path still does.
-/

namespace VerAI

namespace Filesystem

open Directories

/-- The next part of the path and what `erase` leaves of it. -/
def cutNext (nextPart : List Char) : List Char × List Char :=
  match nextPart.findIdx? (· = '/') with
  | some pos => (nextPart.take pos, nextPart.drop (pos + 1))
  | none => (nextPart, [])

/-- A cut makes what is left shorter. -/
theorem length_cutNext {nextPart : List Char} (h : nextPart ≠ []) :
    (cutNext nextPart).2.length < nextPart.length := by
  have hpos : 0 < nextPart.length := List.length_pos_of_ne_nil h
  unfold cutNext
  split
  · rw [List.length_drop]
    omega
  · simpa using hpos

section

variable {σ : Type} (D : DirSystem σ Name) (cwd : List Name)

/-- `stat(path) == 0`. Behind a last slash there must be a directory. -/
def stat (s : σ) (path : List Char) : Bool :=
  match D.kind s (resolve cwd path) with
  | some .dir => path ≠ []
  | some .other => path ≠ [] ∧ path.getLast? ≠ some '/'
  | none => false

/-- `mkdir(path, ..)`. -/
def mkdir (s : σ) (path : List Char) : Option σ := D.mkdir s (resolve cwd path)

/-- The loop: the file system it leaves and its calls of `mkdir`, each with
whether it made the directory. -/
def createParts (s : σ) (createdDir nextPart : List Char) : σ × List (List Name × Bool) :=
  if nextPart = [] then (s, [])
  else
    let createdDir := createdDir ++ (cutNext nextPart).1
    if createdDir ≠ [] ∧ stat D cwd s createdDir = false then
      match mkdir D cwd s createdDir with
      | none => (s, [(resolve cwd createdDir, false)])
      | some s1 =>
        let r := createParts s1 (createdDir ++ ['/']) (cutNext nextPart).2
        (r.1, (resolve cwd createdDir, true) :: r.2)
    else createParts s (createdDir ++ ['/']) (cutNext nextPart).2
termination_by nextPart.length
decreasing_by
  · exact length_cutNext ‹_›
  · exact length_cutNext ‹_›

/-- `created_dir` and `next_part` as the loop finds them. -/
def startParts : List Char → List Char × List Char
  | '/' :: nextPart => (['/'], nextPart)
  | nextPart => ([], nextPart)

/-- `common::filesystem::CreateFolder`. -/
def createFolder (s : σ) (dir : String) : σ × List (List Name × Bool) :=
  if dir.toList = [] ∨ stat D cwd s dir.toList = true then (s, [])
  else createParts D cwd s (startParts dir.toList).1 (startParts dir.toList).2

end

/-! ## The part cut off -/

variable {path path' part : List Char}

/-- **The part cut off** has no slash, and what is left begins behind one. -/
theorem cutNext_spec (nextPart : List Char) :
    '/' ∉ (cutNext nextPart).1 ∧
      names nextPart = names (cutNext nextPart).1 ++ names (cutNext nextPart).2 ∧
      ((cutNext nextPart).1 = [] → nextPart = [] ∨ nextPart.head? = some '/') := by
  unfold cutNext
  split
  · rename_i pos hpos
    obtain ⟨hlt, hslash, hbefore⟩ := List.findIdx?_eq_some_iff_getElem.mp hpos
    have hpart : '/' ∉ nextPart.take pos := by
      intro hmem
      obtain ⟨j, hj, heq⟩ := List.mem_take_iff_getElem.mp hmem
      have := hbefore j (by omega)
      simp [heq] at this
    have hcut : nextPart = nextPart.take pos ++ '/' :: nextPart.drop (pos + 1) := by
      have hdrop : nextPart.drop pos = '/' :: nextPart.drop (pos + 1) := by
        rw [List.drop_eq_getElem_cons hlt, of_decide_eq_true hslash]
      rw [← hdrop, List.take_append_drop]
    refine ⟨hpart, ?_, fun hnil => .inr ?_⟩
    · rw [← names_append_slash, ← hcut]
    · have hnil' : nextPart.take pos = [] := hnil
      rw [hcut, hnil']
      rfl
  · rename_i hnone
    refine ⟨fun hmem => ?_, (List.append_nil _).symm, .inl⟩
    simpa using List.findIdx?_eq_none_iff.mp hnone '/' hmem

/-! ## The two strings -/

section

variable {σ : Type} {D : DirSystem σ Name} {cwd : List Name} {s s1 t : σ}
  {createdDir nextPart : List Char}

/-- The grown string between two parts: nothing yet, with a path that does
not begin at the root, or a string behind a slash. -/
def Between (createdDir nextPart : List Char) : Prop :=
  createdDir = [] ∧ nextPart.head? ≠ some '/' ∨ ∃ behind, createdDir = behind ++ ['/']

/-- A slash stands between the two. -/
theorem between_append_slash (createdDir nextPart : List Char) :
    Between (createdDir ++ ['/']) nextPart := .inr ⟨createdDir, rfl⟩

/-- A part more leads one name further, or nowhere new where it is empty. -/
theorem resolve_append_part (cwd : List Name) (hb : Between createdDir nextPart)
    (hpart : '/' ∉ part) :
    resolve cwd (createdDir ++ part) = resolve cwd createdDir ++ names part := by
  rcases hb with ⟨rfl, -⟩ | ⟨behind, rfl⟩
  · have hhead : part.head? ≠ some '/' := fun h => hpart (List.mem_of_head? h)
    simp [resolve, hhead]
  · have hhead : (behind ++ '/' :: part).head? = (behind ++ ['/']).head? := by
      cases behind <;> rfl
    have hnames : names (behind ++ ['/']) = names behind := by
      rw [names_append_slash, names_nil, List.append_nil]
    rw [List.append_assoc, List.singleton_append]
    simp only [resolve, hhead, hnames, names_append_slash]
    split
    · rfl
    · rw [List.append_assoc]

/-- A slash at the end leads nowhere new. -/
theorem resolve_append_slash (h : path ≠ []) : resolve cwd (path ++ ['/']) = resolve cwd path := by
  have hhead : (path ++ ['/']).head? = path.head? := by
    cases path with
    | nil => exact absurd rfl h
    | cons c path => rfl
  simp only [resolve, hhead, names_append_slash, names_nil, List.append_nil]

/-- `stat` of a folder returns. -/
theorem stat_of_dir (hpath : path ≠ []) (h : D.kind s (resolve cwd path) = some .dir) :
    stat D cwd s path = true := by
  simp [stat, h, hpath]

/-- Where `stat` returns something is there. -/
theorem exists_of_stat (h : stat D cwd s path = true) : D.kind s (resolve cwd path) ≠ none := by
  intro hnone
  simp [stat, hnone] at h

/-- What the next part adds to the grown string: nothing to one that has
led somewhere, or a name. -/
theorem cutNext_cases {created : List Char} (hc : created = createdDir ++ (cutNext nextPart).1)
    (hb : Between createdDir nextPart) (hnext : nextPart ≠ []) (cwd : List Name) :
    (created = createdDir ∧ createdDir ≠ [] ∧
      names nextPart = names (cutNext nextPart).2) ∨
    (created ≠ [] ∧
      resolve cwd created = resolve cwd createdDir ++ [(cutNext nextPart).1] ∧
      names nextPart = (cutNext nextPart).1 :: names (cutNext nextPart).2) := by
  obtain ⟨hpart, hnames, hempty⟩ := cutNext_spec nextPart
  have hres := resolve_append_part cwd hb hpart
  rw [names_of_no_slash hpart] at hnames hres
  subst hc
  by_cases hnil : (cutNext nextPart).1 = []
  · rw [if_pos hnil, List.nil_append] at hnames
    refine .inl ⟨by rw [hnil, List.append_nil], ?_, hnames⟩
    rcases hb with ⟨-, hhead⟩ | ⟨behind, rfl⟩
    · rcases hempty hnil with h | h
      · exact absurd h hnext
      · exact absurd h hhead
    · simp
  · rw [if_neg hnil] at hnames hres
    exact .inr ⟨by simp [hnil], hres, hnames⟩

/-- **The loop makes what is missing.** -/
theorem createParts_makes (D : DirSystem σ Name) (cwd : List Name) (s : σ)
    (createdDir nextPart : List Char) (hb : Between createdDir nextPart)
    (hex : createdDir ≠ [] → D.kind s (resolve cwd createdDir) ≠ none) :
    Makes D s (resolve cwd createdDir) (names nextPart)
      (createParts D cwd s createdDir nextPart).1 (createParts D cwd s createdDir nextPart).2 := by
  fun_induction createParts D cwd s createdDir nextPart with
  | case1 s createdDir => exact .done
  | case2 s createdDir nextPart hnext created hmiss hmk =>
    have hcases := cutNext_cases (rfl : created = _) hb hnext cwd
    clear_value created
    rcases hcases with ⟨rfl, hne, -⟩ | ⟨hne, hres, hnames⟩
    -- an empty part behind something else than a directory
    · have hother : D.kind s (resolve cwd created) = some .other := by
        cases hk : D.kind s (resolve cwd created) with
        | none => exact absurd hk (hex hne)
        | some k =>
          cases k with
          | other => rfl
          | dir => exact absurd (stat_of_dir hne hk) (by simp [hmiss.2])
      exact .blocked hother
    · have hdir : D.kind s (resolve cwd created) ≠ some .dir := fun hk =>
        absurd (stat_of_dir hne hk) (by simp [hmiss.2])
      rw [mkdir, hres] at hmk
      rw [hres] at hdir
      rw [hnames, hres]
      exact .refused hdir hmk
  | case3 s createdDir nextPart hnext created hmiss s1 hmk r ih =>
    have hcases := cutNext_cases (rfl : created = _) hb hnext cwd
    clear_value created
    rcases hcases with ⟨rfl, hne, -⟩ | ⟨hne, hres, hnames⟩
    · exact absurd (D.absent_of_mkdir hmk) (hex hne)
    · have hdir : D.kind s1 (resolve cwd created) = some .dir := D.kind_mkdir hmk
      rw [resolve_append_slash hne] at ih
      have hrest := ih (between_append_slash _ _) fun _ => by simp [hdir]
      rw [mkdir, hres] at hmk
      rw [hres] at hrest
      rw [hnames, hres]
      exact .made hmk hrest
  | case4 s createdDir nextPart hnext created hmiss ih =>
    have hcases := cutNext_cases (rfl : created = _) hb hnext cwd
    clear_value created
    have hstat : created ≠ [] → stat D cwd s created = true := fun hne => by
      simpa [hne] using hmiss
    rcases hcases with ⟨rfl, hne, hnames⟩ | ⟨hne, hres, hnames⟩
    · rw [resolve_append_slash hne] at ih
      rw [hnames]
      exact ih (between_append_slash _ _) fun _ => hex hne
    · have hexists := exists_of_stat (hstat hne)
      rw [resolve_append_slash hne] at ih
      have hrest := ih (between_append_slash _ _) fun _ => hexists
      rw [hres] at hrest hexists
      rw [hnames]
      exact .there hexists hrest

/-! ## A second call -/

/-- The loop starts where the path does, with nothing cut off it. -/
theorem startParts_spec (cwd : List Name) (path : List Char) :
    Between (startParts path).1 (startParts path).2 ∧
      resolve cwd (startParts path).1 = base cwd path ∧
      names (startParts path).2 = names path ∧
      ((startParts path).1 ≠ [] → base cwd path = []) := by
  unfold startParts
  split
  · rename_i nextPart
    refine ⟨.inr ⟨[], rfl⟩, rfl, ?_, fun _ => rfl⟩
    exact (names_append_slash [] nextPart).symm
  · rename_i hslash
    have hhead : path.head? ≠ some '/' := by
      intro h
      obtain ⟨rest, rfl⟩ := List.head?_eq_some_iff.mp h
      exact hslash rest rfl
    refine ⟨.inl ⟨rfl, hhead⟩, ?_, rfl, fun h => absurd rfl h⟩
    simp [resolve, base, hhead]

/-- Only slashes lead to no name, and they lead to the root. -/
theorem names_ne_nil_or_root (cwd : List Name) (hpath : path ≠ []) :
    names path ≠ [] ∨ base cwd path = [] := by
  by_cases hhead : path.head? = some '/'
  · exact .inr (if_pos hhead)
  · obtain ⟨hpart, hnames, hempty⟩ := cutNext_spec path
    have hne : (cutNext path).1 ≠ [] := fun hnil => by
      rcases hempty hnil with h | h
      · exact hpath h
      · exact hhead h
    rw [names_of_no_slash hpart, if_neg hne] at hnames
    exact .inl (by simp [hnames])

/-- Either the whole path is found at once, or the loop is gone through. -/
theorem createFolder_cases (D : DirSystem σ Name) (cwd : List Name) (s : σ) {dir : String}
    (hdir : dir.toList ≠ []) :
    (stat D cwd s dir.toList = true ∧ createFolder D cwd s dir = (s, [])) ∨
      (stat D cwd s dir.toList = false ∧ createFolder D cwd s dir =
        createParts D cwd s (startParts dir.toList).1 (startParts dir.toList).2) := by
  cases hstat : stat D cwd s dir.toList with
  | true => exact .inl ⟨rfl, if_pos (.inr hstat)⟩
  | false => exact .inr ⟨rfl, if_neg (by simp [hdir, hstat])⟩

/-- **Called for a path, it makes what is missing of it.** -/
theorem createFolder_missing (D : DirSystem σ Name) (cwd : List Name) (s : σ) {dir : String}
    (hdir : dir.toList ≠ []) :
    MakesMissing D (base cwd dir.toList) (names dir.toList) s (createFolder D cwd s dir).1
      (createFolder D cwd s dir).2 := by
  rcases createFolder_cases D cwd s hdir with ⟨hstat, hfound⟩ | ⟨-, hloop⟩
  · have hexists := exists_of_stat hstat
    rw [resolve_eq] at hexists
    rw [hfound]
    exact .of_exists hexists
  · obtain ⟨hbetween, hstart, hnames, hroot⟩ := startParts_spec cwd dir.toList
    have hmakes := createParts_makes D cwd s _ _ hbetween fun h => by
      rw [hstart, hroot h, D.kind_root]
      simp
    rw [hstart, hnames, ← hloop] at hmakes
    refine hmakes.missing ?_
    rcases names_ne_nil_or_root cwd hdir with h | h
    · exact .inl h
    · exact .inr (by simp [h, D.kind_root])

end

/-- A file system with its root alone. -/
def onlyRoot : FileSystem Name (List Char) where
  files := .empty []
  dirs := [[]]
  places := []
  root_mem := by simp
  dir_of_dir h := by simp at h
  dir_of_file h := absurd rfl h
  file_of_dir _ := rfl
  mem_places h := absurd rfl h

/-- **What `CreateFolder` leaves alone**: the files, and every place but those
of the missing directories. -/
theorem createFolder_look {β : Type} (allows : List Name → Bool) (cwd : List Name)
    (fs : FileSystem Name β) (dir : String) :
    (createFolder (treeSystem allows) cwd fs dir).1.files = fs.files ∧
      ∀ q, (createFolder (treeSystem allows) cwd fs dir).1.look q = fs.look q ∨
        (fs.look q = none ∧
          (createFolder (treeSystem allows) cwd fs dir).1.look q = some .dir ∧
          ∃ part, part <+: names dir.toList ∧ q = place (base cwd dir.toList ++ part)) := by
  by_cases hdir : dir.toList = []
  · rw [createFolder, if_pos (.inl hdir)]
    exact ⟨rfl, fun q => .inl rfl⟩
  · have hmissing := createFolder_missing (treeSystem allows) cwd fs hdir
    obtain ⟨hfiles, hlook⟩ := look_of_foldlM hmissing.changes
    refine ⟨hfiles, fun q => ?_⟩
    rcases hlook q with hsame | ⟨hnone, hmade, p, hp, rfl⟩
    · exact .inl hsame
    · obtain ⟨⟨part, -, hpart, rfl⟩, -⟩ := hmissing.new p hp
      exact .inr ⟨hnone, hmade, part, hpart, rfl⟩

end Filesystem

end VerAI
