import Mathlib.Data.List.Infix
import Mathlib.Order.Basic
/-!
# Making the directories of a path

What `stat` and `mkdir` show of a file system: a path leads to a directory,
to something else or nowhere, and a call may make a directory where nothing
is, or be refused. `Makes` goes down a path and makes what is missing; what
it comes to is told by the calls it makes.
-/

namespace Directories

universe u v

/-- What a path leads to. -/
inductive Kind
  | dir
  | other
  deriving DecidableEq

/-- **A file system as `stat` and `mkdir` see it.** A path is the list of
its names from the root. `mkdir` may be refused for any reason; it succeeds
only below a directory and where nothing is, and what exists stays. -/
structure DirSystem (σ : Type u) (ν : Type v) where
  kind : σ → List ν → Option Kind
  mkdir : σ → List ν → Option σ
  kind_root : ∀ s, kind s [] = some .dir
  dir_of_child : ∀ {s p n}, kind s (p ++ [n]) ≠ none → kind s p = some .dir
  absent_of_mkdir : ∀ {s s' p}, mkdir s p = some s' → kind s p = none
  parent_of_mkdir : ∀ {s s' p n}, mkdir s (p ++ [n]) = some s' → kind s p = some .dir
  kind_mkdir : ∀ {s s' p}, mkdir s p = some s' → kind s' p = some .dir
  kind_mkdir_of_exists : ∀ {s s' p q}, mkdir s p = some s' → kind s q ≠ none →
    kind s' q = kind s q

section

variable {σ : Type u} {ν : Type v} {D : DirSystem σ ν} {s s' t : σ} {p q r c : List ν} {n : ν}

namespace DirSystem

/-- What exists in the first state is there in the second, and the same. -/
def Keeps (D : DirSystem σ ν) (s t : σ) : Prop := ∀ q, D.kind s q ≠ none → D.kind t q = D.kind s q

theorem Keeps.refl (s : σ) : D.Keeps s s := fun _ _ => rfl

theorem Keeps.trans (h : D.Keeps s s') (h' : D.Keeps s' t) : D.Keeps s t := fun q hq => by
  rw [h' q (by rwa [h q hq]), h q hq]

theorem Keeps.exists (h : D.Keeps s t) (hq : D.kind s q ≠ none) : D.kind t q ≠ none := by
  rwa [h q hq]

theorem keeps_mkdir (h : D.mkdir s p = some t) : D.Keeps s t := fun _ hq =>
  D.kind_mkdir_of_exists h hq

/-- What exists cannot be made. -/
theorem mkdir_of_exists (h : D.kind s p ≠ none) : D.mkdir s p = none := by
  cases hmk : D.mkdir s p with
  | none => rfl
  | some t => exact absurd (D.absent_of_mkdir hmk) h

/-- **Above what exists there are directories.** -/
theorem dir_of_append (h : D.kind s (p ++ q) ≠ none) (hq : q ≠ []) : D.kind s p = some .dir := by
  induction q using List.reverseRecOn with
  | nil => exact absurd rfl hq
  | append_singleton q n ih =>
    rw [← List.append_assoc] at h
    have hparent := D.dir_of_child h
    by_cases hnil : q = []
    · rwa [hnil, List.append_nil] at hparent
    · exact ih (by simp [hparent]) hnil

theorem exists_of_prefix (h : D.kind s q ≠ none) (hp : p <+: q) : D.kind s p ≠ none := by
  obtain ⟨r, rfl⟩ := hp
  by_cases hr : r = []
  · rwa [hr, List.append_nil] at h
  · simp [D.dir_of_append h hr]

end DirSystem

/-- **Going down a path and making what is missing**, from a state and the
part of the path behind, with the calls of `mkdir` and whether each made its
directory. A call that is refused ends it; where the path has come to
something else than a directory, it may also ask for that once more. -/
inductive Makes (D : DirSystem σ ν) :
    σ → List ν → List ν → σ → List (List ν × Bool) → Prop
  | done {s : σ} {p : List ν} : Makes D s p [] s []
  | there {s s' : σ} {p q : List ν} {n : ν} {calls : List (List ν × Bool)} :
      D.kind s (p ++ [n]) ≠ none → Makes D s (p ++ [n]) q s' calls → Makes D s p (n :: q) s' calls
  | made {s s1 s' : σ} {p q : List ν} {n : ν} {calls : List (List ν × Bool)} :
      D.mkdir s (p ++ [n]) = some s1 → Makes D s1 (p ++ [n]) q s' calls →
      Makes D s p (n :: q) s' ((p ++ [n], true) :: calls)
  | refused {s : σ} {p q : List ν} {n : ν} :
      D.kind s (p ++ [n]) ≠ some .dir → D.mkdir s (p ++ [n]) = none →
      Makes D s p (n :: q) s [(p ++ [n], false)]
  | blocked {s : σ} {p q : List ν} : D.kind s p = some .other → Makes D s p q s [(p, false)]

/-- The directories the calls have made. -/
def created (calls : List (List ν × Bool)) : List (List ν) :=
  (calls.filter fun call => call.2).map Prod.fst

variable {calls : List (List ν × Bool)}

@[simp] theorem created_cons_true : created ((p, true) :: calls) = p :: created calls := by
  simp [created]

theorem mem_created : p ∈ created calls ↔ (p, true) ∈ calls := by
  simp [created]

namespace Makes

/-- Nothing that exists is touched. -/
theorem keeps (h : Makes D s p q s' calls) : D.Keeps s s' := by
  induction h with
  | done => exact .refl _
  | there _ _ ih => exact ih
  | made hmkdir _ ih => exact (DirSystem.keeps_mkdir hmkdir).trans ih
  | refused _ _ => exact .refl _
  | blocked _ => exact .refl _

/-- **The calls that succeed are all that happens.** -/
theorem foldlM_created (h : Makes D s p q s' calls) :
    (created calls).foldlM D.mkdir s = some s' := by
  induction h with
  | done => rfl
  | there _ _ ih => exact ih
  | made hmkdir _ ih => rw [created_cons_true, List.foldlM_cons, hmkdir]; exact ih
  | refused _ _ => rfl
  | blocked _ => rfl

/-- Every call is for a part of the path. -/
theorem prefix_of_mem (h : Makes D s p q s' calls) {call : List ν × Bool} (hc : call ∈ calls) :
    p <+: call.1 ∧ call.1 <+: p ++ q := by
  induction h with
  | done => cases hc
  | @there _ _ p q n _ _ _ ih =>
    obtain ⟨hbehind, hwhole⟩ := ih hc
    rw [List.append_assoc] at hwhole
    exact ⟨(List.prefix_append p [n]).trans hbehind, hwhole⟩
  | @made _ _ _ p q n _ _ _ ih =>
    rcases List.mem_cons.mp hc with rfl | hc
    · exact ⟨List.prefix_append p [n], by simp⟩
    · obtain ⟨hbehind, hwhole⟩ := ih hc
      rw [List.append_assoc] at hwhole
      exact ⟨(List.prefix_append p [n]).trans hbehind, hwhole⟩
  | @refused _ p q n _ _ =>
    obtain rfl := List.mem_singleton.mp hc
    exact ⟨List.prefix_append p [n], by simp⟩
  | @blocked _ p q _ =>
    obtain rfl := List.mem_singleton.mp hc
    exact ⟨List.prefix_refl p, List.prefix_append p q⟩

/-- A call is for more than the part behind, but where that is something
else than a directory and the call is refused. -/
theorem length_lt_of_mem (h : Makes D s p q s' calls) {call : List ν × Bool} (hc : call ∈ calls)
    (hp : call.2 = true ∨ D.kind s p = some .dir) : p.length < call.1.length := by
  have hlt : ∀ {p : List ν} {n : ν}, p ++ [n] <+: call.1 → p.length < call.1.length := by
    intro p n hle
    have := hle.length_le
    rw [List.length_append, List.length_singleton] at this
    omega
  cases h with
  | done => cases hc
  | there _ hrest => exact hlt (hrest.prefix_of_mem hc).1
  | made _ hrest =>
    rcases List.mem_cons.mp hc with rfl | hc
    · exact hlt (List.prefix_refl _)
    · exact hlt (hrest.prefix_of_mem hc).1
  | refused _ _ =>
    obtain rfl := List.mem_singleton.mp hc
    exact hlt (List.prefix_refl _)
  | blocked hother =>
    obtain rfl := List.mem_singleton.mp hc
    rcases hp with hp | hp
    · cases hp
    · rw [hother] at hp
      cases hp

/-- **Outermost first**: the calls are for ever longer parts of the path. -/
theorem pairwise_length (h : Makes D s p q s' calls) :
    calls.Pairwise fun call call' => call.1.length < call'.1.length := by
  induction h with
  | done => exact .nil
  | there _ _ ih => exact ih
  | made hmkdir hrest ih =>
    exact .cons (fun call hc => hrest.length_lt_of_mem hc (.inr (D.kind_mkdir hmkdir))) ih
  | refused _ _ => exact List.pairwise_singleton _ _
  | blocked _ => exact List.pairwise_singleton _ _

/-- **Where nothing is refused the whole path exists.** -/
theorem exists_of_not_refused (h : Makes D s p q s' calls) (hall : ∀ call ∈ calls, call.2 = true)
    (hp : q ≠ [] ∨ D.kind s p ≠ none) : D.kind s' (p ++ q) ≠ none := by
  induction h with
  | done => simpa using hp
  | @there _ _ p q n _ hn _ ih =>
    have hpath := ih hall (.inr hn)
    rwa [List.append_assoc] at hpath
  | @made _ _ _ p q n _ hmkdir _ ih =>
    have hpath := ih (fun call hc => hall call (List.mem_cons_of_mem _ hc))
      (.inr (by simp [D.kind_mkdir hmkdir]))
    rwa [List.append_assoc] at hpath
  | refused _ _ => exact absurd (hall _ List.mem_cons_self) (by simp)
  | blocked _ => exact absurd (hall _ List.mem_cons_self) (by simp)

/-- **A refused call is the last**: the others are for shorter parts. -/
theorem length_lt_of_refused (h : Makes D s p q s' calls) (hr : (r, false) ∈ calls)
    {call : List ν × Bool} (hc : call ∈ calls) : call = (r, false) ∨ call.1.length < r.length := by
  induction h with
  | done => cases hr
  | there _ _ ih => exact ih hr hc
  | made hmkdir hrest ih =>
    have hr' := (List.mem_cons.mp hr).resolve_left (by simp)
    rcases List.mem_cons.mp hc with rfl | hc
    · exact .inr (hrest.length_lt_of_mem hr' (.inr (D.kind_mkdir hmkdir)))
    · exact ih hr' hc
  | refused _ _ =>
    rw [List.mem_singleton] at hr hc
    exact .inl (hc.trans hr.symm)
  | blocked _ =>
    rw [List.mem_singleton] at hr hc
    exact .inl (hc.trans hr.symm)

/-- **A refused call** finds no directory at its path and is refused one. -/
theorem mkdir_of_refused (h : Makes D s p q s' calls) (hr : (r, false) ∈ calls) :
    D.kind s' r ≠ some .dir ∧ D.mkdir s' r = none := by
  induction h with
  | done => cases hr
  | there _ _ ih => exact ih hr
  | made _ _ ih => exact ih ((List.mem_cons.mp hr).resolve_left (by simp))
  | refused hdir hmk =>
    obtain rfl : r = _ := by simpa using hr
    exact ⟨hdir, hmk⟩
  | blocked hother =>
    obtain rfl : r = _ := by simpa using hr
    exact ⟨by simp [hother], DirSystem.mkdir_of_exists (by simp [hother])⟩

/-- **Before a refused call everything is there**: each shorter part of the
path, down from the part behind. -/
theorem exists_of_refused (h : Makes D s p q s' calls) (hr : (r, false) ∈ calls) (hc : c <+: r)
    (hlen : p.length < c.length) (hlt : c.length < r.length) : D.kind s' c ≠ none := by
  have hnext : ∀ {s1 : σ} {p q : List ν} {n : ν} {calls : List (List ν × Bool)},
      D.kind s1 (p ++ [n]) ≠ none → Makes D s1 (p ++ [n]) q s' calls → (r, false) ∈ calls →
      p.length < c.length → ((p ++ [n]).length < c.length → D.kind s' c ≠ none) →
      D.kind s' c ≠ none := by
    intro s1 p q n calls hn hrest hr hlen hdeeper
    have hle : (p ++ [n]).length ≤ c.length := by
      rw [List.length_append, List.length_singleton]
      omega
    rcases Nat.lt_or_eq_of_le hle with hdeep | heq
    · exact hdeeper hdeep
    · have hsame : p ++ [n] = c := (List.prefix_of_prefix_length_le (hrest.prefix_of_mem hr).1 hc
        hle).eq_of_length heq
      exact hsame ▸ hrest.keeps.exists hn
  induction h with
  | done => cases hr
  | there hn hrest ih => exact hnext hn hrest hr hlen fun hdeep => ih hr hdeep hnext
  | made hmkdir hrest ih =>
    have hr' := (List.mem_cons.mp hr).resolve_left (by simp)
    exact hnext (by simp [D.kind_mkdir hmkdir]) hrest hr' hlen fun hdeep => ih hr' hdeep hnext
  | refused _ _ =>
    obtain rfl : r = _ := by simpa using hr
    rw [List.length_append, List.length_singleton] at hlt
    omega
  | blocked _ =>
    obtain rfl : r = _ := by simpa using hr
    omega

end Makes

theorem keeps_of_foldlM {ps : List (List ν)} (h : ps.foldlM D.mkdir s = some s') :
    D.Keeps s s' := by
  induction ps generalizing s with
  | nil =>
    obtain rfl : s = s' := by simpa using h
    exact .refl s
  | cons p ps ih =>
    rw [List.foldlM_cons] at h
    obtain ⟨s1, hmkdir, hrest⟩ := Option.bind_eq_some_iff.mp h
    exact (DirSystem.keeps_mkdir hmkdir).trans (ih hrest)

/-- **What is made** was not there before and is a directory afterwards. -/
theorem new_of_mem {ps : List (List ν)} (h : ps.foldlM D.mkdir s = some s') (hp : p ∈ ps) :
    D.kind s p = none ∧ D.kind s' p = some .dir := by
  obtain ⟨before, after, rfl⟩ := List.append_of_mem hp
  rw [List.foldlM_append] at h
  obtain ⟨s1, hbefore, h⟩ := Option.bind_eq_some_iff.mp h
  rw [List.foldlM_cons] at h
  obtain ⟨s2, hmkdir, hafter⟩ := Option.bind_eq_some_iff.mp h
  have hdir := D.kind_mkdir hmkdir
  refine ⟨?_, ?_⟩
  · by_contra hex
    exact (keeps_of_foldlM hbefore).exists hex (D.absent_of_mkdir hmkdir)
  · rw [keeps_of_foldlM hafter p (by simp [hdir]), hdir]

/-- Where a call changes its own path alone, the others are as they were. -/
theorem kind_of_not_mem {ps : List (List ν)}
    (hframe : ∀ t t' p, D.mkdir t p = some t' → p ≠ q → D.kind t' q = D.kind t q)
    (h : ps.foldlM D.mkdir s = some s') (hq : q ∉ ps) : D.kind s' q = D.kind s q := by
  induction ps generalizing s with
  | nil =>
    obtain rfl : s = s' := by simpa using h
    rfl
  | cons p ps ih =>
    rw [List.foldlM_cons] at h
    obtain ⟨s1, hmkdir, hrest⟩ := Option.bind_eq_some_iff.mp h
    rw [List.mem_cons, not_or] at hq
    rw [ih hrest hq.2, hframe s s1 p hmkdir fun heq => hq.1 heq.symm]

/-- **Exactly the missing directories of a path are made**: what calls of
`mkdir` do between two states, for the path that leads from `start` through
`path`. -/
structure MakesMissing (D : DirSystem σ ν) (start path : List ν) (s s' : σ)
    (calls : List (List ν × Bool)) : Prop where
  /-- The calls that make a directory are all that happens. -/
  changes : (created calls).foldlM D.mkdir s = some s'
  new : ∀ p ∈ created calls, (∃ part, part ≠ [] ∧ part <+: path ∧ p = start ++ part) ∧
    D.kind s p = none ∧ D.kind s' p = some .dir
  kept : D.Keeps s s'
  /-- And where a call changes its own path alone, there is no other change. -/
  others : (∀ t t' p q, D.mkdir t p = some t' → p ≠ q → D.kind t' q = D.kind t q) →
    ∀ q, q ∉ created calls → D.kind s' q = D.kind s q
  outermostFirst : (created calls).Pairwise fun p p' => p.length < p'.length
  /-- Where no call is refused the path is there, and all above it. -/
  complete : (∀ call ∈ calls, call.2 = true) → ∀ p, p <+: start ++ path → D.kind s' p ≠ none
  /-- A refused call is one of `mkdir` that makes nothing, where no directory
  is; it is for a part of the path all shorter parts of which are there, and
  no longer one has been made. -/
  refused : ∀ p, (p, false) ∈ calls → D.kind s' p ≠ some .dir ∧ D.mkdir s' p = none ∧
    ∃ part, part <+: path ∧ p = start ++ part ∧
      (∀ shorter, shorter ≠ [] → shorter <+: part → shorter ≠ part →
        D.kind s' (start ++ shorter) ≠ none) ∧
      ∀ p' ∈ created calls, p'.length < p.length

variable {start path : List ν}

/-- Nothing is missing of a path that exists. -/
theorem MakesMissing.of_exists (h : D.kind s (start ++ path) ≠ none) :
    MakesMissing D start path s s [] where
  changes := rfl
  new := nofun
  kept := .refl s
  others := fun _ _ _ => rfl
  outermostFirst := .nil
  complete := fun _ _ hp => DirSystem.exists_of_prefix h hp
  refused := nofun

/-- The part of the path a call is for. -/
theorem Makes.exists_part (h : Makes D s start path s' calls) {made : Bool}
    (hc : (p, made) ∈ calls) : ∃ part, part <+: path ∧ p = start ++ part := by
  obtain ⟨⟨part, hpart⟩, hwhole⟩ := h.prefix_of_mem hc
  rw [← hpart] at hwhole
  exact ⟨part, (List.prefix_append_right_inj start).mp hwhole, hpart.symm⟩

/-- **Going down a path makes exactly what is missing of it.** -/
theorem Makes.missing (h : Makes D s start path s' calls)
    (hstart : path ≠ [] ∨ D.kind s start ≠ none) : MakesMissing D start path s s' calls where
  changes := h.foldlM_created
  new p hp := by
    obtain ⟨part, hpart, rfl⟩ := h.exists_part (mem_created.mp hp)
    have hlt := h.length_lt_of_mem (mem_created.mp hp) (.inl rfl)
    refine ⟨⟨part, ?_, hpart, rfl⟩, new_of_mem h.foldlM_created hp⟩
    rintro rfl
    simp at hlt
  kept := h.keeps
  others hframe q hq := kind_of_not_mem (fun t t' p ht hne => hframe t t' p q ht hne)
    h.foldlM_created hq
  outermostFirst := by
    rw [created, List.pairwise_map]
    exact h.pairwise_length.filter _
  complete hall p hp := DirSystem.exists_of_prefix (h.exists_of_not_refused hall hstart) hp
  refused p hp := by
    obtain ⟨hdir, hmk⟩ := h.mkdir_of_refused hp
    obtain ⟨part, hpart, rfl⟩ := h.exists_part hp
    refine ⟨hdir, hmk, part, hpart, rfl, fun shorter hne hshorter hnot => ?_, fun p' hp' => ?_⟩
    · have hlt : shorter.length < part.length := by
        rcases Nat.lt_or_eq_of_le hshorter.length_le with hlt | hlen
        · exact hlt
        · exact absurd (hshorter.eq_of_length hlen) hnot
      have hpos : 0 < shorter.length := List.length_pos_of_ne_nil hne
      refine h.exists_of_refused hp ((List.prefix_append_right_inj start).mpr hshorter) ?_ ?_
      · rw [List.length_append]
        omega
      · rw [List.length_append, List.length_append]
        omega
    · exact (h.length_lt_of_refused hp (mem_created.mp hp')).resolve_left (by simp)

end

end Directories
