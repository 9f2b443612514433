import VerAI.Lib.RoundRobin
import Mathlib.Data.List.Nodup
import Mathlib.Order.MinMax
/-!
# In which lap an entry is finished

A worklist is scanned round robin, and an entry is finished when it is
visited with nothing pending that it needs. If the list has every entry after
what it needs, the lap in which it is finished can be read off the list: it
is the first one, from those of what it needs on, in which it is not passed
over (`lap`). It is passed over in a lap if the entry just before it, of
those still pending then, is finished in that lap (`freeLap`).

`InLap` says of a state of the scan where it stands: in lap `k`, with what is
before the index and what is from it on. Every turn keeps it
(`InLap.turn`), so that what is pending is told by the laps alone
(`InLap.mem_todo_iff`).
-/

namespace RoundRobin

universe u v w

variable {α : Type u} {σ : Type v} {ε : Type w}

/-- The first lap from `k` on in which an entry is not passed over, by the
laps of the entries before it, the nearest first. -/
def freeLap (k : ℕ) : List ℕ → ℕ
  | [] => k
  | m :: ms => if m < k then freeLap k ms else if m = k then freeLap (k + 1) ms else k

/-- In lap `k` an entry is not passed over: of the entries before it, the
nearest that is pending when the lap begins is not finished in it. -/
def Free (k : ℕ) (ms : List ℕ) : Prop := ∀ m, ms.find? (k ≤ ·) = some m → m ≠ k

section Free

variable {k j m : ℕ} {ms : List ℕ}

/-- A smaller lap in front does not matter. -/
theorem free_cons_of_lt (h : m < k) : Free k (m :: ms) ↔ Free k ms := by
  simp [Free, Nat.not_le.mpr h]

/-- A larger one makes the lap free. -/
theorem free_cons_of_gt (h : k < m) : Free k (m :: ms) := by
  intro m' hm
  rw [List.find?_cons_of_pos (by simpa using h.le)] at hm
  obtain rfl := Option.some.inj hm
  omega

/-- The lap itself takes it. -/
theorem not_free_cons_self : ¬ Free k (k :: ms) := fun h =>
  h k (List.find?_cons_of_pos (by simp)) rfl

/-- Several smaller laps in front do not matter. -/
theorem free_append_of_lt {ns : List ℕ} (h : ∀ m ∈ ns, m < k) : Free k (ns ++ ms) ↔ Free k ms := by
  induction ns with
  | nil => exact Iff.rfl
  | cons n ns ih =>
    rw [List.cons_append, free_cons_of_lt (h n List.mem_cons_self)]
    exact ih fun m hm => h m (List.mem_cons_of_mem _ hm)

/-- The free lap looked for is not before the one asked for, -/
theorem le_freeLap (k : ℕ) (ms : List ℕ) : k ≤ freeLap k ms := by
  fun_induction freeLap k ms with
  | case1 k => exact le_rfl
  | case2 k m ms h ih => exact ih
  | case3 m ms h ih => omega
  | case4 k m ms h hne => exact le_rfl

/-- and it is free, -/
theorem free_freeLap (k : ℕ) (ms : List ℕ) : Free (freeLap k ms) ms := by
  fun_induction freeLap k ms with
  | case1 k => exact fun m hm => by cases hm
  | case2 k m ms h ih => exact (free_cons_of_lt (h.trans_le (le_freeLap k ms))).mpr ih
  | case3 m ms h ih => exact (free_cons_of_lt (le_freeLap (m + 1) ms)).mpr ih
  | case4 k m ms h hne => exact free_cons_of_gt (by omega)

/-- It is the first one. -/
theorem freeLap_le (hle : k ≤ j) (hfree : Free j ms) : freeLap k ms ≤ j := by
  fun_induction freeLap k ms with
  | case1 k => exact hle
  | case2 k m ms h ih => exact ih hle ((free_cons_of_lt (by omega)).mp hfree)
  | case3 m ms h ih =>
    have hne : m ≠ j := by
      rintro rfl
      exact not_free_cons_self hfree
    exact ih (by omega) ((free_cons_of_lt (by omega)).mp hfree)
  | case4 k m ms h hne => exact hle

/-- The largest lap of a list is at least each of them, -/
theorem le_foldr_max {f : α → ℕ} {ys : List α} {y : α} (hy : y ∈ ys) :
    f y ≤ ys.foldr (fun z k => max (f z) k) 0 := by
  induction ys with
  | nil => cases hy
  | cons z ys ih =>
    rcases List.mem_cons.mp hy with rfl | hy
    · exact le_max_left _ _
    · exact (ih hy).trans (le_max_right _ _)

/-- and no more than a bound of them all. -/
theorem foldr_max_le {f : α → ℕ} {ys : List α} (h : ∀ y ∈ ys, f y ≤ k) :
    ys.foldr (fun z k => max (f z) k) 0 ≤ k := by
  induction ys with
  | nil => exact Nat.zero_le k
  | cons z ys ih =>
    exact max_le (h z List.mem_cons_self) (ih fun y hy => h y (List.mem_cons_of_mem _ hy))

end Free

variable [DecidableEq α]

/-- The laps of the entries of a list, the last entry first. -/
def lapIn (needs : α → List α) : List α → α → ℕ
  | [], _ => 0
  | x :: before, y =>
    if y = x then
      freeLap ((needs x).foldr (fun z k => max (lapIn needs before z) k) 0)
        (before.map (lapIn needs before))
    else lapIn needs before y

/-- **The lap in which an entry of a worklist is finished.** -/
def lap (needs : α → List α) (keys : List α) : α → ℕ := lapIn needs keys.reverse

/-- The entries of a list are numbered by laps: each one comes after what it
needs, and has the first lap from theirs on in which it is not passed over. -/
structure Numbered (needs : α → List α) (keys : List α) (laps : α → ℕ) : Prop where
  nodup : keys.Nodup
  needs_mem : ∀ before x after, keys = before ++ x :: after → ∀ y ∈ needs x, y ∈ before
  needs_le : ∀ before x after, keys = before ++ x :: after → ∀ y ∈ needs x, laps y ≤ laps x
  free : ∀ before x after, keys = before ++ x :: after → Free (laps x) (before.map laps).reverse
  first : ∀ before x after, keys = before ++ x :: after → ∀ k, (∀ y ∈ needs x, laps y ≤ k) →
    Free k (before.map laps).reverse → laps x ≤ k

section Lap

variable {needs : α → List α} {keys before after : List α} {x y : α} {k : ℕ}

/-- What comes after an entry does not change its lap. -/
theorem lap_append (hy : y ∉ after) : lap needs (before ++ after) y = lap needs before y := by
  unfold lap
  rw [List.reverse_append]
  have hy' : y ∉ after.reverse := by simpa using hy
  generalize after.reverse = ns at hy'
  induction ns with
  | nil => rfl
  | cons n ns ih =>
    obtain ⟨hne, hns⟩ := not_or.mp (mt List.mem_cons.mpr hy')
    rw [List.cons_append, lapIn, if_neg hne]
    exact ih hns

/-- The lap of the last entry, by those before it. -/
theorem lap_concat_self : lap needs (before ++ [x]) x =
    freeLap ((needs x).foldr (fun z k => max (lap needs before z) k) 0)
      (before.map (lap needs before)).reverse := by
  unfold lap
  rw [List.reverse_append, List.reverse_singleton, List.singleton_append, lapIn, if_pos rfl,
    List.map_reverse]

/-- **`lap` numbers a list** without repetition that has every entry after what
it needs. -/
theorem numbered_lap (hnodup : keys.Nodup)
    (hneeds : ∀ before x after, keys = before ++ x :: after → ∀ y ∈ needs x, y ∈ before) :
    Numbered needs keys (lap needs keys) := by
  -- before an entry the laps are those of the list up to there
  have hbefore : ∀ before x after, keys = before ++ x :: after → ∀ y ∈ before,
      lap needs keys y = lap needs before y := by
    rintro before x after rfl y hy
    exact lap_append fun hin => (List.nodup_append.mp hnodup).2.2 y hy y hin rfl
  have hself : ∀ before x after, keys = before ++ x :: after → lap needs keys x =
      freeLap ((needs x).foldr (fun z k => max (lap needs before z) k) 0)
        (before.map (lap needs keys)).reverse := by
    rintro before x after rfl
    have hx : x ∉ after :=
      (List.nodup_cons.mp (List.nodup_append.mp hnodup).2.1).1
    rw [List.map_congr_left (hbefore before x after rfl), ← lap_concat_self,
      ← List.singleton_append, ← List.append_assoc, lap_append hx]
  refine ⟨hnodup, hneeds, fun before x after h y hy => ?_, fun before x after h => ?_,
    fun before x after h k hk hfree => ?_⟩
  · rw [hself before x after h, hbefore before x after h y (hneeds before x after h y hy)]
    exact (le_foldr_max hy).trans (le_freeLap _ _)
  · rw [hself before x after h]
    exact free_freeLap _ _
  · rw [hself before x after h]
    refine freeLap_le (foldr_max_le fun y hy => ?_) hfree
    rw [← hbefore before x after h y (hneeds before x after h y hy)]
    exact hk y hy

end Lap

/-! ## Where a scan stands -/

/-- **The scan is in lap `k`**, with `behind` before the index and `ahead` from
it on, of which those are pending that no lap so far has finished; and the
entry at the index is not passed over. -/
structure InLap (laps : α → ℕ) (keys : List α) (k : ℕ) (behind ahead : List α)
    (s : State α σ) : Prop where
  keys : keys = behind ++ ahead
  todo : s.todo = behind.filter (k < laps ·) ++ ahead.filter (k ≤ laps ·)
  index : s.i = (behind.filter (k < laps ·)).length
  more : s.todo ≠ [] → ahead.filter (k ≤ laps ·) ≠ []
  free : Free k (behind.map laps).reverse

section Scan

variable {needs : α → List α} {keys behind ahead : List α} {laps : α → ℕ} {k : ℕ}
  {s s' : State α σ} {x y : α} {visit : σ → α → Except ε (Option σ)} {outOfRange : ε}

omit [DecidableEq α] in
/-- At the start lap 0 has all ahead. -/
theorem inLap_start (acc : σ) : InLap laps keys 0 [] keys (⟨keys, 0, acc⟩ : State α σ) where
  keys := rfl
  todo := by simp
  index := rfl
  more h := by simpa using h
  free := fun m hm => by cases hm

omit [DecidableEq α] in
/-- In the lap, or at the start of the next one where nothing is ahead. -/
theorem exists_inLap (k : ℕ) (behind ahead : List α) (hkeys : keys = behind ++ ahead)
    (htodo : s.todo = behind.filter (k < laps ·) ++ ahead.filter (k ≤ laps ·))
    (hindex : s.i = if ahead.filter (k ≤ laps ·) = [] then 0
      else (behind.filter (k < laps ·)).length)
    (hfree : ahead.filter (k ≤ laps ·) ≠ [] → Free k (behind.map laps).reverse) :
    ∃ k' behind' ahead', InLap laps keys k' behind' ahead' s := by
  by_cases hnil : ahead.filter (k ≤ laps ·) = []
  · rw [if_pos hnil] at hindex
    have hnext : ahead.filter (k < laps ·) = [] := by
      rw [List.filter_eq_nil_iff] at hnil ⊢
      intro y hy
      have := hnil y hy
      simp only [decide_eq_true_eq] at this ⊢
      omega
    have hall : s.todo = keys.filter (k + 1 ≤ laps ·) := by
      rw [htodo, hnil, hkeys, List.filter_append]
      simpa [Nat.succ_le_iff] using hnext
    exact ⟨k + 1, [], keys, rfl, by simpa using hall, hindex, fun h => hall ▸ h,
      fun m hm => by cases hm⟩
  · rw [if_neg hnil] at hindex
    exact ⟨k, behind, ahead, hkeys, htodo, hindex, fun _ => hnil, hfree hnil⟩

omit [DecidableEq α] in
/-- The entry at the index is the first one ahead that is pending. -/
theorem InLap.exists_split (h : InLap laps keys k behind ahead s) (hx : s.todo[s.i]? = some x) :
    ∃ before after, ahead = before ++ x :: after ∧ (∀ y ∈ before, laps y < k) ∧ k ≤ laps x := by
  have hhead : (ahead.filter (k ≤ laps ·))[0]? = some x := by
    rwa [h.todo, h.index, List.getElem?_append_right le_rfl, Nat.sub_self] at hx
  obtain ⟨rest, hrest⟩ : ∃ rest, ahead.filter (k ≤ laps ·) = x :: rest := by
    cases hfilter : ahead.filter (k ≤ laps ·) with
    | nil => simp [hfilter] at hhead
    | cons y rest =>
      rw [hfilter] at hhead
      exact ⟨rest, by simpa using hhead⟩
  obtain ⟨before, after, rfl, hbefore, hle, -⟩ := List.filter_eq_cons_iff.mp hrest
  exact ⟨before, after, rfl, fun y hy => by simpa using hbefore y hy, by simpa using hle⟩

omit [DecidableEq α] in
/-- Of what comes before the entry at the index, that is pending which has a
later lap. -/
theorem InLap.mem_todo_iff (h : InLap laps keys k behind ahead s)
    (hnum : Numbered needs keys laps) {before after : List α}
    (hahead : ahead = before ++ x :: after) (hbefore : ∀ y ∈ before, laps y < k)
    (hy : y ∈ behind ++ before) : y ∈ s.todo ↔ k < laps y := by
  have hnodup := hnum.nodup
  rw [h.keys] at hnodup
  rw [h.todo, List.mem_append, List.mem_filter, List.mem_filter, decide_eq_true_eq,
    decide_eq_true_eq]
  rcases List.mem_append.mp hy with hy | hy
  · have hnot : y ∉ ahead := fun hin => (List.nodup_append.mp hnodup).2.2 y hy y hin rfl
    simp [hy, hnot]
  · have hlt := hbefore y hy
    have hin : y ∈ ahead := hahead ▸ List.mem_append_left _ hy
    have hnot : y ∉ behind := fun hb => (List.nodup_append.mp hnodup).2.2 y hb y hin rfl
    simp only [hnot, false_and, hin, true_and, false_or]
    omega

omit [DecidableEq α] in
/-- **The entry at the index is finished in its lap**: nothing that it needs is
pending if and only if this is the lap. -/
theorem InLap.ready_iff (h : InLap laps keys k behind ahead s) (hnum : Numbered needs keys laps)
    (hx : s.todo[s.i]? = some x) : (∀ y ∈ needs x, y ∉ s.todo) ↔ laps x = k := by
  obtain ⟨before, after, hahead, hbefore, hle⟩ := h.exists_split hx
  have hkeys : keys = (behind ++ before) ++ x :: after := by
    rw [h.keys, hahead, List.append_assoc]
  have hpending : ∀ y ∈ needs x, y ∉ s.todo ↔ laps y ≤ k := fun y hy => by
    rw [h.mem_todo_iff hnum hahead hbefore (hnum.needs_mem _ _ _ hkeys y hy), not_lt]
  constructor
  · intro hready
    refine le_antisymm (hnum.first _ _ _ hkeys k (fun y hy => (hpending y hy).mp (hready y hy)) ?_)
      hle
    rw [List.map_append, List.reverse_append, free_append_of_lt (by simpa using hbefore)]
    exact h.free
  · rintro rfl y hy
    exact (hpending y hy).mpr (hnum.needs_le _ _ _ hkeys y hy)

omit [DecidableEq α] in
/-- What is pending at an entry, with the entries ahead of it that earlier laps
have finished left out. -/
theorem InLap.todo_eq {before after : List α}
    (h : InLap laps keys k behind (before ++ x :: after) s)
    (hbefore : ∀ y ∈ before, laps y < k) (hle : k ≤ laps x) :
    s.todo = behind.filter (k < laps ·) ++ x :: after.filter (k ≤ laps ·) := by
  have hskip : before.filter (k ≤ laps ·) = [] := by
    simpa [List.filter_eq_nil_iff] using hbefore
  rw [h.todo, List.filter_append, hskip, List.nil_append,
    List.filter_cons_of_pos (by simpa using hle)]

omit [DecidableEq α] in
/-- Nothing of what a lap goes through without stopping is pending in later ones. -/
theorem filter_eq_nil {before : List α} (hbefore : ∀ y ∈ before, laps y < k) :
    before.filter (k < laps ·) = [] := by
  simpa [List.filter_eq_nil_iff] using fun y hy => (hbefore y hy).le

omit [DecidableEq α] in
/-- **An entry is kept**: its lap is a later one, and the next entry is not
passed over. -/
theorem InLap.kept (h : InLap laps keys k behind ahead s) (hx : s.todo[s.i]? = some x)
    (hlater : k < laps x) : ∃ k' behind' ahead',
      InLap laps keys k' behind' ahead' { s with i := advance s.i s.todo.length } := by
  obtain ⟨before, after, rfl, hbefore, hle⟩ := h.exists_split hx
  have hskip := filter_eq_nil hbefore
  have htodo := h.todo_eq hbefore hle
  have hindex := h.index
  refine exists_inLap k (behind ++ before ++ [x]) after (by rw [h.keys]; simp) ?_ ?_ fun _ => ?_
  · rw [htodo]
    simp [hskip, hlater]
  · have hlen := congrArg List.length htodo
    simp only [List.length_append, List.length_cons] at hlen
    simp only [advance, List.filter_append, hskip, List.append_nil, List.length_append,
      List.filter_cons_of_pos (p := (k < laps ·)) (by simpa using hlater), List.filter_nil,
      List.length_singleton, ← List.length_eq_zero_iff]
    split <;> split <;> omega
  · rw [List.map_append, List.reverse_append]
    exact free_cons_of_gt hlater

omit [DecidableEq α] in
/-- The entry after one that is finished has a later lap: this one it is passed
over in. -/
theorem Numbered.lt_of_between (hnum : Numbered needs keys laps) {front between later : List α}
    {x z : α} (hkeys : keys = front ++ x :: (between ++ z :: later))
    (hbetween : ∀ y ∈ between, laps y < laps x) (hz : laps x ≤ laps z) : laps x < laps z := by
  refine lt_of_le_of_ne hz fun heq => ?_
  have hfree := hnum.free (front ++ x :: between) z later (by rw [hkeys]; simp)
  rw [← heq, List.map_append, List.reverse_append, List.map_cons, List.reverse_cons,
    List.append_assoc, free_append_of_lt (by simpa using hbetween)] at hfree
  exact not_free_cons_self hfree

/-- **An entry is finished** in its lap, and the next pending entry is passed
over. -/
theorem InLap.finished (h : InLap laps keys k behind ahead s) (hnum : Numbered needs keys laps)
    (hx : s.todo[s.i]? = some x) (hlap : laps x = k) (acc : σ) : ∃ k' behind' ahead',
      InLap laps keys k' behind' ahead'
        ⟨s.todo.erase x, advance s.i (s.todo.erase x).length, acc⟩ := by
  obtain ⟨before, after, rfl, hbefore, hle⟩ := h.exists_split hx
  have hskip := filter_eq_nil hbefore
  have hindex := h.index
  have herase : s.todo.erase x = behind.filter (k < laps ·) ++ after.filter (k ≤ laps ·) := by
    have hnot : x ∉ behind.filter (k < laps ·) := fun hin =>
      absurd (List.mem_filter.mp hin).2 (by simp [hlap])
    rw [h.todo_eq hbefore hle, List.erase_append_right _ hnot, List.erase_cons_head]
  cases hafter : after.filter (k ≤ laps ·) with
  | nil =>
    refine exists_inLap k (behind ++ before ++ [x]) after (by rw [h.keys]; simp) ?_ ?_
      fun hne => absurd hafter hne
    · rw [herase, hafter]
      simp [hskip, hlap]
    · rw [if_pos hafter, herase, hafter, hindex, List.append_nil, advance, if_neg (by omega)]
  | cons z rest =>
    obtain ⟨between, later, rfl, hbetween, hz, rfl⟩ := List.filter_eq_cons_iff.mp hafter
    simp only [decide_eq_true_eq, not_le] at hbetween hz
    have hskip' := filter_eq_nil hbetween
    subst hlap
    have hkeys : keys = (behind ++ before) ++ x :: (between ++ z :: later) := by
      rw [h.keys, List.append_assoc]
    have hlater : laps x < laps z := hnum.lt_of_between hkeys hbetween hz
    refine exists_inLap (laps x) (behind ++ before ++ x :: between ++ [z]) later
      (by rw [h.keys]; simp) ?_ ?_ fun _ => ?_
    · rw [herase, hafter]
      simp [hskip, hskip', hlater]
    · rw [herase, hafter, hindex]
      simp only [advance, List.filter_append, hskip, hskip', List.append_nil,
        List.length_append, List.length_cons, List.filter_cons, hlater, lt_irrefl,
        decide_true, decide_false, if_true, Bool.false_eq_true, if_false, List.filter_nil,
        List.length_nil, ← List.length_eq_zero_iff]
      split <;> split <;> omega
    · rw [List.map_append, List.reverse_append]
      exact free_cons_of_gt hlater

/-- **A turn keeps where the scan stands**, if it finishes an entry exactly
where nothing that it needs is pending. -/
theorem InLap.turn (h : InLap laps keys k behind ahead s) (hnum : Numbered needs keys laps)
    (hturn : RoundRobin.turn visit outOfRange s = .ok s')
    (hkeep : ∀ x, s.todo[s.i]? = some x → visit s.acc x = .ok none → ∃ y ∈ needs x, y ∈ s.todo)
    (hfinish : ∀ x acc, s.todo[s.i]? = some x → visit s.acc x = .ok (some acc) →
      ∀ y ∈ needs x, y ∉ s.todo) :
    ∃ k' behind' ahead', InLap laps keys k' behind' ahead' s' := by
  obtain ⟨x, hx, ⟨hv, rfl⟩ | ⟨acc, hv, rfl⟩⟩ := turn_cases hturn
  · obtain ⟨y, hy, hpending⟩ := hkeep x hx hv
    obtain ⟨-, -, -, -, hle⟩ := h.exists_split hx
    have hready := h.ready_iff hnum hx
    exact h.kept hx (lt_of_le_of_ne hle fun heq => hready.mpr heq.symm y hy hpending)
  · exact h.finished hnum hx ((h.ready_iff hnum hx).mp (hfinish x acc hx hv)) acc

end Scan

end RoundRobin
