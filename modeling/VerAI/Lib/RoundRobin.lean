import Mathlib.Logic.Relation
import Mathlib.Data.List.Basic
/-!
# Round-robin scans of a worklist

A scan holds a list of pending entries, an index into it and an
accumulator. Each turn visits the entry at the index: the visit keeps it,
finishes it with a new accumulator, or raises. The index then advances, and
wraps at the end of what is *left*, so the entry that slides into the place
of a finished one is passed over until the next lap.

Passing entries over costs laps, not progress: while nothing is finished
the list is still, and a lap visits all of it (`exists_hit`). So a scan
ends exactly when it never reaches a pending list all of whose entries are
kept (`ends_iff_not_stalled`).
-/

namespace RoundRobin

universe u v w

variable {α : Type u} {σ : Type v} {ε : Type w}

/-- The pending entries, the index of the next visit, and what the visits
have built. -/
structure State (α : Type u) (σ : Type v) where
  todo : List α
  i : ℕ
  acc : σ

/-- The next index over `n` pending entries. -/
def advance (i n : ℕ) : ℕ := if i < n - 1 then i + 1 else 0

theorem advance_lt {i n : ℕ} (hn : 0 < n) : advance i n < n := by
  unfold advance; split <;> omega

variable [DecidableEq α]

/-- One turn. `visit acc x` is `ok none` to keep `x`, `ok (some acc')` to
finish it. -/
def turn (visit : σ → α → Except ε (Option σ)) (outOfRange : ε) (s : State α σ) :
    Except ε (State α σ) :=
  match s.todo[s.i]? with
  | none => .error outOfRange
  | some x =>
    match visit s.acc x with
    | .error e => .error e
    | .ok none => .ok { s with i := advance s.i s.todo.length }
    | .ok (some acc) =>
      .ok { todo := s.todo.erase x, i := advance s.i (s.todo.erase x).length, acc := acc }

section Scan

variable {visit : σ → α → Except ε (Option σ)} {outOfRange : ε} {s s' : State α σ}

/-- What a turn that does not raise can do. -/
theorem turn_cases (h : turn visit outOfRange s = .ok s') :
    ∃ x, s.todo[s.i]? = some x ∧
      ((visit s.acc x = .ok none ∧ s' = { s with i := advance s.i s.todo.length }) ∨
        ∃ acc, visit s.acc x = .ok (some acc) ∧
          s' = ⟨s.todo.erase x, advance s.i (s.todo.erase x).length, acc⟩) := by
  unfold turn at h
  split at h
  · cases h
  · rename_i x hx
    refine ⟨x, hx, ?_⟩
    split at h
    · cases h
    · rename_i hv
      cases h
      exact .inl ⟨hv, rfl⟩
    · rename_i acc hv
      cases h
      exact .inr ⟨acc, hv, rfl⟩

theorem turn_keep {x : α} (hx : s.todo[s.i]? = some x) (hv : visit s.acc x = .ok none) :
    turn visit outOfRange s = .ok { s with i := advance s.i s.todo.length } := by
  simp [turn, hx, hv]

variable (visit outOfRange) in
/-- The states of the turns taken from `s` while entries are pending. -/
def Visits : State α σ → State α σ → Prop :=
  Relation.ReflTransGen fun s s' => s.todo ≠ [] ∧ turn visit outOfRange s = .ok s'

variable (visit outOfRange) in
/-- The scan from `s` reaches an end: nothing is pending, or a visit raises. -/
def Ends (s : State α σ) : Prop :=
  ∃ s', Visits visit outOfRange s s' ∧
    (s'.todo = [] ∨ ∃ e, turn visit outOfRange s' = .error e)

variable (visit) in
/-- Entries are pending and every one of them is kept. -/
def Stalled (s : State α σ) : Prop :=
  s.todo ≠ [] ∧ ∀ x ∈ s.todo, visit s.acc x = .ok none

/-- The index is in range whenever there is something to index. -/
def InRange (s : State α σ) : Prop := s.todo ≠ [] → s.i < s.todo.length

theorem InRange.turn (h : turn visit outOfRange s = .ok s') : InRange s' := by
  obtain ⟨x, -, ⟨-, rfl⟩ | ⟨acc, -, rfl⟩⟩ := turn_cases h
  · exact fun hne => advance_lt (List.length_pos_iff.mpr hne)
  · exact fun hne => advance_lt (List.length_pos_iff.mpr hne)

theorem InRange.visits (hs : InRange s) (h : Visits visit outOfRange s s') : InRange s' := by
  induction h with
  | refl => exact hs
  | tail _ ht _ => exact InRange.turn ht.2

theorem Ends.of_visits (h : Visits visit outOfRange s s') (he : Ends visit outOfRange s') :
    Ends visit outOfRange s := by
  obtain ⟨t, ht, hend⟩ := he
  exact ⟨t, h.trans ht, hend⟩

/-! ## A stalled scan never ends -/

/-- A turn of a stalled scan moves the index and nothing else. -/
theorem Stalled.turn (hs : Stalled visit s) (h : turn visit outOfRange s = .ok s') :
    Stalled visit s' := by
  obtain ⟨x, hx, ⟨-, rfl⟩ | ⟨acc, hv, -⟩⟩ := turn_cases h
  · exact hs
  · rw [hs.2 x (List.mem_of_getElem? hx)] at hv
    cases hv

theorem Stalled.visits (hs : Stalled visit s) (h : Visits visit outOfRange s s') :
    Stalled visit s' := by
  induction h with
  | refl => exact hs
  | tail _ ht ih => exact ih.turn ht.2

theorem Stalled.turn_eq (hs : Stalled visit s) (hr : InRange s) :
    RoundRobin.turn visit outOfRange s = .ok { s with i := advance s.i s.todo.length } := by
  have hi : s.i < s.todo.length := hr hs.1
  have hx : s.todo[s.i]? = some s.todo[s.i] := List.getElem?_eq_getElem hi
  exact turn_keep hx (hs.2 _ (List.mem_of_getElem? hx))

theorem Stalled.not_ends (outOfRange : ε) (hs : Stalled visit s) (hr : InRange s) :
    ¬ Ends visit outOfRange s := by
  rintro ⟨s', hv, hend⟩
  have hs' := hs.visits hv
  rcases hend with hnil | ⟨e, he⟩
  · exact hs'.1 hnil
  · rw [hs'.turn_eq (hr.visits hv)] at he
    cases he

/-! ## A lap reaches every entry that is not kept -/

/-- How many turns away index `j` is from index `i` over `n` entries. -/
private def ahead (n i j : ℕ) : ℕ := if i ≤ j then j - i else n - i + j

/-- **A lap misses nothing.** While everything visited is kept the list
stands still, so the scan gets to a given index before it finishes any
entry, or it has met another entry that is not kept on the way. -/
theorem exists_hit (outOfRange : ε) {j : ℕ} {y : α} (hy : s.todo[j]? = some y)
    (hv : visit s.acc y ≠ .ok none)
    (hr : InRange s) :
    ∃ i x, Visits visit outOfRange s ⟨s.todo, i, s.acc⟩ ∧ s.todo[i]? = some x ∧
      visit s.acc x ≠ .ok none := by
  have hj : j < s.todo.length := (List.getElem?_eq_some_iff.mp hy).1
  have hne : s.todo ≠ [] := List.length_pos_iff.mp (by omega)
  -- induction on the number of turns to `j`
  generalize hd : ahead s.todo.length s.i j = d
  induction d generalizing s with
  | zero =>
    have hi : s.i = j := by
      have := hr hne
      unfold ahead at hd
      split at hd <;> omega
    exact ⟨s.i, y, .refl, hi ▸ hy, hv⟩
  | succ d ih =>
    have hi : s.i < s.todo.length := hr hne
    by_cases hkeep : visit s.acc s.todo[s.i] = .ok none
    · have ht : turn visit outOfRange s = .ok { s with i := advance s.i s.todo.length } :=
        turn_keep (List.getElem?_eq_getElem hi) hkeep
      have hd' : ahead s.todo.length (advance s.i s.todo.length) j = d := by
        unfold ahead at hd
        unfold ahead advance
        split at hd <;> split <;> split <;> omega
      obtain ⟨i, x, hvis, hx, hvx⟩ :=
        ih (s := ⟨s.todo, advance s.i s.todo.length, s.acc⟩) hy hv (InRange.turn ht) hj hne hd'
      exact ⟨i, x, .head ⟨hne, ht⟩ hvis, hx, hvx⟩
    · exact ⟨s.i, s.todo[s.i], .refl, List.getElem?_eq_getElem hi, hkeep⟩

/-- **A scan that never stalls ends.** The induction is on the number of
pending entries: a lap finishes one of them, or raises. -/
theorem ends_of_not_stalled (hr : InRange s)
    (h : ∀ s', Visits visit outOfRange s s' → ¬ Stalled visit s') : Ends visit outOfRange s := by
  generalize hn : s.todo.length = n
  induction n generalizing s with
  | zero => exact ⟨s, .refl, .inl (List.length_eq_zero_iff.mp hn)⟩
  | succ n ih =>
    have hne : s.todo ≠ [] := List.length_pos_iff.mp (by omega)
    obtain ⟨y, hy, hvy⟩ : ∃ y ∈ s.todo, visit s.acc y ≠ .ok none := by
      by_contra hc
      push Not at hc
      exact h s .refl ⟨hne, hc⟩
    obtain ⟨j, hj⟩ := List.mem_iff_getElem?.mp hy
    obtain ⟨i, x, hvis, hx, hvx⟩ := exists_hit outOfRange hj hvy hr
    rcases hv : visit s.acc x with e | - | acc
    · exact ⟨_, hvis, .inr ⟨e, by simp [turn, hx, hv]⟩⟩
    · exact absurd hv hvx
    · have ht : turn visit outOfRange ⟨s.todo, i, s.acc⟩ =
          .ok ⟨s.todo.erase x, advance i (s.todo.erase x).length, acc⟩ := by
        simp [turn, hx, hv]
      have hvis' := hvis.tail ⟨hne, ht⟩
      refine Ends.of_visits hvis' (ih (InRange.turn ht) (fun t htv => h t (hvis'.trans htv)) ?_)
      have hmem : x ∈ s.todo := List.mem_of_getElem? hx
      change (s.todo.erase x).length = n
      rw [List.length_erase_of_mem hmem, hn, Nat.add_sub_cancel]

/-- **When a scan ends.** -/
theorem ends_iff_not_stalled (hr : InRange s) :
    Ends visit outOfRange s ↔ ∀ s', Visits visit outOfRange s s' → ¬ Stalled visit s' := by
  refine ⟨fun he s' hv hs' => ?_, ends_of_not_stalled hr⟩
  refine hs'.not_ends outOfRange (hr.visits hv) ?_
  -- turns are deterministic, so what ends from `s` ends from a state `s` visits
  obtain ⟨t, ht, hend⟩ := he
  rcases Relation.ReflTransGen.total_of_right_unique
    (fun a b c hab hac => Except.ok.inj (hab.2.symm.trans hac.2)) hv ht with hst | hts
  · exact ⟨t, hst, hend⟩
  · refine ⟨s', .refl, ?_⟩
    rcases Relation.ReflTransGen.cases_head hts with rfl | ⟨t', ⟨hne, hstep⟩, -⟩
    · exact hend
    · rcases hend with hnil | ⟨e, he⟩
      · exact absurd hnil hne
      · rw [hstep] at he
        cases he

end Scan

end RoundRobin
