import Mathlib.Data.List.Basic
import Mathlib.Tactic.Ring
/-!
# Lists cut into blocks of one length

A list is cut into consecutive blocks of `n` elements, and a property is
asked of every complete one. A list of whole blocks can be continued by
another without moving a cut (`EveryBlock.append`), so a stream is read
block by block as it grows.
-/

namespace Blocks

universe u

variable {α : Type u} {n : ℕ} {P : List α → Prop} {l l' : List α}

/-- The block of number `k`. -/
def block (n k : ℕ) (l : List α) : List α := (l.drop (k * n)).take n

/-- **Every complete block of the list has the property.** -/
def EveryBlock (n : ℕ) (P : List α → Prop) (l : List α) : Prop :=
  ∀ k, (k + 1) * n ≤ l.length → P (block n k l)

/-- A list shorter than a block has no complete one. -/
theorem everyBlock_of_length_lt (h : l.length < n) : EveryBlock n P l := by
  intro k hk
  have hle : n ≤ (k + 1) * n := Nat.le_mul_of_pos_left n k.succ_pos
  omega

/-- A list that is one block. -/
theorem everyBlock_of_length_eq (hn : 0 < n) (h : l.length = n) (hP : P l) : EveryBlock n P l := by
  intro k hk
  obtain rfl : k = 0 := by
    by_contra hne
    have hle : 2 * n ≤ (k + 1) * n := Nat.mul_le_mul_right n (by omega)
    omega
  rwa [block, Nat.zero_mul, List.drop_zero, ← h, List.take_length]

/-- **Whole blocks can be continued.** -/
theorem EveryBlock.append (h : EveryBlock n P l) {q : ℕ} (hq : l.length = q * n)
    (h' : EveryBlock n P l') : EveryBlock n P (l ++ l') := by
  intro k hk
  rw [List.length_append] at hk
  rcases Nat.lt_or_ge k q with hlt | hge
  · -- the block lies in the first list
    have hle : (k + 1) * n ≤ l.length := hq ▸ Nat.mul_le_mul_right n hlt
    have hsum : (k + 1) * n = k * n + n := by ring
    have hdrop : n ≤ (l.drop (k * n)).length := by rw [List.length_drop]; omega
    rw [block, List.drop_append_of_le_length (by omega), List.take_append_of_le_length hdrop]
    exact h k hle
  · -- it lies in the second, `q` blocks further on
    obtain ⟨j, rfl⟩ := Nat.exists_eq_add_of_le hge
    have hsum : (q + j) * n = l.length + j * n := by rw [hq]; ring
    have hj : (j + 1) * n ≤ l'.length := by
      have hsum' : (q + j + 1) * n = l.length + (j + 1) * n := by rw [hq]; ring
      omega
    rw [block, hsum, List.drop_length_add_append]
    exact h' j hj

/-- The blocks after the first. -/
theorem EveryBlock.drop (h : EveryBlock n P l) : EveryBlock n P (l.drop n) := by
  intro k hk
  rw [List.length_drop] at hk
  have hsum : (k + 1 + 1) * n = (k + 1) * n + n := by ring
  have hblock : block n k (l.drop n) = block n (k + 1) l := by
    rw [block, block, List.drop_drop, Nat.add_one_mul, Nat.add_comm]
  rw [hblock]
  rcases Nat.eq_zero_or_pos n with rfl | hn
  · exact h (k + 1) (by simp)
  · have hpos : 0 < (k + 1) * n := Nat.mul_pos k.succ_pos hn
    exact h (k + 1) (by omega)

/-- **What every block has equally often** a list of whole blocks has as often
as they are many. -/
theorem EveryBlock.count [DecidableEq α] {x : α} {c q : ℕ}
    (h : EveryBlock n (fun b => b.count x = c) l) (hq : l.length = q * n) :
    l.count x = q * c := by
  induction q generalizing l with
  | zero =>
    obtain rfl : l = [] := List.eq_nil_of_length_eq_zero (by simpa using hq)
    simp
  | succ q ih =>
    rw [Nat.add_one_mul] at hq
    have hfirst : (l.take n).count x = c := by
      have h := h 0 (by omega)
      rwa [block, Nat.zero_mul, List.drop_zero] at h
    have hrest := ih h.drop (by rw [List.length_drop]; omega)
    rw [← List.take_append_drop n l, List.count_append, hfirst, hrest]
    ring

end Blocks
