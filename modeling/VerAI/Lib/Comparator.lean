import Mathlib.Data.List.Basic
import Mathlib.Data.Int.Order.Basic
import Mathlib.Algebra.Group.Nat.Defs
/-!
# Comparators that return an integer

A comparator in the manner of C says by the sign of an integer how two values
compare. It agrees with a key on a list where its sign is that of the
difference of the keys; on such a list it is an order, and sorting by it is
sorting by the key. The difference of two words of `w` bits, read as a signed
word, agrees with the unsigned values exactly where these lie less than
`2 ^ (w - 1)` apart.
-/

namespace Comparator

universe u

variable {α : Type u} {cmp : α → α → ℤ} {key : α → ℤ} {list order : List α}

/-- The sign of `cmp` is that of the difference of the keys. -/
def Agrees (cmp : α → α → ℤ) (key : α → ℤ) (list : List α) : Prop :=
  ∀ a ∈ list, ∀ b ∈ list, (cmp a b).sign = (key a - key b).sign

theorem sign_eq_iff_nonpos {m n : ℤ} (h : m.sign = n.sign) : m ≤ 0 ↔ n ≤ 0 := by
  rw [← Int.sign_nonpos_iff, h, Int.sign_nonpos_iff]

theorem Agrees.nonpos_iff (h : Agrees cmp key list) {a b : α} (ha : a ∈ list) (hb : b ∈ list) :
    cmp a b ≤ 0 ↔ key a ≤ key b := by
  rw [sign_eq_iff_nonpos (h a ha b hb)]
  omega

theorem Agrees.antisymm (h : Agrees cmp key list) {a b : α} (ha : a ∈ list) (hb : b ∈ list) :
    (cmp b a).sign = -(cmp a b).sign := by
  rw [h a ha b hb, h b hb a ha, ← Int.sign_neg]
  congr 1
  omega

theorem Agrees.trans (h : Agrees cmp key list) {a b c : α} (ha : a ∈ list) (hb : b ∈ list)
    (hc : c ∈ list) (hab : cmp a b ≤ 0) (hbc : cmp b c ≤ 0) : cmp a c ≤ 0 :=
  (h.nonpos_iff ha hc).mpr
    (le_trans ((h.nonpos_iff ha hb).mp hab) ((h.nonpos_iff hb hc).mp hbc))

/-- **Sorting by the comparator is sorting by the key.** -/
theorem Agrees.sorted_iff (h : Agrees cmp key list) (hmem : ∀ a ∈ order, a ∈ list) :
    order.Pairwise (fun a b => cmp a b ≤ 0) ↔ order.Pairwise fun a b => key a ≤ key b :=
  ⟨List.Pairwise.imp_of_mem fun ha hb => (h.nonpos_iff (hmem _ ha) (hmem _ hb)).mp,
    List.Pairwise.imp_of_mem fun ha hb => (h.nonpos_iff (hmem _ ha) (hmem _ hb)).mpr⟩

/-! ## The wrapped difference -/

section Wrapped

variable {w : ℕ} (a b : BitVec w)

theorem toInt_sub_eq_bmod : (a - b).toInt = ((a.toNat : ℤ) - b.toNat).bmod (2 ^ w) := by
  rw [BitVec.toInt_sub, BitVec.toInt_eq_toNat_bmod, BitVec.toInt_eq_toNat_bmod,
    Int.sub_bmod_bmod, Int.bmod_sub_bmod]

variable {a b}

/-- Less than half the words apart, the difference is as it should be. -/
theorem toInt_sub_of_near (hlo : 2 * b.toNat < 2 * a.toNat + 2 ^ w)
    (hhi : 2 * a.toNat < 2 * b.toNat + 2 ^ w) : (a - b).toInt = (a.toNat : ℤ) - b.toNat := by
  rw [toInt_sub_eq_bmod]
  generalize 2 ^ w = p at hlo hhi ⊢
  apply Int.bmod_eq_of_le_mul_two <;> omega

/-- Half the words apart or more, it has the sign of the smaller word. -/
theorem toInt_sub_neg_of_far (h : 2 * b.toNat + 2 ^ w ≤ 2 * a.toNat) : (a - b).toInt < 0 := by
  have hlt : a.toNat < 2 ^ w := a.isLt
  rw [toInt_sub_eq_bmod]
  generalize 2 ^ w = p at h hlt ⊢
  have hbmod : ((a.toNat : ℤ) - b.toNat).bmod p = (a.toNat : ℤ) - b.toNat - 1 * p := by
    rw [← Int.sub_mul_bmod_self_right _ 1]
    apply Int.bmod_eq_of_le_mul_two <;> omega
  omega

/-- **When the wrapped difference compares the unsigned words.** -/
theorem agrees_toInt_sub_iff {f : α → BitVec w} :
    Agrees (fun a b => (f a - f b).toInt) (fun a => ((f a).toNat : ℤ)) list ↔
      ∀ a ∈ list, ∀ b ∈ list, 2 * (f a).toNat < 2 * (f b).toNat + 2 ^ w := by
  refine ⟨fun h a ha b hb => ?_, fun h a ha b hb => ?_⟩
  · by_contra hfar
    have hneg : (f a - f b).toInt < 0 := toInt_sub_neg_of_far (Nat.le_of_not_lt hfar)
    have hpos : 0 < 2 ^ w := Nat.two_pow_pos w
    have hle : (f a).toNat ≤ (f b).toNat :=
      Int.ofNat_le.mp ((h.nonpos_iff ha hb).mp (le_of_lt hneg))
    omega
  · show (f a - f b).toInt.sign = _
    rw [toInt_sub_of_near (h b hb a ha) (h a ha b hb)]

end Wrapped

end Comparator
