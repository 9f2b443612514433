import Mathlib.Data.List.Basic
/-!
# Every entry of a list and those before it

A history is a list that grows at one end. What is asked of it is often
asked of every entry and the entries made before it, so of every way to
split the list at an entry. It is kept where it holds of the new entry and
the list before it, at whichever end the list grows.
-/

namespace Splits

universe u

variable {α : Type u} {P : List α → α → Prop} {l earlier later : List α} {a b : α}

/-- **A history with the latest entry last.** -/
theorem forall_split_concat (h : ∀ earlier b later, l = earlier ++ b :: later → P earlier b)
    (ha : P l a) : ∀ earlier b later, l ++ [a] = earlier ++ b :: later → P earlier b := by
  intro earlier b later heq
  rcases List.eq_nil_or_concat later with rfl | ⟨later', c, rfl⟩
  · obtain ⟨rfl, hab⟩ := List.append_inj' heq rfl
    rw [List.singleton_inj] at hab
    exact hab ▸ ha
  · rw [List.concat_eq_append, ← List.cons_append, ← List.append_assoc] at heq
    obtain ⟨hl, -⟩ := List.append_inj' heq rfl
    exact h earlier b later' hl

/-- **A history with the latest entry first.** -/
theorem forall_split_cons (h : ∀ later b earlier, l = later ++ b :: earlier → P earlier b)
    (ha : P l a) : ∀ later b earlier, a :: l = later ++ b :: earlier → P earlier b := by
  intro later b earlier heq
  rcases later with _ | ⟨c, later⟩
  · obtain ⟨rfl, rfl⟩ := List.cons.inj heq
    exact ha
  · exact h later b earlier (List.cons.inj heq).2

/-- In a list without repetition what stands before an entry has a smaller
index. -/
theorem idxOf_lt_of_split [DecidableEq α] (hnodup : l.Nodup) (hl : l = earlier ++ b :: later)
    (ha : a ∈ earlier) : l.idxOf a < l.idxOf b := by
  subst hl
  have hb : b ∉ earlier := fun hin =>
    (List.nodup_append.mp hnodup).2.2 b hin b (List.mem_cons_self ..) rfl
  rw [List.idxOf_append_of_mem ha, List.idxOf_append_of_notMem hb, List.idxOf_cons_self,
    Nat.add_zero]
  exact List.idxOf_lt_length_of_mem ha

end Splits
