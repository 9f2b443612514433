import VerAI.Lib.Blocks
import Mathlib.Data.List.FinRange
import Mathlib.Data.Fintype.Perm
/-!
# Batches — `DataSet.next_batch`

A data set hands out its examples batch by batch, and shuffles images and
labels when an epoch is used up. A batch may take the end of one epoch and
the beginning of the next. What is handed out is one stream of examples, and
`Progress` says how far it has come: whole epochs, then the first part of
the arrangement the arrays are in.
-/

namespace VerAI

namespace Dataset

open Blocks (EveryBlock)

/-- The index a slice bound means for an array of `len` rows. -/
def sliceBound (len : ℕ) (i : ℤ) : ℕ := if i < 0 then (i + len).toNat else min i.toNat len

/-- `rows[start:stop]`. -/
def slice {α : Type} (rows : List α) (start stop : ℤ) : List α :=
  (rows.take (sliceBound rows.length stop)).drop (sliceBound rows.length start)

/-- A `DataSet` of `n` images and as many labels: the constructor asserts
that the numbers agree and keeps them as `_num_examples`. -/
structure DataSet (α β : Type) (n : ℕ) where
  images : Vector α n
  labels : Vector β n
  epochsCompleted : ℕ
  indexInEpoch : ℤ

/-- The dictionary `next_batch` returns, by its two keys. -/
structure Batch (α β : Type) where
  image : List α
  labels : List β

/-- The arguments of a call, and what the two shuffles in its body make of
`numpy.arange(self._num_examples)`. -/
structure Call (n : ℕ) where
  batchSize : ℤ
  shuffle : Bool
  perm0 : Equiv.Perm (Fin n)
  perm : Equiv.Perm (Fin n)

variable {α β : Type} {n : ℕ}

/-- `rows[perm]`. -/
def gather (rows : Vector α n) (perm : Equiv.Perm (Fin n)) : Vector α n :=
  Vector.ofFn fun i => rows[perm i]

namespace DataSet

/-- As the constructor leaves it. -/
def new (images : Vector α n) (labels : Vector β n) : DataSet α β n := ⟨images, labels, 0, 0⟩

/-- `self._images = self.images[perm]`, and the same of the labels. -/
def permute (d : DataSet α β n) (perm : Equiv.Perm (Fin n)) : DataSet α β n :=
  { d with images := gather d.images perm, labels := gather d.labels perm }

/-- The shuffle for the first epoch. -/
def shuffleFirst (d : DataSet α β n) (c : Call n) : DataSet α β n :=
  if d.epochsCompleted = 0 ∧ d.indexInEpoch = 0 ∧ c.shuffle = true then d.permute c.perm0 else d

/-- The shuffle for the next epoch. -/
def shuffleNext (d : DataSet α β n) (c : Call n) : DataSet α β n :=
  if c.shuffle then d.permute c.perm else d

/-- `next_batch`. -/
def nextBatch (d : DataSet α β n) (c : Call n) : DataSet α β n × Batch α β :=
  let start := d.indexInEpoch
  let d := d.shuffleFirst c
  if start + c.batchSize > n then
    let restNumExamples := n - start
    let imagesRestPart := slice d.images.toList start n
    let labelsRestPart := slice d.labels.toList start n
    let d := d.shuffleNext c
    let stop := c.batchSize - restNumExamples
    let imagesNewPart := slice d.images.toList 0 stop
    let labelsNewPart := slice d.labels.toList 0 stop
    ({ d with epochsCompleted := d.epochsCompleted + 1, indexInEpoch := stop },
      ⟨imagesRestPart ++ imagesNewPart, labelsRestPart ++ labelsNewPart⟩)
  else
    let stop := start + c.batchSize
    ({ d with indexInEpoch := stop },
      ⟨slice d.images.toList start stop, slice d.labels.toList start stop⟩)

/-- A sequence of calls: what each returns and the state it leaves. -/
def calls (d : DataSet α β n) : List (Call n) → List (DataSet α β n × Batch α β)
  | [] => []
  | c :: cs => d.nextBatch c :: (d.nextBatch c).1.calls cs

end DataSet

/-! ## Arrays as arrangements of the data set -/

/-- The indices in the order an arrangement puts them. -/
def arrangement (σ : Equiv.Perm (Fin n)) : List (Fin n) := List.ofFn σ

@[simp] theorem length_arrangement (σ : Equiv.Perm (Fin n)) : (arrangement σ).length = n :=
  List.length_ofFn

theorem arrangement_perm (σ : Equiv.Perm (Fin n)) : (arrangement σ).Perm (List.finRange n) := by
  rw [arrangement, List.ofFn_eq_map]
  exact Equiv.Perm.map_finRange_perm σ

/-- The rows of a gathered array. -/
theorem toList_gather (rows : Vector α n) (σ : Equiv.Perm (Fin n)) :
    (gather rows σ).toList = (arrangement σ).map rows.get := by
  rw [gather, Vector.toList_ofFn, arrangement, List.map_ofFn]
  rfl

theorem gather_gather (rows : Vector α n) (σ τ : Equiv.Perm (Fin n)) :
    gather (gather rows σ) τ = gather rows (σ * τ) := by
  ext i hi
  simp [gather]

theorem gather_one (rows : Vector α n) : gather rows 1 = rows := by
  ext i hi
  simp [gather]

/-- A slice between two indices of the array. -/
theorem slice_natCast (rows : List α) {i j : ℕ} (hj : j ≤ rows.length) :
    slice rows i j = (rows.take j).drop i := by
  have hbound : ∀ k : ℕ, sliceBound rows.length k = min k rows.length := by
    intro k
    rw [sliceBound, if_neg (by omega), Int.toNat_natCast]
  rw [slice, hbound, hbound, Nat.min_eq_left hj]
  rcases Nat.le_total i rows.length with hi | hi
  · rw [Nat.min_eq_left hi]
  · rw [Nat.min_eq_right hi, List.drop_eq_nil_of_le, List.drop_eq_nil_of_le]
    · rw [List.length_take]
      omega
    · rw [List.length_take]
      omega

/-- A slice of an arranged array is the same slice of the arrangement. -/
theorem slice_gather (rows : Vector α n) (σ : Equiv.Perm (Fin n)) {i j : ℕ} (hj : j ≤ n) :
    slice (gather rows σ).toList i j = (((arrangement σ).take j).drop i).map rows.get := by
  rw [toList_gather, slice_natCast _ (by simpa using hj), ← List.map_take, ← List.map_drop]

/-- The rest of the rows from an index on. -/
theorem slice_gather_rest (rows : Vector α n) (σ : Equiv.Perm (Fin n)) (i : ℕ) :
    slice (gather rows σ).toList i n = ((arrangement σ).drop i).map rows.get := by
  rw [slice_gather rows σ le_rfl, List.take_of_length_le (by simp)]

/-- The first rows. -/
theorem slice_gather_first (rows : Vector α n) (σ : Equiv.Perm (Fin n)) {j : ℕ} (hj : j ≤ n) :
    slice (gather rows σ).toList 0 j = ((arrangement σ).take j).map rows.get :=
  slice_gather rows σ hj

/-- The arrays are the data set arranged by `σ`, labels like images. -/
structure Arranged (images : Vector α n) (labels : Vector β n) (d : DataSet α β n)
    (σ : Equiv.Perm (Fin n)) : Prop where
  images : d.images = gather images σ
  labels : d.labels = gather labels σ

section Arranged

variable {images : Vector α n} {labels : Vector β n} {d : DataSet α β n}
variable {σ : Equiv.Perm (Fin n)}

theorem Arranged.new : Arranged images labels (.new images labels) 1 :=
  ⟨(gather_one images).symm, (gather_one labels).symm⟩

theorem Arranged.permute (h : Arranged images labels d σ) (τ : Equiv.Perm (Fin n)) :
    Arranged images labels (d.permute τ) (σ * τ) where
  images := by rw [DataSet.permute, h.images, gather_gather]
  labels := by rw [DataSet.permute, h.labels, gather_gather]

/-- The first shuffle happens at the very start or not at all. -/
theorem Arranged.shuffleFirst (h : Arranged images labels d σ) (c : Call n) :
    ∃ σ', Arranged images labels (d.shuffleFirst c) σ' ∧ (d.indexInEpoch ≠ 0 → σ' = σ) := by
  unfold DataSet.shuffleFirst
  split
  case isTrue hfirst => exact ⟨σ * c.perm0, h.permute c.perm0, fun hne => absurd hfirst.2.1 hne⟩
  case isFalse => exact ⟨σ, h, fun _ => rfl⟩

theorem Arranged.shuffleNext (h : Arranged images labels d σ) (c : Call n) :
    ∃ σ', Arranged images labels (d.shuffleNext c) σ' := by
  unfold DataSet.shuffleNext
  split
  · exact ⟨_, h.permute c.perm⟩
  · exact ⟨σ, h⟩

end Arranged

/-- **How far the stream has come**: `drawn` is whole epochs, each example
once in every one of them, and the first `i` of the arrangement. -/
structure Drawn (drawn : List (Fin n)) (σ : Equiv.Perm (Fin n)) (epochs : List (Fin n)) (i : ℕ) :
    Prop where
  bound : i ≤ n
  drawn : drawn = epochs ++ (arrangement σ).take i
  whole : ∃ q, epochs.length = q * n
  blocks : EveryBlock n (fun block => block.Perm (List.finRange n)) epochs

section Drawn

variable {drawn epochs : List (Fin n)} {σ : Equiv.Perm (Fin n)} {i : ℕ}

theorem Drawn.nil (σ : Equiv.Perm (Fin n)) : Drawn [] σ [] 0 where
  bound := Nat.zero_le n
  drawn := rfl
  whole := ⟨0, by simp⟩
  blocks k hk := by
    obtain rfl : n = 0 := by simpa using hk
    simp [Blocks.block]

/-- Before anything of the epoch is drawn the arrays may be arranged anew. -/
theorem Drawn.rearrange (h : Drawn drawn σ epochs i) {σ' : Equiv.Perm (Fin n)}
    (hσ : i ≠ 0 → σ' = σ) : Drawn drawn σ' epochs i := by
  by_cases hi : i = 0
  · subst hi
    exact ⟨h.bound, h.drawn.trans (by simp), h.whole, h.blocks⟩
  · exact hσ hi ▸ h

/-- **An epoch that is used up** is one more block. -/
theorem Drawn.finishEpoch (hn : 0 < n) (h : Drawn drawn σ epochs i) (σ' : Equiv.Perm (Fin n)) :
    Drawn (drawn ++ (arrangement σ).drop i) σ' (epochs ++ arrangement σ) 0 := by
  obtain ⟨q, hq⟩ := h.whole
  refine ⟨Nat.zero_le n, ?_, ⟨q + 1, ?_⟩, ?_⟩
  · rw [h.drawn, List.append_assoc, List.take_append_drop, List.take_zero, List.append_nil]
  · rw [List.length_append, hq, length_arrangement, Nat.add_one_mul]
  · exact h.blocks.append hq (Blocks.everyBlock_of_length_eq hn (length_arrangement σ)
      (arrangement_perm σ))

/-- **Drawing within an epoch.** -/
theorem Drawn.draw (h : Drawn drawn σ epochs i) {j : ℕ} (hij : i ≤ j) (hj : j ≤ n) :
    Drawn (drawn ++ ((arrangement σ).take j).drop i) σ epochs j := by
  refine ⟨hj, ?_, h.whole, h.blocks⟩
  have hsplit := List.take_append_drop i ((arrangement σ).take j)
  rw [List.take_take, Nat.min_eq_left hij] at hsplit
  rw [h.drawn, List.append_assoc, hsplit]

/-- **Every complete block of the stream** is a permutation of the data
set, also the one just completed. -/
theorem Drawn.everyBlock (h : Drawn drawn σ epochs i) :
    EveryBlock n (fun block => block.Perm (List.finRange n)) drawn := by
  obtain ⟨q, hq⟩ := h.whole
  rw [h.drawn]
  refine h.blocks.append hq ?_
  rcases Nat.eq_or_lt_of_le h.bound with rfl | hlt
  · rw [List.take_of_length_le (by simp)]
    rcases Nat.eq_zero_or_pos i with rfl | hpos
    · intro k hk
      simp [Blocks.block]
    · exact Blocks.everyBlock_of_length_eq hpos (length_arrangement σ) (arrangement_perm σ)
  · refine Blocks.everyBlock_of_length_lt ?_
    rw [List.length_take, length_arrangement]
    omega

end Drawn

/-! ## Calls -/

/-- The state of a data set after the examples `drawn`. -/
def Progress (images : Vector α n) (labels : Vector β n) (d : DataSet α β n)
    (drawn : List (Fin n)) : Prop :=
  ∃ σ epochs i, Arranged images labels d σ ∧ Drawn drawn σ epochs i ∧ d.indexInEpoch = (i : ℕ)

/-- The examples with these indices, labels beside their images. -/
def examples (images : Vector α n) (labels : Vector β n) (idx : List (Fin n)) : Batch α β :=
  ⟨idx.map images.get, idx.map labels.get⟩

section Calls

variable {images : Vector α n} {labels : Vector β n} {d : DataSet α β n} {drawn : List (Fin n)}

/-- **One call** returns as many examples as it was asked for, and the
stream goes on with them. -/
theorem Progress.nextBatch (h : Progress images labels d drawn) {c : Call n}
    (hpos : 1 ≤ c.batchSize) (hle : c.batchSize ≤ n) :
    ∃ idx, (d.nextBatch c).2 = examples images labels idx ∧ (idx.length : ℤ) = c.batchSize ∧
      Progress images labels (d.nextBatch c).1 (drawn ++ idx) := by
  obtain ⟨σ, epochs, i, ha, hd, hindex⟩ := h
  obtain ⟨b, hb⟩ := Int.eq_ofNat_of_zero_le (show 0 ≤ c.batchSize by omega)
  obtain ⟨σ₁, ha₁, hσ₁⟩ := ha.shuffleFirst c
  have hd₁ : Drawn drawn σ₁ epochs i := hd.rearrange fun hi => hσ₁ (by omega)
  have hbound := hd.bound
  by_cases hwrap : d.indexInEpoch + c.batchSize > n
  · -- the rest of this epoch, and what is still asked for of the next one
    obtain ⟨σ₂, ha₂⟩ := ha₁.shuffleNext c
    have hj : b - (n - i) ≤ n := by omega
    have hstop : c.batchSize - (n - d.indexInEpoch) = (b - (n - i) : ℕ) := by omega
    have hd₂ := (hd₁.finishEpoch (by omega) σ₂).draw (Nat.zero_le _) hj
    rw [List.drop_zero, List.append_assoc] at hd₂
    refine ⟨(arrangement σ₁).drop i ++ (arrangement σ₂).take (b - (n - i)), ?_, ?_,
      σ₂, epochs ++ arrangement σ₁, b - (n - i), ?_, hd₂, ?_⟩
    · rw [DataSet.nextBatch, if_pos hwrap]
      simp only [hstop]
      rw [hindex, ha₁.images, ha₁.labels, ha₂.images, ha₂.labels, slice_gather_rest,
        slice_gather_rest, slice_gather_first images σ₂ hj, slice_gather_first labels σ₂ hj,
        examples, List.map_append, List.map_append]
    · rw [List.length_append, List.length_drop, List.length_take, length_arrangement,
        length_arrangement]
      omega
    · rw [DataSet.nextBatch, if_pos hwrap]
      exact ⟨ha₂.images, ha₂.labels⟩
    · rw [DataSet.nextBatch, if_pos hwrap]
      exact hstop
  · have hstop : d.indexInEpoch + c.batchSize = (i + b : ℕ) := by omega
    have hj : i + b ≤ n := by omega
    refine ⟨((arrangement σ₁).take (i + b)).drop i, ?_, ?_, σ₁, epochs, i + b, ?_,
      hd₁.draw (Nat.le_add_right i b) hj, ?_⟩
    · rw [DataSet.nextBatch, if_neg hwrap]
      simp only [hstop]
      rw [hindex, ha₁.images, ha₁.labels, slice_gather images σ₁ hj, slice_gather labels σ₁ hj,
        examples]
    · rw [List.length_drop, List.length_take, length_arrangement]
      omega
    · rw [DataSet.nextBatch, if_neg hwrap]
      exact ⟨ha₁.images, ha₁.labels⟩
    · rw [DataSet.nextBatch, if_neg hwrap]
      exact hstop

/-- **A sequence of calls.** -/
theorem Progress.calls (h : Progress images labels d drawn) {cs : List (Call n)}
    (hcs : ∀ c ∈ cs, 1 ≤ c.batchSize ∧ c.batchSize ≤ n) :
    ∃ idxs : List (List (Fin n)),
      (d.calls cs).map Prod.snd = idxs.map (examples images labels) ∧
      idxs.map (fun idx => (idx.length : ℤ)) = cs.map Call.batchSize ∧
      (∀ r ∈ d.calls cs, 0 ≤ r.1.indexInEpoch ∧ r.1.indexInEpoch ≤ n) ∧
      EveryBlock n (fun block => block.Perm (List.finRange n)) (drawn ++ idxs.flatten) := by
  induction cs generalizing d drawn with
  | nil =>
    obtain ⟨σ, epochs, i, -, hd, -⟩ := h
    exact ⟨[], rfl, rfl, by simp [DataSet.calls], by simpa using hd.everyBlock⟩
  | cons c cs ih =>
    obtain ⟨hpos, hle⟩ := hcs c (List.mem_cons_self ..)
    obtain ⟨idx, hbatch, hlength, hnext⟩ := h.nextBatch hpos hle
    obtain ⟨idxs, hbatches, hlengths, hindex, hblocks⟩ :=
      ih hnext fun e he => hcs e (List.mem_cons_of_mem _ he)
    refine ⟨idx :: idxs, ?_, ?_, ?_, ?_⟩
    · rw [DataSet.calls, List.map_cons, List.map_cons, hbatch, hbatches]
    · rw [List.map_cons, List.map_cons, hlength, hlengths]
    · rw [DataSet.calls, List.forall_mem_cons]
      obtain ⟨σ, epochs, i, -, hd, hi⟩ := hnext
      have hbound := hd.bound
      exact ⟨by omega, hindex⟩
    · rwa [List.flatten_cons, ← List.append_assoc]

end Calls

/-- **Epoch coverage of `next_batch`.** For every data set and every
sequence of calls for between one and `n` examples, whatever the shuffles
make: each call returns the examples of a list of indices, as many as it was
asked for and each image with its own label, the index stays within the
epoch, and every complete block of `n` of all the indices returned holds
each index of the data set once. -/
theorem nextBatch_coversEpochs (images : Vector α n) (labels : Vector β n) (cs : List (Call n))
    (hcs : ∀ c ∈ cs, 1 ≤ c.batchSize ∧ c.batchSize ≤ n) :
    ∃ idxs : List (List (Fin n)),
      ((DataSet.new images labels).calls cs).map Prod.snd = idxs.map (examples images labels) ∧
      idxs.map (fun idx => (idx.length : ℤ)) = cs.map Call.batchSize ∧
      (∀ r ∈ (DataSet.new images labels).calls cs,
        0 ≤ r.1.indexInEpoch ∧ r.1.indexInEpoch ≤ n) ∧
      EveryBlock n (fun block => block.Perm (List.finRange n)) idxs.flatten := by
  have h : Progress images labels (.new images labels) [] :=
    ⟨1, [], 0, .new, .nil 1, rfl⟩
  simpa using h.calls hcs

/-- Two calls for two of three examples: the second batch goes over the end
of the epoch. -/
theorem nextBatch_coversEpochs_three :
    ∃ idxs : List (List (Fin 3)),
      ((DataSet.new #v['a', 'b', 'c'] #v[0, 1, 2]).calls
        [⟨2, true, Equiv.swap 0 1, 1⟩, ⟨2, true, 1, Equiv.swap 1 2⟩]).map Prod.snd =
          idxs.map (examples #v['a', 'b', 'c'] #v[0, 1, 2]) ∧
      idxs.map (fun idx => (idx.length : ℤ)) = [2, 2] ∧
      (∀ r ∈ (DataSet.new #v['a', 'b', 'c'] #v[0, 1, 2]).calls
        [⟨2, true, Equiv.swap 0 1, 1⟩, ⟨2, true, 1, Equiv.swap 1 2⟩],
        0 ≤ r.1.indexInEpoch ∧ r.1.indexInEpoch ≤ (3 : ℕ)) ∧
      EveryBlock 3 (fun block => block.Perm (List.finRange 3)) idxs.flatten :=
  nextBatch_coversEpochs #v['a', 'b', 'c'] #v[0, 1, 2]
    [⟨2, true, Equiv.swap 0 1, 1⟩, ⟨2, true, 1, Equiv.swap 1 2⟩] (by decide)

end Dataset

end VerAI
