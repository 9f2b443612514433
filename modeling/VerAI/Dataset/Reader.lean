import VerAI.Lib.Format
import VerAI.Dataset.Handler
/-!
# Reading the data sets — `dataset_reader`

Images and labels come in two kinds of file: a magic number, the sizes as
unsigned 32-bit numbers, and one byte for each pixel or label. The reader of
images multiplies the sizes in 32 bits and has the array take the shape they
give, the reader of labels takes what there is. A `DataSet` is made of images
and labels of one number, and of labels in rows.

The streams are what `GzipFile` makes of the files.
-/

namespace VerAI

namespace Dataset

open Format (Exact Reader ofBytes toBytes)
open Blocks (block)

/-- The exceptions of the reader. -/
inductive ReadError
  | fileNotFound (name : String)
  | valueError (message : String)
  | indexError
  | assertionError
  /-- A `ValueError` of numpy. -/
  | shapeError
  deriving DecidableEq, Repr

/-- `_read32` -/
def read32 : Reader UInt8 ReadError UInt32 := fun bytestream =>
  let buf := bytestream.take 4
  if buf.length % 4 ≠ 0 then .error .shapeError
  else if buf.isEmpty then .error .indexError
  else .ok (UInt32.ofNat (ofBytes buf), bytestream.drop 4)

/-- A magic number, or the error a file without it gives. -/
def readMagic (expected : UInt32) (kind name : String) : Reader UInt8 ReadError Unit :=
  read32.andThen fun magic bytestream =>
    if magic ≠ expected then
      .error (.valueError s!"Invalid magic number {magic} in MNIST {kind} file: {name}")
    else .ok ((), bytestream)

/-- A 4D array of bytes, `[index, y, x, depth]` with one byte of depth. -/
structure Images where
  numImages : UInt32
  rows : UInt32
  cols : UInt32
  data : List UInt8
  size : data.length = numImages.toNat * rows.toNat * cols.toNat

/-- `extract_images`, with what is left of the stream. -/
def readImages (name : String) : Reader UInt8 ReadError Images :=
  (readMagic 2051 "image" name).andThen fun _ => read32.andThen fun numImages =>
    read32.andThen fun rows => read32.andThen fun cols bytestream =>
      let count := (rows * cols * numImages).toNat
      let data := bytestream.take count
      if h : data.length = numImages.toNat * rows.toNat * cols.toNat then
        .ok (⟨numImages, rows, cols, data, h⟩, bytestream.drop count)
      else .error .shapeError

/-- `extract_images` -/
def extractImages (name : String) (bytestream : List UInt8) : Except ReadError Images :=
  (readImages name bytestream).map Prod.fst

/-- `dense_to_one_hot`: `numpy.zeros`, `flat[..] = 1`, and the rows of that. -/
def denseToOneHot (labelsDense : List UInt8) (numClasses : ℕ) :
    Except ReadError (List (List ℕ)) :=
  let numLabels := labelsDense.length
  let indices := labelsDense.mapIdx fun i label => i * numClasses + label.toNat
  if indices.all (· < numLabels * numClasses) then
    let flat := indices.foldl (fun flat i => flat.set i 1)
      (List.replicate (numLabels * numClasses) 0)
    .ok ((List.range numLabels).map fun i => block numClasses i flat)
  else .error .indexError

/-- An array of labels, one number or one row for each. -/
inductive Labels
  | dense (labels : List UInt8)
  | oneHot (rows : List (List ℕ))

/-- `labels.shape[0]` -/
def Labels.length : Labels → ℕ
  | .dense labels => labels.length
  | .oneHot rows => rows.length

/-- `labels[:i]` -/
def Labels.take (i : ℕ) : Labels → Labels
  | .dense labels => .dense (labels.take i)
  | .oneHot rows => .oneHot (rows.take i)

/-- `labels[i:]` -/
def Labels.drop (i : ℕ) : Labels → Labels
  | .dense labels => .dense (labels.drop i)
  | .oneHot rows => .oneHot (rows.drop i)

/-- The labels of `extract_labels` before they are encoded. -/
def readLabels (name : String) : Reader UInt8 ReadError (List UInt8) :=
  (readMagic 2049 "label" name).andThen fun _ => read32.andThen fun numItems bytestream =>
    .ok (bytestream.take numItems.toNat, bytestream.drop numItems.toNat)

/-- `extract_labels`; `num_classes` has its default. -/
def extractLabels (name : String) (oneHot : Bool) (bytestream : List UInt8) :
    Except ReadError Labels := do
  let (labels, _) ← readLabels name bytestream
  if oneHot then
    let rows ← denseToOneHot labels 10
    return .oneHot rows
  else return .dense labels

/-- The images of an array, `reshape(images.shape[0], rows * columns)`. -/
def Images.flatten (images : Images) : List (List UInt8) :=
  (List.range images.numImages.toNat).map fun i =>
    block (images.rows.toNat * images.cols.toNat) i images.data

/-- A data set of some size. -/
abbrev SomeDataSet (α β : Type) := (n : ℕ) × DataSet α β n

/-- `DataSet.__init__`: the numbers must agree, and `shape(labels)[1]` must be. -/
def SomeDataSet.new {α : Type} (images : List α) (labels : Labels) :
    Except ReadError (SomeDataSet α (List ℕ)) :=
  if h : images.length = labels.length then
    match labels, h with
    | .dense _, _ => .error .indexError
    | .oneHot rows, h =>
      .ok ⟨images.length, .new ⟨images.toArray, rfl⟩ ⟨rows.toArray, h.symm⟩⟩
  else .error .assertionError

/-- `base.Datasets` -/
structure Datasets (α β : Type) where
  train : SomeDataSet α β
  validation : SomeDataSet α β
  test : SomeDataSet α β

/-- `open(name, 'rb')` -/
def openFile (files : String → Option (List UInt8)) (name : String) :
    Except ReadError (List UInt8) :=
  match files name with
  | some bytestream => .ok bytestream
  | none => .error (.fileNotFound name)

variable {γ : Type}

/-- `read_data_sets`. `scale` is what the division by 255 makes of a pixel. -/
def readDataSets (scale : UInt8 → γ) (files : String → Option (List UInt8)) (curDir : String)
    (oneHot : Bool) (validationSize : ℤ) : Except ReadError (Datasets (List γ) (List ℕ)) := do
  let TRAIN_IMAGES := curDir ++ "/train-images-idx3-ubyte.gz"
  let TRAIN_LABELS := curDir ++ "/train-labels-idx1-ubyte.gz"
  let TEST_IMAGES := curDir ++ "/t10k-images-idx3-ubyte.gz"
  let TEST_LABELS := curDir ++ "/t10k-labels-idx1-ubyte.gz"
  let f ← openFile files TRAIN_IMAGES
  let trainImages ← extractImages TRAIN_IMAGES f
  let f ← openFile files TRAIN_LABELS
  let trainLabels ← extractLabels TRAIN_LABELS oneHot f
  let f ← openFile files TEST_IMAGES
  let testImages ← extractImages TEST_IMAGES f
  let f ← openFile files TEST_LABELS
  let testLabels ← extractLabels TEST_LABELS oneHot f
  let len := trainImages.numImages.toNat
  if ¬ (0 ≤ validationSize ∧ validationSize ≤ len) then
    throw (.valueError
      s!"Validation size should be between 0 and {len}. Received: {validationSize}.")
  let size := validationSize.toNat
  let trainRows := trainImages.flatten.map (·.map scale)
  let testRows := testImages.flatten.map (·.map scale)
  let train ← SomeDataSet.new (trainRows.drop size) (trainLabels.drop size)
  let validation ← SomeDataSet.new (trainRows.take size) (trainLabels.take size)
  let test ← SomeDataSet.new testRows testLabels
  return ⟨train, validation, test⟩

/-! ## Images -/

section Images

variable {name kind : String} {s : List UInt8} {img : Images}

/-- `_read32` reads four bytes, the most significant first. -/
theorem exact_read32 : Exact read32 (fun n => toBytes 4 n.toNat) fun _ => True := by
  intro s n rest
  constructor
  · intro h
    simp only [read32] at h
    split at h
    · cases h
    rename_i hmod
    split at h
    · cases h
    rename_i hne
    obtain ⟨rfl, rfl⟩ := Prod.mk.inj (Except.ok.inj h)
    have hlen : (s.take 4).length = 4 := by
      have hle : (s.take 4).length ≤ 4 := List.length_take_le 4 s
      have hpos : 0 < (s.take 4).length := List.length_pos_iff.mpr (by simpa using hne)
      omega
    have hback : toBytes 4 (ofBytes (s.take 4)) = s.take 4 := by
      have h := Format.toBytes_ofBytes (s.take 4)
      rwa [hlen] at h
    have hlt : ofBytes (s.take 4) < 2 ^ 32 := by
      have h := Format.ofBytes_lt (s.take 4)
      rw [hlen] at h
      exact h
    refine ⟨trivial, ?_⟩
    show s = toBytes 4 (UInt32.ofNat (ofBytes (s.take 4))).toNat ++ s.drop 4
    rw [UInt32.toNat_ofNat_of_lt' hlt, hback]
    exact (List.take_append_drop 4 s).symm
  · rintro ⟨-, rfl⟩
    have htake : (toBytes 4 n.toNat ++ rest).take 4 = toBytes 4 n.toNat :=
      List.take_left' (Format.length_toBytes 4 _)
    have hdrop : (toBytes 4 n.toNat ++ rest).drop 4 = rest :=
      List.drop_left' (Format.length_toBytes 4 _)
    have hne : (toBytes 4 n.toNat).isEmpty = false := rfl
    have hn : n.toNat % 256 ^ 4 = n.toNat := Nat.mod_eq_of_lt n.toNat_lt
    simp only [read32, htake, hdrop, Format.length_toBytes, Format.ofBytes_toBytes, hne, hn,
      UInt32.ofNat_toNat]
    rfl

/-- The magic number is read and compared. -/
theorem exact_readMagic (expected : UInt32) :
    Exact (readMagic expected kind name) (fun _ => toBytes 4 expected.toNat) fun _ => True := by
  have hcheck : ∀ magic : UInt32, True → Exact (fun bytestream : List UInt8 =>
      if magic ≠ expected then
        .error (.valueError s!"Invalid magic number {magic} in MNIST {kind} file: {name}")
      else (.ok ((), bytestream) : Except ReadError _))
      (fun _ => []) fun _ => magic = expected := by
    intro magic _ s u rest
    by_cases h : magic = expected
    · simp [h]
    · simp [h]
  have hof : ∀ (magic : UInt32) (_ : Unit), magic = expected → expected = magic :=
    fun _ _ h => h.symm
  exact (exact_read32.andThen hcheck hof).congr (fun _ => by simp) fun _ _ => List.append_nil _

/-- An array as it is stored. -/
def Images.encode (img : Images) : List UInt8 :=
  toBytes 4 2051 ++ (toBytes 4 img.numImages.toNat ++ (toBytes 4 img.rows.toNat ++
    (toBytes 4 img.cols.toNat ++ img.data)))

/-- The bytes that follow the sizes. The product of the sizes is that of the
numbers where it fits 32 bits, and no stream has enough where it does not. -/
theorem exact_data (numImages rows cols : UInt32) :
    Exact (fun bytestream : List UInt8 =>
      let count := (rows * cols * numImages).toNat
      let data := bytestream.take count
      if h : data.length = numImages.toNat * rows.toNat * cols.toNat then
        (.ok (⟨numImages, rows, cols, data, h⟩, bytestream.drop count) : Except ReadError _)
      else .error .shapeError)
      (fun img : Images => img.data) fun img => (img.numImages = numImages ∧ img.rows = rows ∧
        img.cols = cols) ∧ img.data.length < 2 ^ 32 := by
  have hcount : (rows * cols * numImages).toNat =
      numImages.toNat * rows.toNat * cols.toNat % 2 ^ 32 := by
    rw [UInt32.toNat_mul, UInt32.toNat_mul, Nat.mod_mul_mod, Nat.mul_comm, Nat.mul_assoc]
  intro s img rest
  simp only [hcount]
  constructor
  · intro h
    split at h
    · rename_i hlen
      obtain ⟨rfl, rfl⟩ := Prod.mk.inj (Except.ok.inj h)
      refine ⟨⟨⟨rfl, rfl, rfl⟩, ?_⟩, (List.take_append_drop _ s).symm⟩
      exact (List.length_take_le _ s).trans_lt (Nat.mod_lt _ (by decide))
    · cases h
  · rintro ⟨⟨⟨rfl, rfl, rfl⟩, hlt⟩, rfl⟩
    obtain ⟨numImages, rows, cols, data, hsize⟩ := img
    have hmod : numImages.toNat * rows.toNat * cols.toNat % 2 ^ 32 =
        numImages.toNat * rows.toNat * cols.toNat := Nat.mod_eq_of_lt (hsize ▸ hlt)
    have htake : (data ++ rest).take (numImages.toNat * rows.toNat * cols.toNat) = data :=
      List.take_left' hsize
    have hdrop : (data ++ rest).drop (numImages.toNat * rows.toNat * cols.toNat) = rest :=
      List.drop_left' hsize
    simp only [hmod, htake, hdrop, hsize, dite_true]

/-- The images are read as they are stored. -/
theorem exact_readImages :
    Exact (readImages name) Images.encode fun img => img.data.length < 2 ^ 32 := by
  have hcols := fun numImages rows : UInt32 => exact_read32.andThen
    (fun cols _ => exact_data numImages rows cols) (g := Images.cols) fun _ _ h => h.1.2.2
  have hrows := fun numImages : UInt32 => exact_read32.andThen
    (fun rows _ => hcols numImages rows) (g := Images.rows) fun _ _ h => h.2.1.2.1
  have hmagic : Exact (readMagic 2051 "image" name) _ _ := exact_readMagic 2051
  have hall := hmagic.andThen
    (fun _ _ => exact_read32.andThen (fun numImages _ => hrows numImages) (g := Images.numImages)
      fun _ _ h => h.2.2.1.1) (g := fun _ => ()) fun _ _ _ => rfl
  exact hall.congr (fun img => by simp) fun _ _ => rfl

/-- **What `extract_images` accepts**: an array as it is stored, with anything
behind it, if its size fits 32 bits. -/
theorem extractImages_eq_ok_iff : extractImages name s = .ok img ↔
    img.data.length < 2 ^ 32 ∧ ∃ rest, s = img.encode ++ rest := by
  constructor
  · intro h
    cases hread : readImages name s with
    | error e =>
      rw [extractImages, hread] at h
      cases h
    | ok out =>
      rw [extractImages, hread] at h
      obtain rfl : out.1 = img := Except.ok.inj h
      obtain ⟨hlt, hs⟩ := (exact_readImages s out.1 out.2).mp hread
      exact ⟨hlt, out.2, hs⟩
  · rintro ⟨hlt, rest, rfl⟩
    rw [extractImages, (exact_readImages _ img rest).mpr ⟨hlt, rfl⟩]
    rfl

end Images

/-! ## Labels in rows -/

/-- A row that is zero but for a one at the label. -/
def OneHot (label : ℕ) (row : List ℕ) : Prop :=
  label < row.length ∧ row = (List.replicate row.length 0).set label 1

section OneHot

variable {labels : List UInt8} {numClasses : ℕ}

/-- Where `dense_to_one_hot` puts the ones. -/
def ones (labels : List UInt8) (numClasses : ℕ) : List ℕ :=
  labels.mapIdx fun i label => i * numClasses + label.toNat

/-- The array with its ones. -/
def flat (labels : List UInt8) (numClasses : ℕ) : List ℕ :=
  (ones labels numClasses).foldl (fun flat i => flat.set i 1)
    (List.replicate (labels.length * numClasses) 0)

/-- `dense_to_one_hot` sets its ones one after another, unless one is out of range. -/
theorem denseToOneHot_eq : denseToOneHot labels numClasses =
    if ∀ p ∈ ones labels numClasses, p < labels.length * numClasses then
      .ok ((List.range labels.length).map fun i => block numClasses i (flat labels numClasses))
    else .error .indexError := by
  simp only [denseToOneHot, List.all_eq_true, decide_eq_true_eq]
  rfl

/-- To set ones keeps the length. -/
theorem length_setAll (is l : List ℕ) :
    (is.foldl (fun flat i => flat.set i 1) l).length = l.length := by
  induction is generalizing l with
  | nil => rfl
  | cons i is ih => rw [List.foldl_cons, ih, List.length_set]

/-- A place is one where it was set, else as before. -/
theorem getElem?_setAll (is l : List ℕ) {p : ℕ} (hp : p < l.length) :
    (is.foldl (fun flat i => flat.set i 1) l)[p]? = if p ∈ is then some 1 else l[p]? := by
  induction is generalizing l with
  | nil => simp
  | cons i is ih =>
    rw [List.foldl_cons, ih _ (by rwa [List.length_set])]
    by_cases hmem : p ∈ is
    · simp [hmem]
    · by_cases hi : i = p
      · subst hi
        simp [hmem, hp]
      · simp [hmem, hi, Ne.symm hi]

/-- The rows, one after another. -/
theorem length_flat : (flat labels numClasses).length = labels.length * numClasses := by
  rw [flat, length_setAll, List.length_replicate]

/-- Where they have a one. -/
theorem getElem?_flat {p : ℕ} (hp : p < labels.length * numClasses) :
    (flat labels numClasses)[p]? = some (if p ∈ ones labels numClasses then 1 else 0) := by
  rw [flat, getElem?_setAll _ _ (by simpa using hp)]
  split
  · rfl
  · simp [hp]

/-- The places of the ones: one for each label. -/
theorem mem_ones {p : ℕ} : p ∈ ones labels numClasses ↔
    ∃ i, ∃ h : i < labels.length, i * numClasses + labels[i].toNat = p := by
  simp [ones, List.mem_mapIdx]

/-- The rows all have one length. -/
theorem length_row {i : ℕ} (hi : i < labels.length) :
    (block numClasses i (flat labels numClasses)).length = numClasses := by
  have hle : (i + 1) * numClasses ≤ labels.length * numClasses := Nat.mul_le_mul_right _ hi
  rw [Nat.add_one_mul] at hle
  rw [block, List.length_take, List.length_drop, length_flat]
  omega

/-- What stands in a row. -/
theorem getElem?_row {i j : ℕ} (hi : i < labels.length) (hj : j < numClasses) :
    (block numClasses i (flat labels numClasses))[j]? =
      some (if i * numClasses + j ∈ ones labels numClasses then 1 else 0) := by
  have hle : (i + 1) * numClasses ≤ labels.length * numClasses := Nat.mul_le_mul_right _ hi
  rw [Nat.add_one_mul] at hle
  rw [block, List.getElem?_take_of_lt hj, List.getElem?_drop, getElem?_flat (by omega)]

/-- **A label in range** has its row to itself. -/
theorem oneHot_row (h : ∀ label ∈ labels, label.toNat < numClasses) {i : ℕ}
    (hi : i < labels.length) :
    OneHot labels[i].toNat (block numClasses i (flat labels numClasses)) := by
  have hlabel := h labels[i] (List.getElem_mem hi)
  refine ⟨by rwa [length_row hi], List.ext_getElem? fun j => ?_⟩
  rw [length_row hi]
  by_cases hj : j < numClasses
  · have hmem : i * numClasses + j ∈ ones labels numClasses ↔ labels[i].toNat = j := by
      rw [mem_ones]
      constructor
      · rintro ⟨i', hi', heq⟩
        have hlabel' := h labels[i'] (List.getElem_mem hi')
        -- quotient and remainder of one number
        have hdiv := congrArg (· / numClasses) heq
        have hpos : 0 < numClasses := by omega
        simp only [Nat.mul_comm _ numClasses, Nat.mul_add_div hpos, Nat.div_eq_of_lt hlabel',
          Nat.div_eq_of_lt hj, Nat.add_zero] at hdiv
        subst hdiv
        omega
      · rintro rfl
        exact ⟨i, hi, rfl⟩
    rw [getElem?_row hi hj]
    simp only [hmem, List.getElem?_set, List.length_replicate, List.getElem?_replicate, hj, if_true]
    split
    · simp_all
    · rfl
  · rw [List.getElem?_eq_none (by rw [length_row hi]; omega),
      List.getElem?_eq_none (by simpa using hj)]

/-- For labels below the number of classes they are in range. -/
theorem ones_lt (h : ∀ label ∈ labels, label.toNat < numClasses) :
    ∀ p ∈ ones labels numClasses, p < labels.length * numClasses := by
  intro p hp
  obtain ⟨i, hi, rfl⟩ := mem_ones.mp hp
  have hle : (i + 1) * numClasses ≤ labels.length * numClasses := Nat.mul_le_mul_right _ hi
  rw [Nat.add_one_mul] at hle
  have hlabel := h labels[i] (List.getElem_mem hi)
  omega

/-- **The rows stand for the labels** exactly where every label is one of the
classes. -/
theorem forall₂_oneHot_iff {rows : List (List ℕ)} (h : denseToOneHot labels numClasses = .ok rows) :
    List.Forall₂ (fun label row => OneHot label.toNat row) labels rows ↔
      ∀ label ∈ labels, label.toNat < numClasses := by
  rw [denseToOneHot_eq] at h
  split at h
  · obtain rfl := Except.ok.inj h
    constructor
    · intro hall label hmem
      obtain ⟨i, hi, rfl⟩ := List.getElem_of_mem hmem
      have hrow := (hall.get hi (by simpa using hi)).1
      simpa [length_row hi] using hrow
    · intro hlt
      refine List.forall₂_iff_get.mpr ⟨by simp, fun i hi hi' => ?_⟩
      simpa using oneHot_row hlt hi
  · cases h

/-- So it returns for them. -/
theorem denseToOneHot_returns (h : ∀ label ∈ labels, label.toNat < numClasses) :
    ∃ rows, denseToOneHot labels numClasses = .ok rows := by
  rw [denseToOneHot_eq, if_pos (ones_lt h)]
  exact ⟨_, rfl⟩

/-- A label too large has its one in a row further down. -/
theorem one_of_large_label {rows : List (List ℕ)} (h : denseToOneHot labels numClasses = .ok rows)
    {i : ℕ} (hi : i < labels.length) (hlarge : numClasses ≤ labels[i].toNat) :
    ∃ j row, i < j ∧ rows[j]? = some row ∧ row[labels[i].toNat % numClasses]? = some 1 := by
  rw [denseToOneHot_eq] at h
  split at h
  · rename_i hall
    obtain rfl := Except.ok.inj h
    have hone : i * numClasses + labels[i].toNat ∈ ones labels numClasses :=
      mem_ones.mpr ⟨i, hi, rfl⟩
    have hlt := hall _ hone
    have hpos : 0 < numClasses := by
      rcases Nat.eq_zero_or_pos numClasses with rfl | hpos
      · omega
      · exact hpos
    -- the quotient is the row's, the remainder the column
    have hplace : (i + labels[i].toNat / numClasses) * numClasses + labels[i].toNat % numClasses =
        i * numClasses + labels[i].toNat := by
      rw [Nat.add_mul, Nat.add_assoc, Nat.mul_comm (labels[i].toNat / numClasses),
        Nat.div_add_mod]
    have hrow : i + labels[i].toNat / numClasses < labels.length :=
      Nat.lt_of_mul_lt_mul_right (a := numClasses) (by omega)
    refine ⟨i + labels[i].toNat / numClasses,
      block numClasses (i + labels[i].toNat / numClasses) (flat labels numClasses), ?_, ?_, ?_⟩
    · have := Nat.div_pos hlarge hpos
      omega
    · rw [List.getElem?_map, List.getElem?_range hrow]
      rfl
    · rw [getElem?_row hrow (Nat.mod_lt _ hpos), hplace, if_pos hone]
  · cases h

/-- **`dense_to_one_hot` gives each label its own row** exactly where every
label is one of the classes. With a larger one it raises, or that label's one
is in the row of another. -/
theorem denseToOneHot_faithful :
    ((∃ rows, denseToOneHot labels numClasses = .ok rows ∧
        List.Forall₂ (fun label row => OneHot label.toNat row) labels rows) ↔
      ∀ label ∈ labels, label.toNat < numClasses) ∧
    ∀ rows, denseToOneHot labels numClasses = .ok rows →
      ∀ (i : ℕ) (hi : i < labels.length), numClasses ≤ labels[i].toNat →
        ∃ j row, i < j ∧ rows[j]? = some row ∧ row[labels[i].toNat % numClasses]? = some 1 := by
  refine ⟨⟨?_, fun h => ?_⟩, fun rows h i hi hlarge => one_of_large_label h hi hlarge⟩
  · rintro ⟨rows, h, hall⟩
    exact (forall₂_oneHot_iff h).mp hall
  · obtain ⟨rows, hrows⟩ := denseToOneHot_returns h
    exact ⟨rows, hrows, (forall₂_oneHot_iff hrows).mpr h⟩

/-- The one for a label too large is where the next row has its own. -/
example : denseToOneHot [7, 2] 5 = .ok [[0, 0, 0, 0, 0], [0, 0, 1, 0, 0]] := by decide

end OneHot

/-! ## The data sets -/

/-- Images and as many labels. -/
structure Examples (α β : Type) where
  images : List α
  labels : List β
  paired : images.length = labels.length

namespace Examples

variable {α β : Type}

/-- The first of them. -/
def take (n : ℕ) (e : Examples α β) : Examples α β where
  images := e.images.take n
  labels := e.labels.take n
  paired := by rw [List.length_take, List.length_take, e.paired]

/-- The others. -/
def drop (n : ℕ) (e : Examples α β) : Examples α β where
  images := e.images.drop n
  labels := e.labels.drop n
  paired := by rw [List.length_drop, List.length_drop, e.paired]

/-- The images as the data set takes them. -/
def imageVector (e : Examples α β) : Vector α e.images.length := ⟨e.images.toArray, rfl⟩

/-- The labels, of which there are as many. -/
def labelVector (e : Examples α β) : Vector β e.images.length :=
  ⟨e.labels.toArray, e.paired.symm⟩

/-- A data set of them. -/
def dataSet (e : Examples α β) : SomeDataSet α β :=
  ⟨e.images.length, .new e.imageVector e.labelVector⟩

end Examples

/-- What two files hold together: as many labels as images, and all of them in
rows. -/
structure Labelled where
  images : Images
  labels : List UInt8
  rows : List (List ℕ)
  encoded : denseToOneHot labels 10 = .ok rows
  paired : rows.length = images.numImages.toNat

/-- The labels a stream holds, all that are announced or all that there are. -/
def LabelStream (labels bytestream : List UInt8) : Prop :=
  ∃ (numItems : UInt32) (rest : List UInt8),
    bytestream = toBytes 4 2049 ++ (toBytes 4 numItems.toNat ++ (labels ++ rest)) ∧
      (labels.length = numItems.toNat ∨ labels.length < numItems.toNat ∧ rest = [])

/-- Two files have the images and the labels. -/
structure Stored (files : String → Option (List UInt8)) (images labels : String) (d : Labelled) :
    Prop where
  images : ∃ rest, files images = some (d.images.encode ++ rest)
  size : d.images.data.length < 2 ^ 32
  labels : ∃ bytestream, files labels = some bytestream ∧ LabelStream d.labels bytestream

/-- As many rows of pixels as images. -/
theorem length_flatten (images : Images) : images.flatten.length = images.numImages.toNat := by
  rw [Images.flatten, List.length_map, List.length_range]

/-- The examples of two files. -/
def Labelled.examples (scale : UInt8 → γ) (d : Labelled) : Examples (List γ) (List ℕ) where
  images := d.images.flatten.map (·.map scale)
  labels := d.rows
  paired := by rw [List.length_map, length_flatten, d.paired]

section DataSets

variable {name : String} {s : List UInt8} {labels : List UInt8} {rows : List (List ℕ)}

/-- **What is read of the labels**: a header, and as many bytes as are there. -/
theorem readLabels_eq_ok_iff {rest : List UInt8} : readLabels name s = .ok (labels, rest) ↔
    ∃ (numItems : UInt32) (tail : List UInt8),
      s = toBytes 4 2049 ++ (toBytes 4 numItems.toNat ++ tail) ∧
        labels = tail.take numItems.toNat ∧ rest = tail.drop numItems.toNat := by
  rw [readLabels, Format.andThen_eq_ok]
  constructor
  · rintro ⟨_, mid, hmagic, h⟩
    obtain ⟨numItems, tail, hnum, hread⟩ := Format.andThen_eq_ok.mp h
    obtain ⟨-, rfl⟩ := (exact_readMagic 2049 s _ mid).mp hmagic
    obtain ⟨-, rfl⟩ := (exact_read32 mid numItems tail).mp hnum
    obtain ⟨rfl, rfl⟩ := Prod.mk.inj (Except.ok.inj hread)
    exact ⟨numItems, tail, rfl, rfl, rfl⟩
  · rintro ⟨numItems, tail, rfl, rfl, rfl⟩
    exact ⟨(), _, (exact_readMagic 2049 _ _ _).mpr ⟨trivial, rfl⟩, Format.andThen_eq_ok.mpr
      ⟨numItems, tail, (exact_read32 _ _ _).mpr ⟨trivial, rfl⟩, rfl⟩⟩

/-- A label file is one that can be read. -/
theorem labelStream_iff : LabelStream labels s ↔
    ∃ rest, readLabels name s = .ok (labels, rest) := by
  simp only [readLabels_eq_ok_iff, LabelStream]
  constructor
  · rintro ⟨numItems, rest, rfl, hlen | ⟨hlen, rfl⟩⟩
    · exact ⟨rest, numItems, labels ++ rest, rfl, (List.take_left' hlen).symm,
        (List.drop_left' hlen).symm⟩
    · refine ⟨[], numItems, labels, by rw [List.append_nil], ?_, ?_⟩
      · exact (List.take_of_length_le hlen.le).symm
      · exact (List.drop_eq_nil_of_le hlen.le).symm
  · rintro ⟨rest, numItems, tail, rfl, rfl, rfl⟩
    refine ⟨numItems, tail.drop numItems.toNat, by rw [List.take_append_drop], ?_⟩
    rcases Nat.lt_or_ge tail.length numItems.toNat with hlt | hge
    · exact .inr ⟨by rw [List.length_take]; omega, List.drop_eq_nil_of_le hlt.le⟩
    · exact .inl (List.length_take_of_le hge)

/-- With `one_hot` the labels are encoded. -/
theorem extractLabels_eq_ok_iff {l : Labels} : extractLabels name true s = .ok l ↔
    ∃ labels rows, LabelStream labels s ∧ denseToOneHot labels 10 = .ok rows ∧
      l = .oneHot rows := by
  have hstream : ∀ labels, LabelStream labels s ↔ ∃ rest, readLabels name s = .ok (labels, rest) :=
    fun _ => labelStream_iff
  simp only [extractLabels, Format.bind_eq_ok, if_true, hstream]
  constructor
  · rintro ⟨⟨labels, rest⟩, hread, rows, hrows, hl⟩
    exact ⟨labels, rows, ⟨rest, hread⟩, hrows, (Except.ok.inj hl).symm⟩
  · rintro ⟨labels, rows, ⟨rest, hread⟩, hrows, rfl⟩
    exact ⟨⟨labels, rest⟩, hread, rows, hrows, rfl⟩

/-- A file that is there can be opened. -/
theorem openFile_eq_ok_iff {files : String → Option (List UInt8)} :
    openFile files name = .ok s ↔ files name = some s := by
  unfold openFile
  split
  · rename_i h
    rw [h]
    simp
  · rename_i h
    simp [h]

/-- A data set needs as many labels as images. -/
theorem new_eq_ok_iff {α : Type} {images : List α} {d : SomeDataSet α (List ℕ)} :
    SomeDataSet.new images (.oneHot rows) = .ok d ↔
      ∃ h : images.length = rows.length, d = Examples.dataSet ⟨images, rows, h⟩ := by
  unfold SomeDataSet.new
  split
  · rename_i h
    constructor
    · intro hd
      exact ⟨h, (Except.ok.inj hd).symm⟩
    · rintro ⟨h, rfl⟩
      rfl
  · rename_i h
    constructor
    · exact nofun
    · rintro ⟨h', -⟩
      exact absurd h' h

/-- Labels that are not encoded have no second dimension: no data set is made
of them. -/
theorem new_dense_ne_ok {α : Type} {images : List α} {d : SomeDataSet α (List ℕ)} :
    SomeDataSet.new images (.dense labels) ≠ .ok d := by
  unfold SomeDataSet.new
  split
  · exact nofun
  · exact nofun

/-- Without `one_hot` they are not. -/
theorem eq_dense_of_extractLabels {l : Labels} (h : extractLabels name false s = .ok l) :
    ∃ labels, l = .dense labels := by
  simp only [extractLabels, Format.bind_eq_ok, Bool.false_eq_true, if_false] at h
  obtain ⟨⟨labels, rest⟩, -, hl⟩ := h
  exact ⟨labels, (Except.ok.inj hl).symm⟩

/-- And `read_data_sets` raises. -/
theorem readDataSets_dense_ne_ok {scale : UInt8 → γ} {files : String → Option (List UInt8)}
    {curDir : String} {validationSize : ℤ} {sets : Datasets (List γ) (List ℕ)} :
    readDataSets scale files curDir false validationSize ≠ .ok sets := by
  intro h
  simp only [readDataSets, Format.bind_eq_ok] at h
  obtain ⟨_, -, _, -, _, -, trainLabels, hlabels, _, -, _, -, _, -, _, -, h⟩ := h
  obtain ⟨labels, rfl⟩ := eq_dense_of_extractLabels hlabels
  split at h
  · cases h
  · obtain ⟨_, htrain, -⟩ := by
      simpa only [Format.bind_eq_ok] using h
    exact new_dense_ne_ok htrain

/-- What `read_data_sets(one_hot=True)` makes of the files. -/
theorem readDataSets_eq_ok_iff {scale : UInt8 → γ} {files : String → Option (List UInt8)}
    {curDir : String} {validationSize : ℤ} {sets : Datasets (List γ) (List ℕ)} :
    readDataSets scale files curDir true validationSize = .ok sets ↔
      ∃ train test : Labelled,
        Stored files (curDir ++ "/train-images-idx3-ubyte.gz")
          (curDir ++ "/train-labels-idx1-ubyte.gz") train ∧
        Stored files (curDir ++ "/t10k-images-idx3-ubyte.gz")
          (curDir ++ "/t10k-labels-idx1-ubyte.gz") test ∧
        0 ≤ validationSize ∧ validationSize ≤ train.images.numImages.toNat ∧
        sets = ⟨((train.examples scale).drop validationSize.toNat).dataSet,
          ((train.examples scale).take validationSize.toNat).dataSet,
          (test.examples scale).dataSet⟩ := by
  simp only [readDataSets, Format.bind_eq_ok, openFile_eq_ok_iff, extractImages_eq_ok_iff,
    extractLabels_eq_ok_iff]
  constructor
  · rintro ⟨b₁, hb₁, trainImages, ⟨hsize, tail, rfl⟩, b₂, hb₂, _,
      ⟨trainLabels, trainRows, hstream, hrows, rfl⟩, b₃, hb₃, testImages, ⟨hsize', tail', rfl⟩,
      b₄, hb₄, _, ⟨testLabels, testRows, hstream', hrows', rfl⟩, h⟩
    split at h
    · cases h
    rename_i hsplit
    obtain ⟨hzero, hle⟩ := not_not.mp hsplit
    obtain ⟨d₁, hd₁, d₂, hd₂, d₃, hd₃, h⟩ := by
      simpa only [Format.bind_eq_ok] using h
    obtain ⟨hlen₁, rfl⟩ := new_eq_ok_iff.mp hd₁
    obtain ⟨hlen₂, rfl⟩ := new_eq_ok_iff.mp hd₂
    obtain ⟨hlen₃, rfl⟩ := new_eq_ok_iff.mp hd₃
    obtain rfl := Except.ok.inj h
    -- the two parts of the training set are as long each, so the whole is
    have hpaired : trainRows.length = trainImages.numImages.toNat := by
      simp only [List.length_drop, List.length_take, List.length_map, length_flatten] at hlen₁ hlen₂
      omega
    have hpaired' : testRows.length = testImages.numImages.toNat := by
      simpa only [List.length_map, length_flatten] using hlen₃.symm
    exact ⟨⟨trainImages, trainLabels, trainRows, hrows, hpaired⟩,
      ⟨testImages, testLabels, testRows, hrows', hpaired'⟩,
      ⟨⟨tail, hb₁⟩, hsize, b₂, hb₂, hstream⟩, ⟨⟨tail', hb₃⟩, hsize', b₄, hb₄, hstream'⟩,
      hzero, hle, rfl⟩
  · rintro ⟨train, test, ⟨⟨tail, hb₁⟩, hsize, b₂, hb₂, hstream⟩,
      ⟨⟨tail', hb₃⟩, hsize', b₄, hb₄, hstream'⟩, hzero, hle, rfl⟩
    refine ⟨_, hb₁, train.images, ⟨hsize, tail, rfl⟩, b₂, hb₂, _,
      ⟨train.labels, train.rows, hstream, train.encoded, rfl⟩, _, hb₃, test.images,
      ⟨hsize', tail', rfl⟩, b₄, hb₄, _, ⟨test.labels, test.rows, hstream', test.encoded, rfl⟩, ?_⟩
    -- the three constructors get as many labels as images
    rw [if_neg (not_not.mpr ⟨hzero, hle⟩)]
    have hnew : ∀ e : Examples (List γ) (List ℕ),
        SomeDataSet.new e.images (.oneHot e.labels) = .ok e.dataSet := fun e =>
      new_eq_ok_iff.mpr ⟨e.paired, rfl⟩
    have htrain := hnew ((train.examples scale).drop validationSize.toNat)
    have hvalidation := hnew ((train.examples scale).take validationSize.toNat)
    have htest := hnew (test.examples scale)
    simp only [Format.bind_eq_ok]
    exact ⟨_, htrain, _, hvalidation, _, htest, rfl⟩

/-- **What `read_data_sets` makes of the files**: where they hold images and as
many labels that can be encoded, the first of the training examples for
validation and the others for training, each with the row of its label.
Nothing else is accepted, nor labels that are not to be encoded. The rows are
those of the labels exactly where these are below ten. -/
theorem readDataSets_returns_iff {scale : UInt8 → γ} {files : String → Option (List UInt8)}
    {curDir : String} {oneHot : Bool} {validationSize : ℤ} {sets : Datasets (List γ) (List ℕ)} :
    (readDataSets scale files curDir oneHot validationSize = .ok sets ↔
      oneHot = true ∧ ∃ train test : Labelled,
        Stored files (curDir ++ "/train-images-idx3-ubyte.gz")
          (curDir ++ "/train-labels-idx1-ubyte.gz") train ∧
        Stored files (curDir ++ "/t10k-images-idx3-ubyte.gz")
          (curDir ++ "/t10k-labels-idx1-ubyte.gz") test ∧
        0 ≤ validationSize ∧ validationSize ≤ train.images.numImages.toNat ∧
        sets = ⟨((train.examples scale).drop validationSize.toNat).dataSet,
          ((train.examples scale).take validationSize.toNat).dataSet,
          (test.examples scale).dataSet⟩) ∧
    ∀ d : Labelled, List.Forall₂ (fun label row => OneHot label.toNat row) d.labels d.rows ↔
      ∀ label ∈ d.labels, label.toNat < 10 := by
  refine ⟨?_, fun d => forall₂_oneHot_iff d.encoded⟩
  cases oneHot with
  | false =>
    refine ⟨fun h => absurd h readDataSets_dense_ne_ok, ?_⟩
    rintro ⟨hfalse, -⟩
    cases hfalse
  | true => rw [readDataSets_eq_ok_iff, and_iff_right rfl]

end DataSets

end Dataset

end VerAI
