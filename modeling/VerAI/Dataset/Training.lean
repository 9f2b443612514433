import VerAI.Dataset.Reader
/-!
# What a model is trained and tested on

`run_train` draws a thousand batches of a hundred examples from the training
set, and `run_test` one from the test set. The stream of batches goes through
the training set again and again, so no two of its examples are fed more than
once apart in number, and none of the others are fed.
-/

namespace VerAI

namespace Dataset

open Blocks (EveryBlock block)

variable {α β : Type} {size : Field → ℕ}

/-- What the shuffles in one call of `fill_next_feed_dict` make. -/
structure Shuffles (size : Field → ℕ) where
  perm0 : (f : Field) → Equiv.Perm (Fin (size f))
  perm : (f : Field) → Equiv.Perm (Fin (size f))

/-- `fill_next_feed_dict(100)` -/
def Shuffles.fill (shuffles : Shuffles size) : FillCall size := ⟨100, shuffles.perm0, shuffles.perm⟩

/-- The loop of `run_train`, and what `session.run` is fed: the feed dictionary
of a step replaces both keys of the one before. -/
def feed (h : DataSetHandler α β size) :
    List (Shuffles size) → Except PyError (DataSetHandler α β size × List (Batch α β))
  | [] => .ok (h, [])
  | shuffles :: rest =>
    match h.fillNextFeedDict shuffles.fill with
    | (h, .ok outputs) => do
      let (h, fed) ← feed h rest
      return (h, outputs.toList ++ fed)
    | (_, .error e) => .error e

/-- A switch that may raise. -/
def switchTo (h : DataSetHandler α β size) (value : Iterations) :
    Except PyError (DataSetHandler α β size) :=
  match h.switchIteration value with
  | (h, .ok _) => .ok h
  | (_, .error e) => .error e

/-- `run_train` -/
def runTrain (h : DataSetHandler α β size) (shuffles : Vector (Shuffles size) 1000) :
    Except PyError (DataSetHandler α β size × List (Batch α β)) := do
  let h ← switchTo h .train
  feed h shuffles.toList

/-- `run_test` -/
def runTest (h : DataSetHandler α β size) (shuffles : Shuffles size) :
    Except PyError (DataSetHandler α β size × List (Batch α β)) := do
  let h ← switchTo h .test
  feed h [shuffles]

/-- `run_model`, by what the session is fed for training and for the test. -/
def runModel (h : DataSetHandler α β size) (trainShuffles : Vector (Shuffles size) 1000)
    (testShuffles : Shuffles size) : Except PyError (List (Batch α β) × List (Batch α β)) := do
  let (h, trained) ← runTrain h trainShuffles
  let (_, tested) ← runTest h testShuffles
  return (trained, tested)

/-! ## How often an example is drawn -/

section Count

variable {n i : ℕ} {drawn epochs : List (Fin n)} {σ : Equiv.Perm (Fin n)}

/-- **An example is drawn as often as any other**, up to one. -/
theorem Drawn.count (h : Drawn drawn σ epochs i) (x : Fin n) :
    drawn.length / n ≤ drawn.count x ∧ drawn.count x ≤ (drawn.length + n - 1) / n := by
  have hn : 0 < n := x.pos
  have hbound := h.bound
  obtain ⟨q, hq⟩ := h.whole
  have hwhole : epochs.count x = q := by
    have hblocks : EveryBlock n (fun b => b.count x = 1) epochs := fun k hk =>
      ((h.blocks k hk).count_eq x).trans (List.count_finRange ..)
    rw [hblocks.count hq, Nat.mul_one]
  have hnodup : (arrangement σ).Nodup := (arrangement_perm σ).nodup_iff.mpr (List.nodup_finRange n)
  have hpart : ((arrangement σ).take i).count x ≤ 1 :=
    List.nodup_iff_count_le_one.mp (hnodup.sublist (List.take_sublist i _)) x
  have hlength : drawn.length = q * n + i := by
    rw [h.drawn, List.length_append, hq, List.length_take, length_arrangement,
      Nat.min_eq_left hbound]
  have hcount : drawn.count x = q + ((arrangement σ).take i).count x := by
    rw [h.drawn, List.count_append, hwhole]
  have hdiv : ∀ m r, r < n → (r + m * n) / n = m := fun m r hr => by
    rw [Nat.add_mul_div_right _ _ hn, Nat.div_eq_of_lt hr, Nat.zero_add]
  rw [hlength, hcount]
  rcases Nat.eq_or_lt_of_le hbound with rfl | hlt
  · -- the epoch is complete
    have hone : ((arrangement σ).take i).count x = 1 := by
      rw [List.take_of_length_le (by simp), (arrangement_perm σ).count_eq, List.count_finRange]
    have hlow := hdiv (q + 1) 0 hn
    have hhigh := hdiv (q + 1) (i - 1) (by omega)
    rw [Nat.add_one_mul] at hlow hhigh
    rw [show q * i + i = 0 + (q * i + i) by omega, hlow,
      show 0 + (q * i + i) + i - 1 = i - 1 + (q * i + i) by omega, hhigh]
    omega
  · have hlow := hdiv q i hlt
    refine ⟨by rw [Nat.add_comm, hlow]; omega, ?_⟩
    rcases Nat.eq_zero_or_pos i with rfl | hpos
    · have hhigh := hdiv q (n - 1) (by omega)
      rw [show q * n + 0 + n - 1 = n - 1 + q * n by omega, hhigh, List.take_zero, List.count_nil]
      exact Nat.le_refl q
    · have hhigh := hdiv (q + 1) (i - 1) (by omega)
      rw [Nat.add_one_mul] at hhigh
      rw [show q * n + i + n - 1 = i - 1 + (q * n + n) by omega, hhigh]
      omega

end Count

/-! ## The loops -/

section Feed

variable {images : (f : Field) → Vector α (size f)} {labels : (f : Field) → Vector β (size f)}
  {h : DataSetHandler α β size} {f : Field}

/-- **The loop feeds the next examples of the current data set**, a hundred a
step, and leaves the other data sets alone. -/
theorem feed_eq (hcur : h.curDataset = some f) (hsize : 100 ≤ size f)
    {drawn : List (Fin (size f))} (hp : Progress (images f) (labels f) (h.datasets f) drawn)
    (shuffles : List (Shuffles size)) :
    ∃ (h' : DataSetHandler α β size) (idxs : List (List (Fin (size f)))),
      feed h shuffles = .ok (h', idxs.map (examples (images f) (labels f))) ∧
      idxs.length = shuffles.length ∧ (∀ idx ∈ idxs, idx.length = 100) ∧
      Progress (images f) (labels f) (h'.datasets f) (drawn ++ idxs.flatten) ∧
      ∀ g, g ≠ f → h'.datasets g = h.datasets g := by
  -- by the steps; the stream of the current data set goes on from one to the next
  induction shuffles generalizing h drawn with
  | nil => exact ⟨h, [], rfl, rfl, by simp, by simpa using hp, fun _ _ => rfl⟩
  | cons first rest ih =>
    obtain ⟨idx, hbatch, hlen, hnext⟩ := hp.nextBatch (c := first.fill.on f)
      (show (1 : ℤ) ≤ 100 by decide) (show (100 : ℤ) ≤ size f by omega)
    have hfill := fillNextFeedDict_of_some (c := first.fill) hcur
    rw [hbatch] at hfill
    have hnext : Progress (images f) (labels f) (Function.update h.datasets f
        ((h.datasets f).nextBatch (first.fill.on f)).1 f) (drawn ++ idx) := by
      rw [Function.update_self]
      exact hnext
    obtain ⟨h', idxs, hfeed, hlength, hall, hp', hothers⟩ := ih
      (h := ⟨Function.update h.datasets f ((h.datasets f).nextBatch (first.fill.on f)).1,
        h.iteration, h.curDataset⟩) hcur hnext
    refine ⟨h', idx :: idxs, ?_, by simp [hlength], ?_, ?_, fun g hg => ?_⟩
    · rw [feed, hfill]
      simp only [hfeed]
      rfl
    · refine List.forall_mem_cons.mpr ⟨?_, hall⟩
      have hlen : (idx.length : ℤ) = 100 := hlen
      omega
    · rw [List.flatten_cons, ← List.append_assoc]
      exact hp'
    · rw [hothers g hg]
      exact Function.update_of_ne hg ..

/-- **What a model is trained and tested on.** A thousand batches of a hundred
training examples, every one of them as often as any other up to one, and each
image with its own label; and a hundred test examples, none of them twice. -/
theorem runModel_eq (images : (f : Field) → Vector α (size f))
    (labels : (f : Field) → Vector β (size f)) (htrain : 100 ≤ size .train)
    (htest : 100 ≤ size .test) (trainShuffles : Vector (Shuffles size) 1000)
    (testShuffles : Shuffles size) :
    ∃ (idxs : List (List (Fin (size .train)))) (idx : List (Fin (size .test))),
      runModel (.new fun f => .new (images f) (labels f)) trainShuffles testShuffles =
        .ok (idxs.map (examples (images .train) (labels .train)),
          [examples (images .test) (labels .test) idx]) ∧
      idxs.length = 1000 ∧ (∀ idx ∈ idxs, idx.length = 100) ∧
      (∀ x, 100000 / size .train ≤ idxs.flatten.count x ∧
        idxs.flatten.count x ≤ (100000 + size .train - 1) / size .train) ∧
      idx.length = 100 ∧ idx.Nodup := by
  have hfresh : ∀ f, Progress (images f) (labels f) (.new (images f) (labels f)) [] :=
    fun f => ⟨1, [], 0, .new, .nil 1, rfl⟩
  obtain ⟨h₁, idxs, hfeed, hlength, hall, hp, hothers⟩ := feed_eq
    (h := ((DataSetHandler.new fun f => .new (images f) (labels f)).switchIteration .train).1)
    (f := .train) rfl htrain (hfresh .train) trainShuffles.toList
  obtain ⟨h₂, idx, hfeed', hlength', hall', hp', -⟩ := feed_eq
    (h := (h₁.switchIteration .test).1) (f := .test) rfl htest
    (show Progress _ _ (h₁.datasets .test) [] by
      rw [hothers .test (by decide)]
      exact hfresh .test) [testShuffles]
  obtain ⟨idx, rfl⟩ := List.length_eq_one_iff.mp hlength'
  have hlen : idx.length = 100 := hall' idx (List.mem_singleton_self idx)
  have htotal : idxs.flatten.length = 100000 := by
    rw [List.length_flatten, List.map_congr_left hall, List.map_const', List.sum_replicate, hlength]
    simp
  refine ⟨idxs, idx, ?_, by simpa using hlength, hall, fun x => ?_, hlen, ?_⟩
  · have htrained : runTrain (.new fun f => .new (images f) (labels f)) trainShuffles =
        .ok (h₁, idxs.map (examples (images .train) (labels .train))) := hfeed
    have htested : runTest h₁ testShuffles =
        .ok (h₂, [examples (images .test) (labels .test) idx]) := hfeed'
    exact Format.bind_eq_ok.mpr ⟨_, htrained, Format.bind_eq_ok.mpr ⟨_, htested, rfl⟩⟩
  · obtain ⟨σ, epochs, i, -, hd, -⟩ := hp
    have hcount := hd.count x
    rwa [List.nil_append, htotal] at hcount
  · obtain ⟨σ, epochs, i, -, hd, -⟩ := hp'
    refine List.nodup_iff_count_le_one.mpr fun x => ?_
    have hcount := (hd.count x).2
    simp only [List.nil_append, List.flatten_cons, List.flatten_nil, List.append_nil,
      hlen] at hcount
    -- a hundred of at least as many: no example comes a second time
    have hone : (100 + size .test - 1) / size .test < 2 :=
      (Nat.div_lt_iff_lt_mul (by omega)).mpr (by omega)
    omega

end Feed

/-! ## From the files -/

/-- The data set of a field. -/
def Datasets.get (datasets : Datasets α β) : Field → SomeDataSet α β
  | .train => datasets.train
  | .validation => datasets.validation
  | .test => datasets.test

/-- A handler with the sizes of its data sets. -/
abbrev SomeHandler (α β : Type) := (size : Field → ℕ) × DataSetHandler α β size

/-- A handler of some data sets. -/
def newHandler (datasets : Field → SomeDataSet α β) : SomeHandler α β :=
  ⟨fun f => (datasets f).1, .new fun f => (datasets f).2⟩

/-- `DataSetHandler.__init__`; the validation size has its default. -/
def openHandler {γ : Type} (scale : UInt8 → γ) (files : String → Option (List UInt8))
    (curDir : String) : Except ReadError (SomeHandler (List γ) (List ℕ)) := do
  let datasets ← readDataSets scale files curDir true 5000
  return newHandler datasets.get

/-- The handler of these examples. -/
def handlerOf (e : Field → Examples α β) :
    DataSetHandler α β fun f => (e f).images.length :=
  .new fun f => (e f).dataSet.2

/-- The batch of some of the examples. -/
def Examples.batch (e : Examples α β) (idx : List (Fin e.images.length)) : Batch α β :=
  examples e.imageVector e.labelVector idx

section Files

variable {γ : Type} {scale : UInt8 → γ} {files : String → Option (List UInt8)} {curDir : String}
  {train test : Labelled}

/-- What each of the data sets is made of. -/
def fileExamples (scale : UInt8 → γ) (train test : Labelled) :
    Field → Examples (List γ) (List ℕ)
  | .train => (train.examples scale).drop 5000
  | .validation => (train.examples scale).take 5000
  | .test => test.examples scale

/-- **The examples are what is stored** from some place on: each image with the
one-hot row of the label stored for it. -/
def ShowsStored (scale : UInt8 → γ) (d : Labelled) (first : ℕ)
    (e : Examples (List γ) (List ℕ)) : Prop :=
  ∀ x : Fin e.images.length, ∃ pixels label, d.images.flatten[first + x]? = some pixels ∧
    d.labels[first + x]? = some label ∧ e.imageVector.get x = pixels.map scale ∧
    OneHot label.toNat (e.labelVector.get x)

/-- Labels below ten have their own rows. -/
theorem showsStored_examples (scale : UInt8 → γ) {d : Labelled}
    (h : ∀ label ∈ d.labels, label.toNat < 10) : ShowsStored scale d 0 (d.examples scale) := by
  intro x
  have hrows := (forall₂_oneHot_iff d.encoded).mpr h
  have hx : x < d.images.flatten.length := by
    have := x.isLt
    simpa [Labelled.examples] using this
  have hrow : x < d.rows.length := by
    rw [d.paired, ← length_flatten]
    exact hx
  have hlabel : x < d.labels.length := hrows.length_eq ▸ hrow
  refine ⟨d.images.flatten.get ⟨x, hx⟩, d.labels.get ⟨x, hlabel⟩, ?_, ?_, ?_, ?_⟩
  · rw [Nat.zero_add]
    exact List.getElem?_eq_getElem hx
  · rw [Nat.zero_add]
    exact List.getElem?_eq_getElem hlabel
  · exact List.getElem_map _
  · exact hrows.get hlabel hrow

/-- The examples behind some of those are stored behind them. -/
theorem ShowsStored.drop {d : Labelled} {first : ℕ} {e : Examples (List γ) (List ℕ)}
    (h : ShowsStored scale d first e) (n : ℕ) : ShowsStored scale d (first + n) (e.drop n) := by
  intro x
  have hx : n + x < e.images.length := by
    have := x.isLt
    simp only [Examples.drop, List.length_drop] at this
    omega
  obtain ⟨pixels, label, hpixels, hlabel, himage, hrow⟩ := h ⟨n + x, hx⟩
  rw [← Nat.add_assoc] at hpixels hlabel
  refine ⟨pixels, label, hpixels, hlabel, ?_, ?_⟩
  · exact List.getElem_drop.trans himage
  · have hsame : (e.drop n).labelVector.get x = e.labelVector.get ⟨n + x, hx⟩ := List.getElem_drop
    exact hsame ▸ hrow

/-- **From the files to what the session is fed**, where no label is ten or
more. The training images but the first five thousand are fed a hundred at a
time, every one of them as often as any other up to one, and then a hundred of
the test images; all with the one-hot rows of the labels stored for them. -/
theorem model_of_files
    (htrain : Stored files (curDir ++ "/train-images-idx3-ubyte.gz")
      (curDir ++ "/train-labels-idx1-ubyte.gz") train)
    (htest : Stored files (curDir ++ "/t10k-images-idx3-ubyte.gz")
      (curDir ++ "/t10k-labels-idx1-ubyte.gz") test)
    (hlabels : ∀ label ∈ train.labels, label.toNat < 10)
    (hlabels' : ∀ label ∈ test.labels, label.toNat < 10)
    (hn : 5100 ≤ train.images.numImages.toNat) (hm : 100 ≤ test.images.numImages.toNat) :
    openHandler scale files curDir = .ok ⟨_, handlerOf (fileExamples scale train test)⟩ ∧
    ShowsStored scale train 5000 (fileExamples scale train test .train) ∧
    ShowsStored scale test 0 (fileExamples scale train test .test) ∧
    ∀ trainShuffles testShuffles, ∃ (idxs : List (List _)) (idx : List _),
      runModel (handlerOf (fileExamples scale train test)) trainShuffles testShuffles =
        .ok (idxs.map (fileExamples scale train test .train).batch,
          [(fileExamples scale train test .test).batch idx]) ∧
      idxs.length = 1000 ∧ (∀ idx ∈ idxs, idx.length = 100) ∧
      (∀ x, 100000 / (train.images.numImages.toNat - 5000) ≤ idxs.flatten.count x ∧
        idxs.flatten.count x ≤ (100000 + (train.images.numImages.toNat - 5000) - 1) /
          (train.images.numImages.toNat - 5000)) ∧
      idx.length = 100 ∧ idx.Nodup := by
  have hsize : ((fileExamples scale train test) .train).images.length =
      train.images.numImages.toNat - 5000 := by
    simp [fileExamples, Examples.drop, Labelled.examples, length_flatten]
  have hsize' : ((fileExamples scale train test) .test).images.length =
      test.images.numImages.toNat := by
    simp [fileExamples, Labelled.examples, length_flatten]
  refine ⟨?_, ?_, showsStored_examples scale hlabels', ?_⟩
  · have hread : readDataSets scale files curDir true 5000 = _ := readDataSets_eq_ok_iff.mpr
      ⟨train, test, htrain, htest, by omega, by omega, rfl⟩
    refine Format.bind_eq_ok.mpr ⟨_, hread, ?_⟩
    have hget : Datasets.get ⟨((train.examples scale).drop (5000 : ℤ).toNat).dataSet,
        ((train.examples scale).take (5000 : ℤ).toNat).dataSet, (test.examples scale).dataSet⟩ =
          fun f => (fileExamples scale train test f).dataSet := by
      funext f
      cases f with
      | train => rfl
      | validation => rfl
      | test => rfl
    rw [hget]
    rfl
  · have hall := (showsStored_examples scale hlabels).drop 5000
    rwa [Nat.zero_add] at hall
  · intro trainShuffles testShuffles
    have htrain : 100 ≤ (fileExamples scale train test .train).images.length := by omega
    have htest : 100 ≤ (fileExamples scale train test .test).images.length := by omega
    rw [← hsize]
    exact runModel_eq (fun f => (fileExamples scale train test f).imageVector)
      (fun f => (fileExamples scale train test f).labelVector) htrain htest trainShuffles
      testShuffles

/-- Images of one black pixel, all with label zero. -/
def blank (n : UInt32) : Labelled where
  images := ⟨n, 1, 1, List.replicate n.toNat 0, by simp⟩
  labels := List.replicate n.toNat 0
  rows := (List.range n.toNat).map fun i => block 10 i (flat (List.replicate n.toNat 0) 10)
  encoded := by
    rw [denseToOneHot_eq, List.length_replicate, if_pos]
    have hlt : ∀ p ∈ ones (List.replicate n.toNat 0) 10, p < _ := ones_lt (by simp)
    simpa using hlt
  paired := by simp

/-- The four files of the smallest sets that do. -/
def blankFiles : String → Option (List UInt8)
  | "/train-images-idx3-ubyte.gz" => some (blank 5100).images.encode
  | "/train-labels-idx1-ubyte.gz" =>
    some (Format.toBytes 4 2049 ++ (Format.toBytes 4 5100 ++ (blank 5100).labels))
  | "/t10k-images-idx3-ubyte.gz" => some (blank 100).images.encode
  | "/t10k-labels-idx1-ubyte.gz" =>
    some (Format.toBytes 4 2049 ++ (Format.toBytes 4 100 ++ (blank 100).labels))
  | _ => none

theorem stored_blank {files : String → Option (List UInt8)} {images labels : String} {n : UInt32}
    (himages : files images = some (blank n).images.encode)
    (hlabels : files labels = some (Format.toBytes 4 2049 ++
      (Format.toBytes 4 n.toNat ++ (blank n).labels))) : Stored files images labels (blank n) where
  images := ⟨[], by rw [himages, List.append_nil]⟩
  size := by
    show (List.replicate n.toNat (0 : UInt8)).length < 2 ^ 32
    rw [List.length_replicate]
    exact n.toNat_lt
  labels := ⟨_, hlabels, n, [], by rw [List.append_nil], .inl (List.length_replicate ..)⟩

theorem labels_blank {n : UInt32} : ∀ label ∈ (blank n).labels, label.toNat < 10 := by
  intro label hlabel
  obtain ⟨-, rfl⟩ := List.mem_replicate.mp hlabel
  decide

theorem model_of_blankFiles : ∃ h : SomeHandler (List UInt8) (List ℕ),
    openHandler id blankFiles "" = .ok h :=
  ⟨_, (model_of_files (stored_blank (n := 5100) rfl rfl) (stored_blank (n := 100) rfl rfl)
    labels_blank labels_blank (by decide) (by decide)).1⟩

end Files

end Dataset

end VerAI
