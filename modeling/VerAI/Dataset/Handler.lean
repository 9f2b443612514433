import VerAI.Dataset.NextBatch
/-!
# The current data set — `DataSetHandler`

The handler keeps the iteration in its base class and the data set it selects
for it in a field of its own. `switch_iteration` stores the first before it
chooses the second, and one of the names it compares with is no member of the
enumeration: the comparison raises, with the iteration already stored.

Each data set keeps its own position. What the shuffles of a call make is
part of the call, since they come from a generator outside.
-/

namespace VerAI

namespace Dataset

/-- `DataSetBase.Iterations` -/
inductive Iterations
  | train
  | test
  | validate
  | inference
  deriving DecidableEq, Repr

/-- The member of a name. -/
def Iterations.ofName : String → Option Iterations
  | "TRAIN" => some .train
  | "TEST" => some .test
  | "VALIDATE" => some .validate
  | "INFERENCE" => some .inference
  | _ => none

/-- The fields of `base.Datasets`. -/
inductive Field
  | train
  | validation
  | test
  deriving DecidableEq, Repr

/-- The exceptions of the calls. -/
inductive PyError
  | attributeError (name : String)
  /-- `Unsupported iteration` -/
  | valueError (value : Iterations)
  deriving DecidableEq, Repr

/-- `DataSetHandler`, with the sizes of its data sets. `curDataset` says which
of them `cur_dataset` refers to. -/
structure DataSetHandler (α β : Type) (size : Field → ℕ) where
  datasets : (f : Field) → DataSet α β (size f)
  iteration : Iterations
  curDataset : Option Field

/-- A call of `fill_next_feed_dict`, and what the shuffles of `next_batch`
make, whichever data set is the current one. -/
structure FillCall (size : Field → ℕ) where
  batchSize : ℤ
  perm0 : (f : Field) → Equiv.Perm (Fin (size f))
  perm : (f : Field) → Equiv.Perm (Fin (size f))

variable {α β : Type} {size : Field → ℕ}

/-- The call of `next_batch` on a data set; `shuffle` has its default. -/
def FillCall.on (c : FillCall size) (f : Field) : Call (size f) :=
  ⟨c.batchSize, true, c.perm0 f, c.perm f⟩

/-- The calls on a handler. -/
inductive HandlerCall (size : Field → ℕ)
  | switchIteration (value : Iterations)
  | fillNextFeedDict (c : FillCall size)

/-- The comparisons of `switch_iteration`, one after another. -/
def select (value : Iterations) : List (String × Field) → Except PyError Field
  | [] => .error (.valueError value)
  | (name, f) :: rest =>
    match Iterations.ofName name with
    | none => .error (.attributeError name)
    | some member => if member = value then .ok f else select value rest

namespace DataSetHandler

/-- `switch_iteration` -/
def switchIteration (h : DataSetHandler α β size) (value : Iterations) :
    DataSetHandler α β size × Except PyError (Option (Batch α β)) :=
  let h := { h with iteration := value }
  match select value [("TRAIN", .train), ("TEST", .test), ("VALIDATION", .validation)] with
  | .ok f => ({ h with curDataset := some f }, .ok none)
  | .error e => (h, .error e)

/-- `fill_next_feed_dict` -/
def fillNextFeedDict (h : DataSetHandler α β size) (c : FillCall size) :
    DataSetHandler α β size × Except PyError (Option (Batch α β)) :=
  match h.curDataset with
  | none => (h, .error (.attributeError "next_batch"))
  | some f =>
    let (dataset, outputs) := (h.datasets f).nextBatch (c.on f)
    ({ h with datasets := Function.update h.datasets f dataset }, .ok (some outputs))

/-- The constructor. -/
def new (datasets : (f : Field) → DataSet α β (size f)) : DataSetHandler α β size :=
  (switchIteration ⟨datasets, .train, none⟩ .train).1

def call (h : DataSetHandler α β size) : HandlerCall size →
    DataSetHandler α β size × Except PyError (Option (Batch α β))
  | .switchIteration value => h.switchIteration value
  | .fillNextFeedDict c => h.fillNextFeedDict c

end DataSetHandler

/-- A call with the handler before and after it, and what it returned. -/
structure HandlerStep (α β : Type) (size : Field → ℕ) where
  before : DataSetHandler α β size
  call : HandlerCall size
  after : DataSetHandler α β size
  result : Except PyError (Option (Batch α β))

/-- A sequence of calls, which goes on after an exception. -/
def DataSetHandler.run (h : DataSetHandler α β size) :
    List (HandlerCall size) → List (HandlerStep α β size)
  | [] => []
  | c :: cs => ⟨h, c, (h.call c).1, (h.call c).2⟩ :: (h.call c).1.run cs

/-- The data set an iteration names. -/
def named : Iterations → Option Field
  | .train => some .train
  | .test => some .test
  | .validate => some .validation
  | .inference => none

/-- The batch a step draws from a data set, and the call it is drawn by. -/
def HandlerStep.drawnFrom (f : Field) (st : HandlerStep α β size) :
    Option (FillCall size × Batch α β) :=
  match st.call, st.result with
  | .fillNextFeedDict c, .ok (some b) => if st.before.curDataset = some f then some (c, b) else none
  | _, _ => none

/-- The batches drawn from a data set. -/
def drawn (f : Field) (steps : List (HandlerStep α β size)) : List (FillCall size × Batch α β) :=
  steps.filterMap (HandlerStep.drawnFrom f)

/-- A batch returned is the next one of the data set the iteration names. -/
def HandlerStep.FeedsNamed (st : HandlerStep α β size) : Prop :=
  ∀ b, st.result = .ok (some b) → ∃ f c, st.call = .fillNextFeedDict c ∧
    named st.before.iteration = some f ∧ st.before.curDataset = some f ∧
    b = ((st.before.datasets f).nextBatch (c.on f)).2 ∧
    st.after.datasets = Function.update st.before.datasets f
      ((st.before.datasets f).nextBatch (c.on f)).1

/-- A call that raises leaves the iteration and the current data set. -/
def HandlerStep.KeepsOnRaise (st : HandlerStep α β size) : Prop :=
  ∀ e, st.result = .error e →
    st.after.iteration = st.before.iteration ∧ st.after.curDataset = st.before.curDataset

/-- **The current iteration names the data that is fed**, in every call of a
sequence, and each data set gives the batches it would give alone. -/
structure NamesFed (datasets : (f : Field) → DataSet α β (size f)) (cs : List (HandlerCall size)) :
    Prop where
  fed : ∀ st ∈ (DataSetHandler.new datasets).run cs, st.FeedsNamed
  raised : ∀ st ∈ (DataSetHandler.new datasets).run cs, st.KeepsOnRaise
  apart : ∀ f, (drawn f ((DataSetHandler.new datasets).run cs)).map Prod.snd =
    ((datasets f).calls
      ((drawn f ((DataSetHandler.new datasets).run cs)).map fun p => p.1.on f)).map Prod.snd

/-! ## One call -/

section Call

variable {h : DataSetHandler α β size} {value : Iterations} {c : FillCall size} {f : Field}

/-- **Any other iteration raises, and stays stored.** -/
theorem switchIteration_of_ne (ht : value ≠ .train) (ht' : value ≠ .test) :
    h.switchIteration value =
      ({ h with iteration := value }, .error (.attributeError "VALIDATION")) := by
  cases value with
  | train => exact absurd rfl ht
  | test => exact absurd rfl ht'
  | validate => rfl
  | inference => rfl

theorem fillNextFeedDict_of_some (hf : h.curDataset = some f) : h.fillNextFeedDict c =
    ({ h with datasets := Function.update h.datasets f ((h.datasets f).nextBatch (c.on f)).1 },
      .ok (some ((h.datasets f).nextBatch (c.on f)).2)) := by
  simp only [DataSetHandler.fillNextFeedDict, hf]

end Call

/-! ## Each data set alone -/

section Apart

variable {h : DataSetHandler α β size} {cs : List (HandlerCall size)} {f : Field}

theorem datasets_switchIteration (value : Iterations) :
    (h.switchIteration value).1.datasets = h.datasets := by
  unfold DataSetHandler.switchIteration
  split <;> rfl

/-- **A call draws a batch from a data set, or leaves that data set alone.** -/
theorem drawnFrom_cases (h : DataSetHandler α β size) (f : Field) (c : HandlerCall size) :
    (HandlerStep.drawnFrom f ⟨h, c, (h.call c).1, (h.call c).2⟩ = none ∧
      (h.call c).1.datasets f = h.datasets f) ∨
    ∃ fill, HandlerStep.drawnFrom f ⟨h, c, (h.call c).1, (h.call c).2⟩ =
        some (fill, ((h.datasets f).nextBatch (fill.on f)).2) ∧
      (h.call c).1.datasets f = ((h.datasets f).nextBatch (fill.on f)).1 := by
  cases c with
  | switchIteration value => exact .inl ⟨rfl, congrFun (datasets_switchIteration value) f⟩
  | fillNextFeedDict fill =>
    cases hcur : h.curDataset with
    | none =>
      have hcall : h.call (.fillNextFeedDict fill) =
          (h, .error (.attributeError "next_batch")) := by
        simp only [DataSetHandler.call, DataSetHandler.fillNextFeedDict, hcur]
      rw [hcall]
      exact .inl ⟨rfl, rfl⟩
    | some g =>
      have hcall : h.call (.fillNextFeedDict fill) = _ := fillNextFeedDict_of_some hcur
      rw [hcall]
      by_cases hg : g = f
      · subst hg
        exact .inr ⟨fill, if_pos hcur, Function.update_self ..⟩
      · refine .inl ⟨if_neg fun heq => hg (Option.some.inj (hcur.symm.trans heq)), ?_⟩
        exact Function.update_of_ne (Ne.symm hg) _ _

/-- **What a data set gives is what it would give alone.** -/
theorem drawn_eq_calls (f : Field) (cs : List (HandlerCall size)) (h : DataSetHandler α β size) :
    (drawn f (h.run cs)).map Prod.snd =
      ((h.datasets f).calls ((drawn f (h.run cs)).map fun p => p.1.on f)).map Prod.snd := by
  induction cs generalizing h with
  | nil => rfl
  | cons c cs ih =>
    have hmore := ih (h.call c).1
    obtain ⟨hnone, hsame⟩ | ⟨fill, hone, hnext⟩ := drawnFrom_cases h f c
    · rw [hsame] at hmore
      rwa [DataSetHandler.run, drawn, List.filterMap_cons_none hnone]
    · rw [hnext] at hmore
      rw [DataSetHandler.run, drawn, List.filterMap_cons_some hone, List.map_cons, List.map_cons,
        DataSet.calls, List.map_cons]
      exact congrArg _ hmore

end Apart

/-! ## The iteration and the current data set -/

section Named

variable {datasets : (f : Field) → DataSet α β (size f)} {h : DataSetHandler α β size}
  {c : HandlerCall size} {cs : List (HandlerCall size)} {st : HandlerStep α β size}

/-- The iteration is one that can be selected, and its data set is. -/
def Synced (h : DataSetHandler α β size) : Prop :=
  (h.iteration = .train ∧ h.curDataset = some .train) ∨
  (h.iteration = .test ∧ h.curDataset = some .test)

/-- The call switches to an iteration that can be selected, if it switches. -/
def HandlerCall.Selects (c : HandlerCall size) : Prop :=
  ∀ value, c = .switchIteration value → value = .train ∨ value = .test

theorem synced_new : Synced (.new datasets) := .inl ⟨rfl, rfl⟩

theorem Synced.named (hs : Synced h) :
    ∃ f, named h.iteration = some f ∧ h.curDataset = some f := by
  obtain ⟨hi, hc⟩ | ⟨hi, hc⟩ := hs
  · exact ⟨.train, by rw [hi]; rfl, hc⟩
  · exact ⟨.test, by rw [hi]; rfl, hc⟩

/-- **A call that selects keeps the two together.** -/
theorem Synced.call (hs : Synced h) (hc : c.Selects) : Synced (h.call c).1 ∧
    HandlerStep.FeedsNamed ⟨h, c, (h.call c).1, (h.call c).2⟩ ∧
    HandlerStep.KeepsOnRaise ⟨h, c, (h.call c).1, (h.call c).2⟩ := by
  cases c with
  | switchIteration value =>
    obtain rfl | rfl := hc value rfl
    · exact ⟨.inl ⟨rfl, rfl⟩, (fun b hb => by cases hb), fun e he => by cases he⟩
    · exact ⟨.inr ⟨rfl, rfl⟩, (fun b hb => by cases hb), fun e he => by cases he⟩
  | fillNextFeedDict fill =>
    obtain ⟨f, hname, hcur⟩ := hs.named
    have hcall : h.call (.fillNextFeedDict fill) = _ := fillNextFeedDict_of_some hcur
    rw [hcall]
    refine ⟨hs, fun b hb => ?_, fun e he => by cases he⟩
    obtain rfl := Option.some.inj (Except.ok.inj hb)
    exact ⟨f, fill, rfl, hname, hcur, rfl, rfl⟩

theorem Synced.run (hs : Synced h) (hcs : ∀ c ∈ cs, c.Selects) :
    ∀ st ∈ h.run cs, st.FeedsNamed ∧ st.KeepsOnRaise := by
  induction cs generalizing h with
  | nil => exact fun st hst => absurd hst List.not_mem_nil
  | cons c cs ih =>
    obtain ⟨hc, hcs⟩ := List.forall_mem_cons.mp hcs
    obtain ⟨hnext, hlaws⟩ := hs.call hc
    exact List.forall_mem_cons.mpr ⟨hlaws, ih hnext hcs⟩

/-- **The first switch that selects nothing changes the iteration.** -/
theorem Synced.selects (hs : Synced h) (hkeeps : ∀ st ∈ h.run cs, st.KeepsOnRaise) :
    ∀ c ∈ cs, c.Selects := by
  induction cs generalizing h with
  | nil => exact fun c hc => absurd hc List.not_mem_nil
  | cons c cs ih =>
    obtain ⟨hfirst, hrest⟩ := List.forall_mem_cons.mp hkeeps
    have hc : c.Selects := by
      rintro value rfl
      by_contra hnot
      obtain ⟨htrain, htest⟩ := not_or.mp hnot
      have hcall : h.call (.switchIteration value) = _ := switchIteration_of_ne htrain htest
      rw [hcall] at hfirst
      have hsame : value = h.iteration := (hfirst _ rfl).1
      obtain ⟨hi, -⟩ | ⟨hi, -⟩ := hs
      · exact htrain (hsame.trans hi)
      · exact htest (hsame.trans hi)
    exact List.forall_mem_cons.mpr ⟨hc, ih (hs.call hc).1 hrest⟩

end Named

/-- **When the current iteration names the data that is fed.** For every three
data sets and every sequence of calls: exactly where the sequence switches to
`TRAIN` and `TEST` alone. -/
theorem namesFed_iff (datasets : (f : Field) → DataSet α β (size f))
    (cs : List (HandlerCall size)) :
    NamesFed datasets cs ↔
      ∀ value, .switchIteration value ∈ cs → value = .train ∨ value = .test := by
  constructor
  · intro hfed value hmem
    exact synced_new.selects hfed.raised _ hmem value rfl
  · intro hcs
    have hnew : Synced (.new datasets) := synced_new
    have hlaws := hnew.run fun c hc value heq => hcs value (heq ▸ hc : .switchIteration value ∈ cs)
    exact ⟨fun st hst => (hlaws st hst).1, fun st hst => (hlaws st hst).2,
      fun f => drawn_eq_calls f cs (.new datasets)⟩

/-- Three data sets of one example each. -/
def oneEach : (f : Field) → DataSet ℕ ℕ 1
  | .train => .new #v[0] #v[0]
  | .validation => .new #v[1] #v[1]
  | .test => .new #v[2] #v[2]

/-- **A switch that raises, and the iteration is another.** -/
theorem switch_validate_stays :
    ¬ ∀ cs : List (HandlerCall fun _ => 1), NamesFed oneEach cs := by
  intro h
  have hstep := (h [.switchIteration .validate]).raised _ (List.mem_singleton_self _)
    (.attributeError "VALIDATION") rfl
  exact absurd hstep.1 (by decide)

end Dataset

end VerAI
