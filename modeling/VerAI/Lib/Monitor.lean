import VerAI.Lib.Transition
import Mathlib.Algebra.BigOperators.Group.Finset.Basic
import Mathlib.Data.Prod.Lex
import Mathlib.Logic.Function.Basic
import Mathlib.Tactic.Abel
/-!
# Monitors with a condition variable

The methods of a monitor run under its one mutex. A method may wait: it gives
the mutex back and sleeps until it is notified or wakes by itself, at a time
limit or for no reason, and then takes the mutex again.

Each method stands for an atomic one, which is not enabled where the method
waits. If the methods do under the mutex what theirs do at once, and wait
having changed nothing, then the calls and returns of any run are those of a
run of the atomic methods. If moreover a method notifies wherever it may enable
another one, then no thread sleeps that could go on, and the threads left to
themselves come to rest.
-/

namespace Transition

namespace Monitors

universe u v w x y

variable {θ : Type u} {κ : Type v} {σ : Type w} {ν : Type x} {ρ : Type y}

/-- An instruction of a thread. -/
inductive Instr (κ : Type v)
  | lock
  | unlock
  | op (k : κ)
  | notifyAll
  /-- Gives the mutex back and sleeps. -/
  | wait
  | asleep
  | ret
  deriving DecidableEq, Repr

/-- What can be seen of the threads. -/
inductive Event (θ : Type u) (ρ : Type y) (ν : Type x)
  | called (t : θ) (r : ρ)
  | returned (t : θ) (v : ν)
  deriving DecidableEq, Repr

/-- The threads, each with the code it has left and the value it is to return,
the holder of the mutex, the data, and what has been seen. -/
structure MonitorState (θ : Type u) (κ : Type v) (σ : Type w) (ν : Type x) (ρ : Type y) where
  code : θ → List (Instr κ)
  value : θ → ν
  holder : Option θ
  data : σ
  history : List (Event θ ρ ν)

/-- What an operation does to the data and the value of its thread, and the
code it goes on with. -/
abbrev Exec (κ : Type v) (σ : Type w) (ν : Type x) := κ → σ → ν → σ × ν × List (Instr κ)

/-- The code of the methods and the values they start from. -/
structure Methods (κ : Type v) (ν : Type x) (ρ : Type y) where
  program : ρ → List (Instr κ)
  start : ρ → ν

/-- A thread that sleeps goes on. -/
def woken : List (Instr κ) → List (Instr κ)
  | .asleep :: rest => rest
  | l => l

variable [DecidableEq θ]

/-- The next instruction of a thread; `none` where it cannot go on. -/
def advance (exec : Exec κ σ ν) (s : MonitorState θ κ σ ν ρ) (t : θ) :
    Option (MonitorState θ κ σ ν ρ) :=
  match s.code t with
  | [] => none
  | .lock :: rest =>
    if s.holder = none then
      some { s with code := Function.update s.code t rest, holder := some t }
    else none
  | .unlock :: rest => some { s with code := Function.update s.code t rest, holder := none }
  | .op k :: rest =>
    let (data, value, more) := exec k s.data (s.value t)
    some { s with
      code := Function.update s.code t (more ++ rest)
      value := Function.update s.value t value
      data := data }
  | .notifyAll :: rest =>
    some { s with code := fun t' => woken (Function.update s.code t rest t') }
  | .wait :: rest =>
    some { s with code := Function.update s.code t (.asleep :: .lock :: rest), holder := none }
  | .asleep :: _ => none
  | .ret :: rest =>
    some { s with
      code := Function.update s.code t rest
      history := s.history ++ [.returned t (s.value t)] }

/-- A thread calls a method, goes on, or wakes by itself. -/
inductive Action (θ : Type u) (ρ : Type y)
  | call (t : θ) (r : ρ)
  | advance (t : θ)
  | wake (t : θ)

/-- **The machine of a monitor.** -/
def machine (exec : Exec κ σ ν) (M : Methods κ ν ρ) (start : σ) :
    System (MonitorState θ κ σ ν ρ) (Action θ ρ) where
  init s := (∀ t, s.code t = []) ∧ s.holder = none ∧ s.data = start ∧ s.history = []
  step s
    | .call t r =>
      if (s.code t).isEmpty then
        some { s with
          code := Function.update s.code t (M.program r)
          value := Function.update s.value t (M.start r)
          history := s.history ++ [.called t r] }
      else none
    | .advance t => advance exec s t
    | .wake t =>
      match s.code t with
      | .asleep :: rest => some { s with code := Function.update s.code t rest }
      | _ => none

/-! ## The atomic methods -/

/-- Where a thread stands with a call. -/
inductive Stage (ρ : Type y) (ν : Type x)
  | idle
  | called (r : ρ)
  | answered (v : ν)

structure AtomicState (θ : Type u) (σ : Type w) (ν : Type x) (ρ : Type y) where
  stage : θ → Stage ρ ν
  data : σ
  history : List (Event θ ρ ν)

inductive AtomicAction (θ : Type u) (ρ : Type y)
  | call (t : θ) (r : ρ)
  | effect (t : θ)
  | ret (t : θ)

/-- **The machine of the atomic methods**: between its call and its return each
takes effect at once, where it is enabled. -/
def atomicMachine (atomic : ρ → σ → Option (σ × ν)) (start : σ) :
    System (AtomicState θ σ ν ρ) (AtomicAction θ ρ) where
  init a := a = ⟨fun _ => .idle, start, []⟩
  step a
    | .call t r =>
      match a.stage t with
      | .idle => some { a with
          stage := Function.update a.stage t (.called r)
          history := a.history ++ [.called t r] }
      | _ => none
    | .effect t =>
      match a.stage t with
      | .called r => (atomic r a.data).map fun (data, v) => { a with
          stage := Function.update a.stage t (.answered v)
          data := data }
      | _ => none
    | .ret t =>
      match a.stage t with
      | .answered v => some { a with
          stage := Function.update a.stage t .idle
          history := a.history ++ [.returned t v] }
      | _ => none

/-! ## Under the mutex -/

variable {exec : Exec κ σ ν}

/-- Code that leaves the monitor, with how often it notifies and the number of
its steps. -/
inductive Leaves (exec : Exec κ σ ν) : List (Instr κ) → σ → ν → ℕ → ℕ → σ → ν → Prop
  | unlock {d : σ} {v : ν} : Leaves exec [.unlock, .ret] d v 0 2 d v
  | notifyAll {l : List (Instr κ)} {d d' : σ} {v v' : ν} {n k : ℕ} :
      Leaves exec l d v n k d' v' → Leaves exec (.notifyAll :: l) d v (n + 1) (k + 1) d' v'
  | op {i : κ} {l : List (Instr κ)} {d d' : σ} {v v' : ν} {n k : ℕ} :
      Leaves exec ((exec i d v).2.2 ++ l) (exec i d v).1 (exec i d v).2.1 n k d' v' →
      Leaves exec (.op i :: l) d v n (k + 1) d' v'

/-- Code that waits, with what it is to do then and the number of its steps. -/
inductive Sleeps (exec : Exec κ σ ν) :
    List (Instr κ) → σ → ν → ℕ → List (Instr κ) → σ → ν → Prop
  | wait {l : List (Instr κ)} {d : σ} {v : ν} : Sleeps exec (.wait :: l) d v 1 l d v
  | op {i : κ} {l l' : List (Instr κ)} {d d' : σ} {v v' : ν} {k : ℕ} :
      Sleeps exec ((exec i d v).2.2 ++ l) (exec i d v).1 (exec i d v).2.1 k l' d' v' →
      Sleeps exec (.op i :: l) d v (k + 1) l' d' v'

/-- **A method does what its atomic one does.** It returns without the mutex, or
under the mutex waits, as if it had not begun, where the atomic one is not
enabled, and otherwise leaves with its effect. If it does not notify, then it
enables nothing. -/
inductive Implements (exec : Exec κ σ ν) (M : Methods κ ν ρ) (atomic : ρ → σ → Option (σ × ν))
    (r : ρ) : Prop
  | direct (hp : M.program r = [.ret]) (ha : ∀ d, atomic r d = some (d, M.start r))
  | guarded (body : List (Instr κ)) (hp : M.program r = .lock :: body)
      (hwait : ∀ d, atomic r d = none →
        ∃ k, Sleeps exec body d (M.start r) k body d (M.start r))
      (hleave : ∀ d d' v, atomic r d = some (d', v) →
        ∃ n k, Leaves exec body d (M.start r) n k d' v ∧
          (n = 0 → ∀ r', atomic r' d = none → atomic r' d' = none))

/-! ## The simulation -/

section Simulation

variable {M : Methods κ ν ρ} {atomic : ρ → σ → Option (σ × ν)} {start : σ}
  {s s' : MonitorState θ κ σ ν ρ} {a : AtomicState θ σ ν ρ} {t : θ} {n k : ℕ}

/-- A thread that does not hold the mutex. -/
inductive Outside (M : Methods κ ν ρ) : List (Instr κ) → ν → Stage ρ ν → Prop
  | idle {v : ν} : Outside M [] v .idle
  | enters {r : ρ} {body : List (Instr κ)} (hp : M.program r = .lock :: body) :
      Outside M (.lock :: body) (M.start r) (.called r)
  | sleeps {r : ρ} {body : List (Instr κ)} (hp : M.program r = .lock :: body) :
      Outside M (.asleep :: .lock :: body) (M.start r) (.called r)
  | answers {v : ν} : Outside M [.ret] v (.answered v)

/-- The thread that does, with what it has left to do before it gives it back. -/
inductive Inside (exec : Exec κ σ ν) (M : Methods κ ν ρ) (atomic : ρ → σ → Option (σ × ν))
    (l : List (Instr κ)) (d : σ) (v : ν) (d' : σ) : ℕ → ℕ → Stage ρ ν → Prop
  | waits {r : ρ} {body : List (Instr κ)} {k : ℕ} (hp : M.program r = .lock :: body)
      (ha : atomic r d' = none) (h : Sleeps exec l d v k body d' (M.start r)) :
      Inside exec M atomic l d v d' 0 k (.called r)
  | leaves {v' : ν} {n k : ℕ} (h : Leaves exec l d v n k d' v') :
      Inside exec M atomic l d v d' n k (.answered v')

/-- **The atomic methods have taken effect as far as the threads have entered.**
The holder is still to notify `n` times and to do `k` steps. -/
structure Simulates (exec : Exec κ σ ν) (M : Methods κ ν ρ) (atomic : ρ → σ → Option (σ × ν))
    (s : MonitorState θ κ σ ν ρ) (a : AtomicState θ σ ν ρ) (n k : ℕ) : Prop where
  history : a.history = s.history
  outside : ∀ t, s.holder ≠ some t → Outside M (s.code t) (s.value t) (a.stage t)
  inside : ∀ t, s.holder = some t →
    Inside exec M atomic (s.code t) s.data (s.value t) a.data n k (a.stage t)
  free : s.holder = none → s.data = a.data ∧ n = 0 ∧ k = 0
  asleep : n = 0 → ∀ t r, (s.code t).head? = some .asleep → a.stage t = .called r →
    atomic r a.data = none

theorem Leaves.head {l : List (Instr κ)} {d d' : σ} {v v' : ν} (h : Leaves exec l d v n k d' v') :
    l.head? ≠ some .lock ∧ l.head? ≠ some .ret ∧ l.head? ≠ some .asleep := by
  cases h <;> simp

theorem Sleeps.head {l l' : List (Instr κ)} {d d' : σ} {v v' : ν}
    (h : Sleeps exec l d v k l' d' v') :
    l.head? ≠ some .lock ∧ l.head? ≠ some .ret ∧ l.head? ≠ some .asleep := by
  cases h <;> simp

/-- Where the holder's next step is one under the mutex. -/
theorem Inside.head {l : List (Instr κ)} {d d' : σ} {v : ν} {st : Stage ρ ν}
    (h : Inside exec M atomic l d v d' n k st) :
    l.head? ≠ some .lock ∧ l.head? ≠ some .ret ∧ l.head? ≠ some .asleep := by
  cases h with
  | waits _ _ h => exact h.head
  | leaves h => exact h.head

theorem Inside.ne_nil {l : List (Instr κ)} {d d' : σ} {v : ν} {st : Stage ρ ν}
    (h : Inside exec M atomic l d v d' n k st) : l ≠ [] := by
  rintro rfl
  cases h with
  | waits _ _ h => cases h
  | leaves h => cases h

omit [DecidableEq θ] in
/-- Nothing has been done at the start. -/
theorem simulates_init (h : (∀ t, s.code t = []) ∧ s.holder = none ∧ s.data = start ∧
    s.history = []) : Simulates exec M atomic s ⟨fun _ => .idle, start, []⟩ 0 0 where
  history := h.2.2.2.symm
  outside t _ := by
    rw [h.1 t]
    exact .idle
  inside t ht := by
    rw [h.2.1] at ht
    cases ht
  free _ := ⟨h.2.2.1, rfl, rfl⟩
  asleep _ t r ht := by
    rw [h.1 t] at ht
    cases ht

omit [DecidableEq θ] in
/-- A thread without code is not the holder and has no call open. -/
theorem Simulates.stage_of_nil (h : Simulates exec M atomic s a n k) (hcode : s.code t = []) :
    s.holder ≠ some t ∧ a.stage t = .idle := by
  have hne : s.holder ≠ some t := fun ht => (h.inside t ht).ne_nil hcode
  refine ⟨hne, ?_⟩
  have hout := hcode ▸ h.outside t hne
  generalize a.stage t = st at hout
  cases hout
  rfl

omit [DecidableEq θ] in
/-- A step of one thread. The others stand where they stood, and if one of them
is the holder then the data is what it was. -/
theorem Simulates.of_thread {a' : AtomicState θ σ ν ρ} {n' k' : ℕ} (t : θ)
    (h : Simulates exec M atomic s a n k) (hhistory : a'.history = s'.history)
    (hothers : ∀ t', t' ≠ t → s'.code t' = s.code t' ∧ s'.value t' = s.value t' ∧
      a'.stage t' = a.stage t' ∧ (s'.holder = some t' ↔ s.holder = some t'))
    (hkeep : (s'.data = s.data ∧ a'.data = a.data ∧ n' = n ∧ k' = k) ∨
      ∀ t', t' ≠ t → s.holder ≠ some t')
    (hout : s'.holder ≠ some t → Outside M (s'.code t) (s'.value t) (a'.stage t))
    (hin : s'.holder = some t →
      Inside exec M atomic (s'.code t) s'.data (s'.value t) a'.data n' k' (a'.stage t))
    (hfree : s'.holder = none → s'.data = a'.data ∧ n' = 0 ∧ k' = 0)
    (hasleep : n' = 0 → ∀ t' r, (t' = t ∨ (s.code t').head? = some .asleep ∧
      a.stage t' = .called r) → (s'.code t').head? = some .asleep → a'.stage t' = .called r →
        atomic r a'.data = none) :
    Simulates exec M atomic s' a' n' k' where
  history := hhistory
  outside t' ht' := by
    by_cases htt : t' = t
    · subst htt
      exact hout ht'
    · obtain ⟨hcode, hvalue, hstage, hholder⟩ := hothers t' htt
      rw [hcode, hvalue, hstage]
      exact h.outside t' (mt hholder.mpr ht')
  inside t' ht' := by
    by_cases htt : t' = t
    · subst htt
      exact hin ht'
    · obtain ⟨hcode, hvalue, hstage, hholder⟩ := hothers t' htt
      have hold := hholder.mp ht'
      obtain ⟨hdata, hdata', rfl, rfl⟩ := hkeep.resolve_right fun hnone => hnone t' htt hold
      rw [hcode, hvalue, hstage, hdata, hdata']
      exact h.inside t' hold
  free := hfree
  asleep hn t' r hcode' hst := by
    by_cases htt : t' = t
    · exact hasleep hn t' r (.inl htt) hcode' hst
    · obtain ⟨hcode, -, hstage, -⟩ := hothers t' htt
      exact hasleep hn t' r (.inr ⟨hcode ▸ hcode', hstage ▸ hst⟩) hcode' hst

/-- A call is seen, and one that needs no mutex takes effect. -/
theorem Simulates.call (start : σ) (hM : ∀ r, Implements exec M atomic r)
    (h : Simulates exec M atomic s a n k) (hcode : s.code t = []) (r : ρ) :
    ∃ a', (atomicMachine atomic start).Leads a a' ∧
      Simulates exec M atomic { s with
        code := Function.update s.code t (M.program r)
        value := Function.update s.value t (M.start r)
        history := s.history ++ [.called t r] } a' n k := by
  obtain ⟨hne, hidle⟩ := h.stage_of_nil hcode
  have hcall : (atomicMachine (θ := θ) atomic start).step a (.call t r) = some { a with
      stage := Function.update a.stage t (.called r)
      history := a.history ++ [.called t r] } := by
    simp [atomicMachine, hidle]
  have hsim : ∀ st, Outside M (M.program r) (M.start r) st →
      ((M.program r).head? ≠ some .asleep) →
      Simulates exec M atomic { s with
        code := Function.update s.code t (M.program r)
        value := Function.update s.value t (M.start r)
        history := s.history ++ [.called t r] }
        { a with stage := Function.update a.stage t st, history := a.history ++ [.called t r] }
        n k := fun st hout hawake => by
    refine h.of_thread t (by rw [h.history]) (fun t' ht' => ?_) (.inl ⟨rfl, rfl, rfl, rfl⟩)
      (fun _ => by simpa using hout) (fun ht => absurd ht hne) h.free
      fun hn t' r' hold hcode' hst => ?_
    · simp [Function.update_of_ne ht']
    · obtain rfl | ⟨hcode, hst⟩ := hold
      · exact absurd (by simpa using hcode') hawake
      · exact h.asleep hn t' r' hcode hst
  cases hM r with
  | direct hp ha =>
    refine ⟨_, .trans (.single hcall) (.single (a := .effect t) ?_),
      hsim (.answered (M.start r)) (hp ▸ .answers) (by simp [hp])⟩
    simp [atomicMachine, ha]
  | guarded body hp _ _ =>
    exact ⟨_, .single hcall, hsim (.called r) (hp ▸ .enters hp) (by simp [hp])⟩

/-! ### What is left to do -/

def Stage.pending : Stage ρ ν → ℕ
  | .called _ => 1
  | _ => 0

/-- Whether a thread is about to take the mutex. -/
def entering : List (Instr κ) → ℕ
  | .lock :: _ => 1
  | _ => 0

/-- Whether it is about to return. -/
def returning : List (Instr κ) → ℕ
  | .ret :: _ => 1
  | _ => 0

theorem entering_eq_zero {l : List (Instr κ)} (h : l.head? ≠ some .lock) : entering l = 0 := by
  unfold entering
  split
  · exact absurd rfl h
  · rfl

theorem returning_eq_zero {l : List (Instr κ)} (h : l.head? ≠ some .ret) : returning l = 0 := by
  unfold returning
  split
  · exact absurd rfl h
  · rfl

/-- What the threads of a set have left to do: the calls without effect, then
what the holder still notifies, then the threads about to enter. -/
def left (T : Finset θ) (s : MonitorState θ κ σ ν ρ) (a : AtomicState θ σ ν ρ) (n k : ℕ) :
    ℕ ×ₗ ℕ ×ₗ ℕ ×ₗ ℕ :=
  toLex (∑ t ∈ T, (a.stage t).pending, toLex (n, toLex (∑ t ∈ T, entering (s.code t),
    k + ∑ t ∈ T, returning (s.code t))))

/-- A sum after one of its terms has changed. -/
theorem sum_update {β N : Type*} [AddCommMonoid N] {T : Finset θ} (ht : t ∈ T) (f : β → N)
    {g : θ → β} {x : β} {p q : N} (hold : f (g t) = p) (hnew : f x = q) :
    ∑ i ∈ T, f (Function.update g t x i) + p = ∑ i ∈ T, f (g i) + q := by
  have hsame : ∑ i ∈ T.erase t, f (Function.update g t x i) = ∑ i ∈ T.erase t, f (g i) :=
    Finset.sum_congr rfl fun i hi => by rw [Function.update_of_ne (Finset.ne_of_mem_erase hi)]
  rw [← Finset.add_sum_erase T _ ht, ← Finset.add_sum_erase T (fun i => f (g i)) ht, hsame,
    Function.update_self, hold, hnew]
  abel

/-- One thread has gone on. -/
def Next (exec : Exec κ σ ν) (s' s : MonitorState θ κ σ ν ρ) : Prop :=
  ∃ t, advance exec s t = some s'

/-- No thread can go on by itself. -/
def Stuck (exec : Exec κ σ ν) (s : MonitorState θ κ σ ν ρ) : Prop := ∀ t, advance exec s t = none

/-- What a step of a thread comes to. -/
structure Advanced (exec : Exec κ σ ν) (M : Methods κ ν ρ) (atomic : ρ → σ → Option (σ × ν))
    (start : σ) (s s' : MonitorState θ κ σ ν ρ) (a : AtomicState θ σ ν ρ) (n k : ℕ) (t : θ)
    (a' : AtomicState θ σ ν ρ) (n' k' : ℕ) : Prop where
  leads : (atomicMachine atomic start).Leads a a'
  simulates : Simulates exec M atomic s' a' n' k'
  less : ∀ T : Finset θ, t ∈ T → left T s' a' n' k' < left T s a n k

omit [DecidableEq θ] in
/-- The mutex has one holder. -/
theorem holder_ne {t' : θ} (ht : s.holder = some t) (hne : t' ≠ t) : s.holder ≠ some t' :=
  fun heq => hne (Option.some.inj (heq.symm.trans ht))

/-- A step under the mutex that is not the last. -/
theorem Simulates.op (h : Simulates exec M atomic s a n k) (ht : s.holder = some t) {d : σ} {v : ν}
    {l : List (Instr κ)} {k' : ℕ} (hk : k' < k)
    (hin' : Inside exec M atomic l d v a.data n k' (a.stage t)) :
    Advanced exec M atomic start s { s with
      code := Function.update s.code t l, value := Function.update s.value t v, data := d }
      a n k t a n k' where
  leads := .refl a
  simulates := by
    have hothers : ∀ t', t' ≠ t → s.holder ≠ some t' := fun _ => holder_ne ht
    refine h.of_thread t h.history (fun t' hne => by simp [Function.update_of_ne hne])
      (.inr hothers) (fun hne => absurd ht hne) (fun _ => by simpa using hin') (fun hnone => ?_)
      fun hn t' r hold hcode' hst => ?_
    · rw [ht] at hnone
      cases hnone
    · obtain rfl | ⟨hcode, hst⟩ := hold
      · exact absurd (by simpa using hcode') hin'.head.2.2
      · exact h.asleep hn t' r hcode hst
  less T hT := by
    have hin := h.inside t ht
    have hentering := sum_update hT entering (entering_eq_zero hin.head.1)
      (entering_eq_zero hin'.head.1)
    have hreturning := sum_update hT returning (returning_eq_zero hin.head.2.1)
      (returning_eq_zero hin'.head.2.1)
    simp only [left, Prod.Lex.toLex_lt_toLex, true_and]
    omega

/-- The mutex is taken. The atomic method takes effect, unless it is to wait. -/
theorem Simulates.lock (hM : ∀ r, Implements exec M atomic r) (h : Simulates exec M atomic s a n k)
    (hfree : s.holder = none) {r : ρ} {body : List (Instr κ)} (hp : M.program r = .lock :: body)
    (hcode : s.code t = .lock :: body) (hvalue : s.value t = M.start r)
    (hst : a.stage t = .called r) :
    ∃ a' n' k', Advanced exec M atomic start s { s with
      code := Function.update s.code t body, holder := some t } a n k t a' n' k' := by
  obtain ⟨hdata, rfl, rfl⟩ := h.free hfree
  -- a method that takes the mutex is not one that returns at once
  obtain ⟨_, hp', hwait, hleave⟩ : ∃ body', M.program r = .lock :: body' ∧
      (∀ d, atomic r d = none → ∃ k, Sleeps exec body' d (M.start r) k body' d (M.start r)) ∧
      ∀ d d' v, atomic r d = some (d', v) → ∃ n k, Leaves exec body' d (M.start r) n k d' v ∧
        (n = 0 → ∀ r', atomic r' d = none → atomic r' d' = none) := by
    cases hM r with
    | direct hp' _ =>
      rw [hp] at hp'
      cases hp'
    | guarded body' hp' hwait hleave => exact ⟨body', hp', hwait, hleave⟩
  obtain rfl := (List.cons.inj (hp.symm.trans hp')).2
  have hothers : ∀ t', t' ≠ t → s.holder ≠ some t' := fun t' _ heq => by
    rw [hfree] at heq
    cases heq
  have hholder : ∀ t', t' ≠ t → (some t = some t' ↔ s.holder = some t') := fun t' hne =>
    ⟨fun heq => absurd (Option.some.inj heq).symm hne, fun heq => absurd heq (hothers t' hne)⟩
  cases ha : atomic r a.data with
  | none =>
    obtain ⟨k, hk⟩ := hwait a.data ha
    have hin : Inside exec M atomic body s.data (s.value t) a.data 0 k (a.stage t) := by
      rw [hdata, hvalue, hst]
      exact .waits hp ha hk
    refine ⟨a, 0, k, .refl a, ?_, fun T hT => ?_⟩
    · refine h.of_thread t h.history (fun t' hne => ?_) (.inr hothers) (fun hne => absurd rfl hne)
        (fun _ => by simpa using hin) nofun fun hn t' r' hold hcode' hst' => ?_
      · simp [Function.update_of_ne hne, hholder t' hne]
      · obtain rfl | ⟨hcode, hst⟩ := hold
        · exact absurd (by simpa using hcode') hin.head.2.2
        · exact h.asleep rfl t' r' hcode hst
    · have hentering := sum_update hT entering (p := 1) (congrArg entering hcode)
        (entering_eq_zero hin.head.1)
      simp only [left, Prod.Lex.toLex_lt_toLex, true_and]
      omega
  | some p =>
    obtain ⟨d', v'⟩ := p
    obtain ⟨n, k, hk, hquiet⟩ := hleave a.data d' v' ha
    have hin : Inside exec M atomic body s.data (s.value t) d' n k (.answered v' : Stage ρ ν) := by
      rw [hdata, hvalue]
      exact .leaves hk
    refine ⟨{ a with stage := Function.update a.stage t (.answered v'), data := d' }, n, k,
      .single (a := .effect t) ?_, ?_, fun T hT => ?_⟩
    · simp [atomicMachine, hst, ha]
    · refine h.of_thread t h.history (fun t' hne => ?_) (.inr hothers) (fun hne => absurd rfl hne)
        (fun _ => by simpa using hin) nofun fun hn t' r' hold hcode' hst' => ?_
      · simp [Function.update_of_ne hne, hholder t' hne]
      · obtain rfl | ⟨hcode, hst⟩ := hold
        · exact absurd (by simpa using hcode') hin.head.2.2
        · exact hquiet hn r' (h.asleep rfl t' r' hcode hst)
    -- the effect makes up for all that the method has still to do
    · have hpending := sum_update hT Stage.pending (p := 1) (q := 0) (congrArg _ hst)
        (show (Stage.answered v' : Stage ρ ν).pending = 0 from rfl)
      simp only [left, Prod.Lex.toLex_lt_toLex]
      omega

/-- The mutex is given back after the effect. -/
theorem Simulates.unlock (h : Simulates exec M atomic s a 0 2) (ht : s.holder = some t)
    (hcode : s.code t = [.unlock, .ret]) (hdata : s.data = a.data)
    (hst : a.stage t = .answered (s.value t)) :
    Advanced exec M atomic start s { s with
      code := Function.update s.code t [.ret], holder := none } a 0 2 t a 0 0 where
  leads := .refl a
  simulates := by
    have hothers : ∀ t', t' ≠ t → s.holder ≠ some t' := fun _ => holder_ne ht
    refine h.of_thread t h.history (fun t' hne => ?_) (.inr hothers) (fun _ => ?_) nofun
      (fun _ => ⟨hdata, rfl, rfl⟩) fun hn t' r hold hcode' hst' => ?_
    · simpa [Function.update_of_ne hne] using hothers t' hne
    · simpa [hst] using Outside.answers
    · obtain rfl | ⟨hcode, hst⟩ := hold
      · rw [hst] at hst'
        cases hst'
      · exact h.asleep hn t' r hcode hst
  less T hT := by
    have hentering := sum_update hT entering (p := 0) (q := 0) (x := [.ret]) (congrArg _ hcode)
      rfl
    have hreturning := sum_update hT returning (p := 0) (q := 1) (x := [.ret]) (congrArg _ hcode)
      rfl
    simp only [left, Prod.Lex.toLex_lt_toLex, true_and]
    omega

/-- The holder sleeps. -/
theorem Simulates.wait (h : Simulates exec M atomic s a 0 1) (ht : s.holder = some t) {r : ρ}
    {body : List (Instr κ)} (hp : M.program r = .lock :: body) (hcode : s.code t = .wait :: body)
    (hdata : s.data = a.data) (hvalue : s.value t = M.start r) (hst : a.stage t = .called r)
    (ha : atomic r a.data = none) :
    Advanced exec M atomic start s { s with
      code := Function.update s.code t (.asleep :: .lock :: body), holder := none }
      a 0 1 t a 0 0 where
  leads := .refl a
  simulates := by
    have hothers : ∀ t', t' ≠ t → s.holder ≠ some t' := fun _ => holder_ne ht
    refine h.of_thread t h.history (fun t' hne => ?_) (.inr hothers) (fun _ => ?_) nofun
      (fun _ => ⟨hdata, rfl, rfl⟩) fun hn t' r' hold hcode' hst' => ?_
    · simpa [Function.update_of_ne hne] using hothers t' hne
    · simpa [hst, hvalue] using Outside.sleeps hp
    · obtain rfl | ⟨hcode, hst⟩ := hold
      · obtain rfl := Stage.called.inj (hst.symm.trans hst')
        exact ha
      · exact h.asleep hn t' r' hcode hst
  less T hT := by
    have hentering := sum_update hT entering (p := 0) (q := 0) (x := .asleep :: .lock :: body)
      (congrArg _ hcode) rfl
    have hreturning := sum_update hT returning (p := 0) (q := 0) (x := .asleep :: .lock :: body)
      (congrArg _ hcode) rfl
    simp only [left, Prod.Lex.toLex_lt_toLex, true_and]
    omega

theorem Outside.woken {l : List (Instr κ)} {v : ν} {st : Stage ρ ν} (h : Outside M l v st) :
    Outside M (Monitors.woken l) v st ∧ (Monitors.woken l).head? ≠ some .asleep := by
  cases h with
  | idle => exact ⟨.idle, nofun⟩
  | enters hp => exact ⟨.enters hp, nofun⟩
  | sleeps hp => exact ⟨.enters hp, nofun⟩
  | answers => exact ⟨.answers, nofun⟩

theorem woken_eq_self {l : List (Instr κ)} (h : l.head? ≠ some .asleep) : woken l = l := by
  unfold woken
  split
  · exact absurd rfl h
  · rfl

/-- The holder wakes all who sleep. -/
theorem Simulates.notifyAll (h : Simulates exec M atomic s a (n + 1) (k + 1))
    (ht : s.holder = some t) {l : List (Instr κ)} {v : ν}
    (hleaves : Leaves exec l s.data (s.value t) n k a.data v) (hst : a.stage t = .answered v) :
    Advanced exec M atomic start s { s with
      code := fun t' => woken (Function.update s.code t l t') } a (n + 1) (k + 1) t a n k where
  leads := .refl a
  simulates := by
    have hself : woken (Function.update s.code t l t) = l := by
      rw [Function.update_self, woken_eq_self hleaves.head.2.2]
    have hother : ∀ t', t' ≠ t → Outside M (woken (Function.update s.code t l t')) (s.value t')
        (a.stage t') ∧ (woken (Function.update s.code t l t')).head? ≠ some .asleep :=
      fun t' hne => by
        rw [Function.update_of_ne hne]
        exact (h.outside t' (holder_ne ht hne)).woken
    -- nobody is asleep any more, so nothing is asked of the calls that were
    refine ⟨h.history, fun t' ht' => (hother t' ?_).1, fun t' ht' => ?_, fun hnone => ?_,
      fun _ t' r hcode hst' => ?_⟩
    · rintro rfl
      exact ht' ht
    · obtain rfl := Option.some.inj (ht'.symm.trans ht)
      simp only [hself, hst]
      exact .leaves hleaves
    · rw [ht] at hnone
      cases hnone
    · by_cases hne : t' = t
      · subst hne
        rw [hst] at hst'
        cases hst'
      · exact absurd hcode (hother t' hne).2
  less T _ := by
    simp only [left, Prod.Lex.toLex_lt_toLex, true_and]
    omega

/-- A return is seen. -/
theorem Simulates.ret (h : Simulates exec M atomic s a n k) (ht : s.holder ≠ some t)
    (hcode : s.code t = [.ret]) (hst : a.stage t = .answered (s.value t)) :
    Advanced exec M atomic start s { s with
      code := Function.update s.code t []
      history := s.history ++ [.returned t (s.value t)] } a n k t
      { a with
        stage := Function.update a.stage t .idle
        history := a.history ++ [.returned t (s.value t)] } n k where
  leads := .single (a := .ret t) (by simp [atomicMachine, hst])
  simulates := by
    refine h.of_thread t (by rw [h.history]) (fun t' hne => ?_) (.inl ⟨rfl, rfl, rfl, rfl⟩)
      (fun _ => ?_) (fun hin => absurd hin ht) h.free fun hn t' r hold hcode' hst' => ?_
    · simp [Function.update_of_ne hne]
    · simpa using Outside.idle
    · obtain rfl | ⟨hcode, hst⟩ := hold
      · simp at hcode'
      · exact h.asleep hn t' r hcode hst
  less T hT := by
    have hpending := sum_update hT Stage.pending (p := 0) (q := 0) (congrArg _ hst)
      (show (Stage.idle : Stage ρ ν).pending = 0 from rfl)
    have hentering := sum_update hT entering (p := 0) (q := 0) (x := []) (congrArg _ hcode) rfl
    have hreturning := sum_update hT returning (p := 1) (q := 0) (x := []) (congrArg _ hcode) rfl
    simp only [left, Prod.Lex.toLex_lt_toLex, true_and]
    omega

/-- A thread wakes by itself. -/
theorem Simulates.wake (h : Simulates exec M atomic s a n k) {l : List (Instr κ)}
    (hcode : s.code t = .asleep :: l) :
    Simulates exec M atomic { s with code := Function.update s.code t l } a n k := by
  have hne : s.holder ≠ some t := fun ht => (h.inside t ht).head.2.2 (by simp [hcode])
  have hout := h.outside t hne
  rw [hcode] at hout
  have hwoken : Outside M l (s.value t) (a.stage t) ∧ l.head? ≠ some .asleep := hout.woken
  refine h.of_thread t h.history (fun t' hne' => ?_) (.inl ⟨rfl, rfl, rfl, rfl⟩) (fun _ => ?_)
    (fun hin => absurd hin hne) h.free fun hn t' r hold hcode' hst' => ?_
  · simp [Function.update_of_ne hne']
  · simpa using hwoken.1
  · obtain rfl | ⟨hcode, hst⟩ := hold
    · exact absurd (by simpa using hcode') hwoken.2
    · exact h.asleep hn t' r hcode hst

/-- **Every step of a thread** is one of the atomic methods, or none, and leaves
less to do. -/
theorem Simulates.advance (start : σ) (hM : ∀ r, Implements exec M atomic r)
    (h : Simulates exec M atomic s a n k) (hs : advance exec s t = some s') :
    ∃ a' n' k', Advanced exec M atomic start s s' a n k t a' n' k' := by
  unfold Monitors.advance at hs
  by_cases ht : s.holder = some t
  -- the holder is in a derivation, whose head is the statement it stands at
  · have hin := h.inside t ht
    generalize hcode : s.code t = l at hin hs
    generalize hst : a.stage t = st at hin
    generalize hv : s.value t = v at hin hs
    generalize hd : s.data = d at hin hs
    generalize hd' : a.data = d' at hin
    cases hin with
    | waits hp ha hsleeps =>
      cases hsleeps with
      | wait =>
        subst hd
        obtain rfl := Option.some.inj hs
        exact ⟨a, 0, 0, h.wait ht hp hcode hd'.symm hv hst (hd' ▸ ha)⟩
      | op hsleeps =>
        obtain rfl := Option.some.inj hs
        exact ⟨a, 0, _, h.op ht (Nat.lt_succ_self _) (hst ▸ hd' ▸ .waits hp ha hsleeps)⟩
    | leaves hleaves =>
      cases hleaves with
      | unlock =>
        subst hd
        obtain rfl := Option.some.inj hs
        exact ⟨a, 0, 0, h.unlock ht hcode hd'.symm (hst.trans (congrArg _ hv.symm))⟩
      | notifyAll hleaves =>
        subst hd
        obtain rfl := Option.some.inj hs
        exact ⟨a, _, _, h.notifyAll ht (hv ▸ hd' ▸ hleaves) hst⟩
      | op hleaves =>
        obtain rfl := Option.some.inj hs
        exact ⟨a, _, _, h.op ht (Nat.lt_succ_self _) (hst ▸ hd' ▸ .leaves hleaves)⟩
  · have hout := h.outside t ht
    generalize hcode : s.code t = l at hout hs
    generalize hst : a.stage t = st at hout
    generalize hv : s.value t = v at hout hs
    cases hout with
    | idle => cases hs
    | enters hp =>
      obtain ⟨hfree, hs⟩ := Option.ite_none_right_eq_some.mp hs
      obtain rfl := Option.some.inj hs
      exact h.lock hM hfree hp hcode hv hst
    | sleeps _ => cases hs
    | answers =>
      obtain rfl := Option.some.inj hs
      subst hv
      exact ⟨_, n, k, h.ret ht hcode hst⟩

/-- **The runs of the monitor are runs of the atomic methods.** -/
theorem exists_simulates (hM : ∀ r, Implements exec M atomic r)
    (h : (machine exec M start).Reachable s) :
    ∃ a n k, (atomicMachine atomic start).Reachable a ∧ Simulates exec M atomic s a n k := by
  refine System.ReachableUnder.invariant (I := fun s => ∃ a n k,
    (atomicMachine atomic start).Reachable a ∧ Simulates exec M atomic s a n k) h
      (fun s h0 => ⟨_, 0, 0, .init rfl, simulates_init h0⟩) ?_
  rintro s act s' ⟨a, n, k, ha, h⟩ - hs
  cases act with
  | call t r =>
    obtain ⟨hcode, hs⟩ := Option.ite_none_right_eq_some.mp hs
    obtain rfl := Option.some.inj hs
    obtain ⟨a', hleads, h'⟩ := h.call start hM (List.isEmpty_iff.mp hcode) r
    exact ⟨a', n, k, ha.leads hleads, h'⟩
  | advance t =>
    obtain ⟨a', n', k', h'⟩ := h.advance start hM hs
    exact ⟨a', n', k', ha.leads h'.leads, h'.simulates⟩
  | wake t =>
    simp only [machine] at hs
    split at hs
    · rename_i l hcode
      obtain rfl := Option.some.inj hs
      exact ⟨a, n, k, ha, h.wake hcode⟩
    · cases hs

/-! ## Rest -/

/-- The holder can go on. -/
theorem Inside.advance_ne_none {d : σ}
    (h : Inside exec M atomic (s.code t) s.data (s.value t) d n k (a.stage t)) :
    advance exec s t ≠ none := by
  have hhead := h.head
  have hnil := h.ne_nil
  unfold Monitors.advance
  generalize s.code t = l at hhead hnil
  match l with
  | .unlock :: _ => exact Option.some_ne_none _
  | .op _ :: _ => exact Option.some_ne_none _
  | .notifyAll :: _ => exact Option.some_ne_none _
  | .wait :: _ => exact Option.some_ne_none _
  | [] => exact absurd rfl hnil
  | .lock :: _ => exact absurd rfl hhead.1
  | .ret :: _ => exact absurd rfl hhead.2.1
  | .asleep :: _ => exact absurd rfl hhead.2.2

/-- **No wake-up is lost.** Where no thread can go on, those that have not
returned sleep, and their calls are not enabled. -/
theorem Simulates.of_stuck (h : Simulates exec M atomic s a n k) (hstuck : Stuck exec s) :
    s.code t = [] ∨
      (s.code t).head? = some .asleep ∧ ∃ r, a.stage t = .called r ∧ atomic r s.data = none := by
  -- a holder could go on
  have hfree : s.holder = none := by
    by_contra hheld
    obtain ⟨t', ht'⟩ := Option.ne_none_iff_exists'.mp hheld
    exact (h.inside t' ht').advance_ne_none (hstuck t')
  obtain ⟨hdata, hn, -⟩ := h.free hfree
  have hnone := hstuck t
  have hout := h.outside t (by simp [hfree])
  have hasleep := h.asleep hn t
  unfold Monitors.advance at hnone
  generalize s.code t = l at hout hnone hasleep
  generalize a.stage t = st at hout hasleep
  generalize s.value t = v at hout hnone
  cases hout with
  | idle => exact .inl rfl
  | enters _ => simp [hfree] at hnone
  | @sleeps r _ hp => exact .inr ⟨rfl, r, rfl, hdata ▸ hasleep r rfl rfl⟩
  | answers => cases hnone

/-- The threads of a finite set are the only ones with code. -/
def Busy (T : Finset θ) (s : MonitorState θ κ σ ν ρ) : Prop := ∀ t, t ∉ T → s.code t = []

/-- A step of one thread gives no code to another. -/
theorem Busy.advance {T : Finset θ} (hT : Busy T s) (ht : t ∈ T) (hs : advance exec s t = some s') :
    Busy T s' := by
  intro t' ht'
  have hne : t' ≠ t := (ne_of_mem_of_not_mem ht ht').symm
  have hnil := hT t' ht'
  unfold Monitors.advance at hs
  split at hs
  case h_1 | h_7 => cases hs
  case h_2 =>
    obtain ⟨-, hs⟩ := Option.ite_none_right_eq_some.mp hs
    obtain rfl := Option.some.inj hs
    simpa [Function.update_of_ne hne] using hnil
  case h_5 =>
    obtain rfl := Option.some.inj hs
    simp [Function.update_of_ne hne, hnil, woken]
  all_goals
    obtain rfl := Option.some.inj hs
    simpa [Function.update_of_ne hne] using hnil

/-- **The threads come to rest**, if none calls and none wakes by itself. -/
theorem Simulates.acc (hM : ∀ r, Implements exec M atomic r) {T : Finset θ}
    (h : Simulates exec M atomic s a n k) (hT : Busy T s) : Acc (Next exec) s := by
  generalize hw : left T s a n k = w
  -- induction on what is left, in the order of its four parts
  induction w using WellFoundedLT.induction generalizing s a n k with
  | ind w ih =>
    refine .intro s ?_
    rintro s' ⟨t, hs⟩
    have ht : t ∈ T := by
      by_contra hnot
      simp [Monitors.advance, hT t hnot] at hs
    obtain ⟨a', n', k', h'⟩ := h.advance s.data hM hs
    exact ih _ (hw ▸ h'.less T ht) h'.simulates (hT.advance ht hs) rfl

theorem exists_busy (h : (machine exec M start).Reachable s) : ∃ T, Busy T s := by
  refine System.ReachableUnder.invariant (I := fun s => ∃ T, Busy T s) h
    (fun s h0 => ⟨∅, fun t _ => h0.1 t⟩) ?_
  rintro s act s' ⟨T, hT⟩ - hs
  have hmore : ∀ t, Busy (insert t T) s := fun t t' ht' => hT t' fun h =>
    ht' (Finset.mem_insert_of_mem h)
  have hset : ∀ t (s' : MonitorState θ κ σ ν ρ) l, s'.code = Function.update s.code t l →
      Busy (insert t T) s' := fun t s' l hcode t' ht' => by
    rw [hcode, Function.update_of_ne (ne_of_mem_of_not_mem (Finset.mem_insert_self t T) ht').symm]
    exact hmore t t' ht'
  cases act with
  | call t r =>
    obtain ⟨-, hs⟩ := Option.ite_none_right_eq_some.mp hs
    obtain rfl := Option.some.inj hs
    exact ⟨_, hset t _ _ rfl⟩
  | advance t => exact ⟨_, (hmore t).advance (Finset.mem_insert_self t T) hs⟩
  | wake t =>
    simp only [machine] at hs
    split at hs
    · obtain rfl := Option.some.inj hs
      exact ⟨_, hset t _ _ rfl⟩
    · cases hs

theorem acc_of_reachable (hM : ∀ r, Implements exec M atomic r)
    (h : (machine exec M start).Reachable s) : Acc (Next exec) s := by
  obtain ⟨a, n, k, -, hsim⟩ := exists_simulates hM h
  obtain ⟨T, hT⟩ := exists_busy h
  exact hsim.acc hM hT

end Simulation

end Monitors

end Transition
