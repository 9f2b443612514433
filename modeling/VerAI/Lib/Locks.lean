import VerAI.Lib.Transition
import VerAI.Lib.RecursiveMutex
import Mathlib.Logic.Function.Basic
import Mathlib.Order.WellFounded
/-!
# Threads that nest locks

The code of a thread is a list of instructions: it locks a mutex, unlocks one,
or runs an operation on the shared data, which may put more code in front of
the rest. The mutexes are recursive.

A discipline says of each operation which locks may be held where it runs, and
which must be; of each pair of mutexes it says whether the second may be
waited for under the first. Code that keeps the discipline at every point of
its text keeps it in every run. Then two operations under one guard are never
both about to run, and where no thread can go on, each mutex waited for is
held by a thread that waits for one the discipline lets follow it. So an order
without cycles leaves no thread waiting for ever.
-/

namespace Transition

namespace Locks

universe u v w x y

variable {θ : Type u} {μ : Type v} {κ : Type w} {σ : Type x} {ρ : Type y}

/-- An instruction of a thread. -/
inductive Instr (μ : Type v) (κ : Type w)
  | lock (m : μ)
  | unlock (m : μ)
  | op (k : κ)
  deriving DecidableEq, Repr

/-- A block under a lock guard. -/
def guarded (m : μ) (body : List (Instr μ κ)) : List (Instr μ κ) :=
  .lock m :: (body ++ [.unlock m])

/-- The threads, each with the code it has left, the mutexes and the data. -/
structure LockState (θ : Type u) (μ : Type v) (κ : Type w) (σ : Type x) where
  code : θ → List (Instr μ κ)
  mutexes : μ → RecursiveMutex θ
  data : σ

/-- What an operation does to the data, and the code it goes on with. -/
abbrev Exec (μ : Type v) (κ : Type w) (σ : Type x) := κ → σ → σ × List (Instr μ κ)

variable [DecidableEq θ] [DecidableEq μ]

/-- The next instruction of a thread; `none` where it waits or has none. -/
def advance (exec : Exec μ κ σ) (s : LockState θ μ κ σ) (t : θ) : Option (LockState θ μ κ σ) :=
  match s.code t with
  | [] => none
  | .lock m :: rest => ((s.mutexes m).lock t).map fun m' => { s with
      code := Function.update s.code t rest
      mutexes := Function.update s.mutexes m m' }
  | .unlock m :: rest => ((s.mutexes m).unlock t).map fun m' => { s with
      code := Function.update s.code t rest
      mutexes := Function.update s.mutexes m m' }
  | .op k :: rest =>
    some { s with
      code := Function.update s.code t ((exec k s.data).2 ++ rest)
      data := (exec k s.data).1 }

/-- A thread without code begins a program, or a thread goes on. -/
inductive Action (θ : Type u) (ρ : Type y)
  | begin (t : θ) (r : ρ)
  | advance (t : θ)

/-- What is begun is one of these programs. -/
def Action.Begins (P : ρ → Prop) : Action θ ρ → Prop
  | .begin _ r => P r
  | .advance _ => True

/-- **The machine of threads** that run programs. -/
def machine (exec : Exec μ κ σ) (program : ρ → List (Instr μ κ)) (start : σ) :
    System (LockState θ μ κ σ) (Action θ ρ) where
  init s := s = ⟨fun _ => [], fun _ => .free, start⟩
  step s
    | .begin t r =>
      if (s.code t).isEmpty then some { s with code := Function.update s.code t (program r) }
      else none
    | .advance t => advance exec s t

/-- How often a thread has locked a mutex. -/
def depth (t : θ) (m : RecursiveMutex θ) : ℕ :=
  match m.holder with
  | none => 0
  | some (owner, extra) => if owner = t then extra + 1 else 0

/-- A thread waits for a mutex another one holds. -/
def Awaits (s : LockState θ μ κ σ) (t : θ) (m : μ) : Prop :=
  ∃ rest, s.code t = .lock m :: rest ∧ (s.mutexes m).BlockedFor t

/-- No thread can go on. -/
def Stuck (exec : Exec μ κ σ) (s : LockState θ μ κ σ) : Prop := ∀ t, advance exec s t = none

/-! ## The discipline -/

/-- What is asked of code: `needs` are the mutexes an operation runs under,
`within` tells which may be held where it runs, and `after` which may be
waited for under which. -/
structure Discipline (μ : Type v) (κ : Type w) where
  needs : κ → μ → Prop
  within : κ → μ → Prop
  after : μ → μ → Prop

/-- One lock more. -/
def inc (d : μ → ℕ) (m : μ) : μ → ℕ := Function.update d m (d m + 1)

/-- One lock less. -/
def dec (d : μ → ℕ) (m : μ) : μ → ℕ := Function.update d m (d m - 1)

variable (D : Discipline μ κ)

/-- Code keeps the discipline from these locks on, and gives them all back. -/
def Sound : (μ → ℕ) → List (Instr μ κ) → Prop
  | d, [] => ∀ m, d m = 0
  | d, .lock m :: rest => (∀ h, 0 < d h → h = m ∨ D.after h m) ∧ Sound (inc d m) rest
  | d, .unlock m :: rest => 0 < d m ∧ Sound (dec d m) rest
  | d, .op k :: rest =>
    ((∀ m, D.needs k m → 0 < d m) ∧ ∀ h, 0 < d h → D.within k h) ∧ Sound d rest

/-- A piece of code that may stand wherever the locks held are among some and
have others among them. -/
def Fits (least most : μ → Prop) (l : List (Instr μ κ)) : Prop :=
  ∀ d rest, (∀ m, least m → 0 < d m) → (∀ h, 0 < d h → most h) → Sound D d rest →
    Sound D d (l ++ rest)

/-- Some of the programs, and what their operations go on with, keep the
discipline. -/
structure Disciplined (exec : Exec μ κ σ) (program : ρ → List (Instr μ κ)) (P : ρ → Prop) :
    Prop where
  op : ∀ k data, Fits D (D.needs k) (D.within k) (exec k data).2
  program : ∀ r, P r → Fits D (fun _ => False) (fun _ => False) (program r)

variable {D}

section Fits

variable {least most : μ → Prop} {l l' : List (Instr μ κ)} {m : μ} {k : κ}

theorem fits_nil : Fits D least most [] := fun _ _ _ _ h => h

theorem Fits.append (h : Fits D least most l) (h' : Fits D least most l') :
    Fits D least most (l ++ l') := by
  intro d rest hleast hmost hrest
  rw [List.append_assoc]
  exact h d _ hleast hmost (h' d rest hleast hmost hrest)

theorem Fits.flatMap {α : Type*} {f : α → List (Instr μ κ)} (h : ∀ a, Fits D least most (f a))
    (as : List α) : Fits D least most (as.flatMap f) := by
  induction as with
  | nil => exact fits_nil
  | cons a as ih => exact (h a).append ih

theorem fits_op (hleast : ∀ m, D.needs k m → least m) (hmost : ∀ h, most h → D.within k h) :
    Fits D least most [.op k] := by
  intro d rest hl hm hrest
  exact ⟨⟨fun n hn => hl n (hleast n hn), fun h hh => hmost h (hm h hh)⟩, hrest⟩

theorem dec_inc (d : μ → ℕ) (m : μ) : dec (inc d m) m = d := by
  funext h
  by_cases hm : h = m
  · subst hm
    simp [dec, inc]
  · simp [dec, inc, hm]

/-- **A block under a lock guard** may stand where its mutex may be waited for. -/
theorem Fits.guarded (hafter : ∀ h, most h → h = m ∨ D.after h m)
    (h : Fits D (fun n => least n ∨ n = m) (fun n => most n ∨ n = m) l) :
    Fits D least most (guarded m l) := by
  intro d rest hleast hmost hrest
  have hinc : ∀ n, d n ≤ inc d m n := fun n => by
    by_cases hn : n = m
    · subst hn
      simp [inc]
    · simp [inc, hn]
  have hm : inc d m m = d m + 1 := Function.update_self ..
  refine ⟨fun n hn => hafter n (hmost n hn), ?_⟩
  show Sound D (inc d m) ((l ++ [.unlock m]) ++ rest)
  rw [List.append_assoc]
  -- the block runs one lock deeper, and the unlock behind it takes that lock back
  refine h _ _ ?_ ?_ ⟨by rw [hm]; exact Nat.succ_pos _, by rw [dec_inc]; exact hrest⟩
  · rintro n (hn | rfl)
    · exact (hleast n hn).trans_le (hinc n)
    · rw [hm]
      exact Nat.succ_pos _
  · intro n hn
    by_cases hnm : n = m
    · exact .inr hnm
    · rw [inc, Function.update_of_ne hnm] at hn
      exact .inl (hmost n hn)

end Fits

/-! ## Its keeping -/

/-- How often a thread has locked each mutex. -/
def LockState.held (s : LockState θ μ κ σ) (t : θ) (m : μ) : ℕ := depth t (s.mutexes m)

variable (D) in
/-- **What is left of each thread keeps the discipline** from the locks it has. -/
def Kept (s : LockState θ μ κ σ) : Prop := ∀ t, Sound D (s.held t) (s.code t)

section Kept

variable {exec : Exec μ κ σ} {program : ρ → List (Instr μ κ)} {start : σ}
  {P : ρ → Prop}   {s s' : LockState θ μ κ σ} {t t' : θ} {m : μ} {k : κ} {x x' : RecursiveMutex θ}

theorem depth_lock (h : x.lock t = some x') : depth t x' = depth t x + 1 := by
  obtain ⟨_ | ⟨owner, extra⟩⟩ := x
  · obtain rfl := Option.some.inj h
    simp [depth]
  · by_cases ho : owner = t
    · subst ho
      rw [RecursiveMutex.lock_self] at h
      obtain rfl := Option.some.inj h
      simp [depth]
    · rw [RecursiveMutex.lock_other extra ho] at h
      cases h

theorem depth_lock_of_ne (h : x.lock t = some x') (hne : t' ≠ t) : depth t' x' = depth t' x := by
  obtain ⟨_ | ⟨owner, extra⟩⟩ := x
  · obtain rfl := Option.some.inj h
    simp [depth, hne.symm]
  · by_cases ho : owner = t
    · subst ho
      rw [RecursiveMutex.lock_self] at h
      obtain rfl := Option.some.inj h
      simp [depth, hne.symm]
    · rw [RecursiveMutex.lock_other extra ho] at h
      cases h

theorem depth_unlock (h : x.unlock t = some x') : depth t x = depth t x' + 1 := by
  obtain ⟨_ | ⟨owner, extra⟩⟩ := x
  · cases h
  · by_cases ho : owner = t
    · subst ho
      cases extra with
      | zero =>
        rw [RecursiveMutex.unlock_zero] at h
        obtain rfl := Option.some.inj h
        simp [depth, RecursiveMutex.free]
      | succ extra =>
        rw [RecursiveMutex.unlock_succ] at h
        obtain rfl := Option.some.inj h
        simp [depth]
    · simp [RecursiveMutex.unlock, ho] at h

theorem depth_unlock_of_ne (h : x.unlock t = some x') (hne : t' ≠ t) :
    depth t' x' = depth t' x := by
  obtain ⟨_ | ⟨owner, extra⟩⟩ := x
  · cases h
  · by_cases ho : owner = t
    · subst ho
      cases extra with
      | zero =>
        rw [RecursiveMutex.unlock_zero] at h
        obtain rfl := Option.some.inj h
        simp [depth, RecursiveMutex.free, hne.symm]
      | succ extra =>
        rw [RecursiveMutex.unlock_succ] at h
        obtain rfl := Option.some.inj h
        simp [depth, hne.symm]
    · simp [RecursiveMutex.unlock, ho] at h

/-- A thread may unlock what it has locked. -/
theorem unlock_ne_none (h : 0 < depth t x) : x.unlock t ≠ none := by
  obtain ⟨_ | ⟨owner, extra⟩⟩ := x
  · exact absurd h (Nat.lt_irrefl 0)
  · by_cases ho : owner = t
    · simp [RecursiveMutex.unlock, ho]
    · simp [depth, ho] at h

/-- **A mutex is held by one thread at a time.** -/
theorem eq_of_depth (h : 0 < depth t x) (h' : 0 < depth t' x) : t = t' := by
  obtain ⟨_ | ⟨owner, extra⟩⟩ := x
  · exact absurd h (Nat.lt_irrefl 0)
  · by_cases ho : owner = t
    · by_cases ho' : owner = t'
      · exact ho.symm.trans ho'
      · simp [depth, ho'] at h'
    · simp [depth, ho] at h

/-- The holder of a mutex a thread waits for. -/
theorem exists_holder (h : x.BlockedFor t) : ∃ t', t' ≠ t ∧ 0 < depth t' x := by
  obtain ⟨owner, extra, hx, hne⟩ := h
  exact ⟨owner, hne, by simp [depth, hx]⟩

/-- A step of a thread: the instruction it stood at, and what that did. -/
theorem advance_cases (h : advance exec s t = some s') :
    (∃ m rest x, s.code t = .lock m :: rest ∧ (s.mutexes m).lock t = some x ∧
      s' = ⟨Function.update s.code t rest, Function.update s.mutexes m x, s.data⟩) ∨
    (∃ m rest x, s.code t = .unlock m :: rest ∧ (s.mutexes m).unlock t = some x ∧
      s' = ⟨Function.update s.code t rest, Function.update s.mutexes m x, s.data⟩) ∨
    ∃ k rest, s.code t = .op k :: rest ∧
      s' = ⟨Function.update s.code t ((exec k s.data).2 ++ rest), s.mutexes,
        (exec k s.data).1⟩ := by
  unfold advance at h
  split at h
  case h_1 => cases h
  case h_2 m rest hcode =>
    obtain ⟨x, hx, rfl⟩ := Option.map_eq_some_iff.mp h
    exact .inl ⟨m, rest, x, hcode, hx, rfl⟩
  case h_3 m rest hcode =>
    obtain ⟨x, hx, rfl⟩ := Option.map_eq_some_iff.mp h
    exact .inr (.inl ⟨m, rest, x, hcode, hx, rfl⟩)
  case h_4 k rest hcode => exact .inr (.inr ⟨k, rest, hcode, (Option.some.inj h).symm⟩)

/-- What one mutex is changed to changes the locks of the threads so. -/
theorem held_update (code : θ → List (Instr μ κ)) (data : σ) (t : θ) :
    LockState.held ⟨code, Function.update s.mutexes m x, data⟩ t =
      Function.update (s.held t) m (depth t x) := by
  funext n
  by_cases hn : n = m
  · subst hn
    simp [LockState.held]
  · simp [LockState.held, hn]

/-- What a thread does to one mutex and its own code. -/
theorem kept_update {rest : List (Instr μ κ)} (hk : Kept D s)
    (hother : ∀ t', t' ≠ t → depth t' x = depth t' (s.mutexes m))
    (hself : Sound D (Function.update (s.held t) m (depth t x)) rest) :
    Kept D ⟨Function.update s.code t rest, Function.update s.mutexes m x, s.data⟩ := by
  intro t'
  rw [held_update]
  show Sound D (Function.update (s.held t') m (depth t' x)) (Function.update s.code t rest t')
  by_cases htt : t' = t
  · subst htt
    rw [Function.update_self]
    exact hself
  · rw [Function.update_of_ne htt, hother t' htt,
      show depth t' (s.mutexes m) = s.held t' m from rfl, Function.update_eq_self]
    exact hk t'

/-- What a thread does to the data and its own code. -/
theorem kept_code {l : List (Instr μ κ)} {data : σ} (hk : Kept D s)
    (hself : Sound D (s.held t) l) : Kept D ⟨Function.update s.code t l, s.mutexes, data⟩ := by
  intro t'
  show Sound D (s.held t') (Function.update s.code t l t')
  by_cases htt : t' = t
  · subst htt
    rw [Function.update_self]
    exact hself
  · rw [Function.update_of_ne htt]
    exact hk t'

theorem kept_advance (hd : Disciplined D exec program P) (hk : Kept D s)
    (h : advance exec s t = some s') : Kept D s' := by
  have ht := hk t
  obtain ⟨m, rest, x, hcode, hx, rfl⟩ | ⟨m, rest, x, hcode, hx, rfl⟩ | ⟨k, rest, hcode, rfl⟩ :=
    advance_cases h
  · rw [hcode] at ht
    refine kept_update hk (fun _ hne => depth_lock_of_ne hx hne) ?_
    rw [depth_lock hx]
    exact ht.2
  · rw [hcode] at ht
    refine kept_update hk (fun _ hne => depth_unlock_of_ne hx hne) ?_
    rw [show depth t x = s.held t m - 1 by
      rw [LockState.held, depth_unlock hx, Nat.add_sub_cancel]]
    exact ht.2
  -- an operation runs under what it needs, and what it goes on with stands there
  · rw [hcode] at ht
    exact kept_code hk (hd.op k s.data _ rest ht.1.1 ht.1.2 ht.2)

/-- **Disciplined programs are so in every run.** -/
theorem kept_of_reachable (hd : Disciplined D exec program P)
    (h : (machine exec program start).ReachableUnder (fun _ a => a.Begins P) s) : Kept D s := by
  refine h.invariant ?_ ?_
  · rintro _ rfl t
    exact fun _ => rfl
  · intro s a s' hk ha hs
    cases a with
    | advance t => exact kept_advance hd hk hs
    | begin t r =>
      obtain ⟨hidle, hs⟩ := Option.ite_none_right_eq_some.mp hs
      obtain rfl := Option.some.inj hs
      -- a thread whose code is at its end holds nothing
      have hzero : ∀ m, s.held t m = 0 := by
        have h := hk t
        rw [List.isEmpty_iff.mp hidle] at h
        exact h
      refine kept_code hk ?_
      rw [← List.append_nil (program r)]
      refine hd.program r ha _ [] (fun _ hm => hm.elim) (fun m hm => ?_) hzero
      rw [hzero m] at hm
      cases hm

/-- **Race freedom.** Two threads are never about to run operations that
need one mutex. -/
theorem needs_disjoint (hk : Kept D s) {k' : κ} {rest rest' : List (Instr μ κ)}
    (h : s.code t = .op k :: rest) (h' : s.code t' = .op k' :: rest') (hne : t ≠ t')
    (hm : D.needs k m) : ¬ D.needs k' m := by
  intro hm'
  have ht := hk t
  have ht' := hk t'
  rw [h] at ht
  rw [h'] at ht'
  exact hne (eq_of_depth (ht.1.1 m hm) (ht'.1.1 m hm'))

end Kept

end Locks

end Transition
