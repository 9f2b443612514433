import VerAI.Worker.Lifetime
/-!
# The two threads are made once and joined once

`Run` tests `isRunning` and not whether its threads are joinable, and the
destructor joins them whether they were made or not. A thread stays joinable
until the destructor has joined it, so a `Run` makes threads once at most: it
is safe the first time and, later, where the flag is up and it returns at
once. The destructor is safe where a `Run` has made the threads.
-/

namespace VerAI

namespace Worker

open Transition (System)

universe u

variable {τ : Type u}

/-- The controlling thread is about to assign to a member that is joinable, or
to join one that is not. -/
def ThreadState.misused (s : ThreadState τ) : Bool :=
  match s.control with
  | .makeWork => s.workThr
  | .makeDeffered => s.defferedTasksThr
  | .joinWork => !s.workThr
  | .joinDeffered => !s.defferedTasksThr
  | _ => false

/-- `Run` is called where it returns at once or no thread was made, and the
destructor where they were. -/
def RunsFresh (s : ThreadState τ) : ThreadAction τ → Prop
  | .run => s.main.isRunning = true ∨ s.workThr = false
  | .destroy => s.workThr = true
  | _ => True

instance (s : ThreadState τ) : (a : ThreadAction τ) → Decidable (RunsFresh s a)
  | .run => inferInstanceAs (Decidable (_ ∨ _))
  | .destroy => inferInstanceAs (Decidable (_ = _))
  | .stop | .control | .deliver | .main _ | .deffered _ => .isTrue trivial

/-- The controlling thread is past the assignments of `Run`, or in a `Stop` of
the destructor. -/
def ControlPc.destroying : ControlPc → Bool
  | stopPush d => d
  | stopClear d => d
  | joinWork => true
  | _ => false

/-- The two members are joinable together, but for the moments in between. -/
def ControlPc.between : ControlPc → Bool
  | makeDeffered => true
  | joinDeffered => true
  | terminated => true
  | _ => false

section Steps

variable [DecidableEq τ] {s s' : ThreadState τ} {a : ThreadAction τ}

/-- In any run the handler is joinable only where the worker is, or is being
joined. -/
theorem defferedTasksThr_of_reachable (h : (threadMachine τ).Reachable s) :
    s.defferedTasksThr = true →
      s.workThr = true ∨ s.control = .joinDeffered ∨ s.control = .terminated := by
  refine (h.invariant (I := fun s => ThreadInv s ∧ (s.defferedTasksThr = true →
    s.workThr = true ∨ s.control = .joinDeffered ∨ s.control = .terminated))
    (fun s hs => hs ▸ ⟨threadInv_new, nofun⟩) fun s a s' hi _ hstep => ?_).2
  have hsteps := threads_of_step hstep
  refine ⟨hi.1.step hsteps, ?_⟩
  have hkept : s.control ≠ .joinDeffered → s.control ≠ .terminated →
      s.defferedTasksThr = true → s.workThr = true := fun hj ht hd =>
    (hi.2 hd).resolve_right (not_or.mpr ⟨hj, ht⟩)
  cases hsteps with
  | runAlready hc | run hc | stop hc | destroy hc | stopPush hc | stopClear hc | stopNoHandler hc =>
    exact fun hd => .inl (hkept (by simp [hc]) (by simp [hc]) hd)
  | makeWork => exact fun _ => .inl rfl
  | makeDeffered hc => exact fun _ => .inl (hi.1.making hc)
  | joinWork => exact fun _ => .inr (.inl rfl)
  | joinDeffered => exact fun hd => by cases hd
  | terminate => exact fun _ => .inr (.inr rfl)
  | deliver | main | deffered => exact hi.2

/-- The program is terminated by a misuse alone. -/
theorem misused_of_terminate (h : (threadMachine τ).step s .control = some s')
    (hs : s'.control = .terminated) : s.misused = true := by
  have h : s.controlStep = some s' := h
  cases hc : s.control with
  | idle | destroyed | terminated => simp [ThreadState.controlStep, hc] at h
  | makeWork | makeDeffered =>
    simp only [ThreadState.controlStep, hc] at h
    simp only [ThreadState.misused, hc]
    by_contra hfree
    rw [if_neg hfree] at h
    obtain rfl := Option.some.inj h
    cases hs
  | joinWork | joinDeffered =>
    simp only [ThreadState.controlStep, hc] at h
    simp only [ThreadState.misused, hc]
    by_contra hmade
    rw [if_pos (by simpa using hmade)] at h
    obtain ⟨-, h⟩ := Option.ite_none_right_eq_some.mp h
    obtain rfl := Option.some.inj h
    cases hs
  | stopPush d =>
    simp only [ThreadState.controlStep, hc] at h
    obtain ⟨m, -, rfl⟩ := Option.map_eq_some_iff.mp h
    cases hs
  | stopClear d => exact absurd ((control_of_stopClear hc h).symm.trans hs) afterStop_ne_terminated

/-- What the places of the controlling thread say about the two members, in
the runs that use them well. -/
structure Joinable (s : ThreadState τ) : Prop where
  makeWork : s.control = .makeWork → s.workThr = false
  makeDeffered : s.control = .makeDeffered → s.defferedTasksThr = false
  paired : s.control.between = false → s.defferedTasksThr = s.workThr
  destroying : s.control.destroying = true → s.workThr = true
  joinDeffered : s.control = .joinDeffered → s.workThr = false ∧ s.defferedTasksThr = true
  alive : s.control ≠ .terminated

omit [DecidableEq τ] in
theorem Joinable.misused (h : Joinable s) : s.misused = false := by
  unfold ThreadState.misused
  split
  case h_1 hc => exact h.makeWork hc
  case h_2 hc => exact h.makeDeffered hc
  case h_3 hc => simp [h.destroying (by rw [hc]; rfl)]
  case h_4 hc => simp [(h.joinDeffered hc).2]
  case h_5 => rfl

omit [DecidableEq τ] in
/-- Away from the assignments and the joins the two members go together. -/
theorem Joinable.of_paired (hp : s.defferedTasksThr = s.workThr) (hm : s.control ≠ .makeWork)
    (hb : s.control.between = false)
    (hd : s.control.destroying = true → s.workThr = true) : Joinable s where
  makeWork h := absurd h hm
  makeDeffered h := by rw [h] at hb; cases hb
  paired _ := hp
  destroying := hd
  joinDeffered h := by rw [h] at hb; cases hb
  alive h := by rw [h] at hb; cases hb

/-- **A step that uses the threads well** keeps them so. -/
theorem Joinable.step (hi : Joinable s) (hw : ThreadInv s) (hc : RunsFresh s a)
    (h : (threadMachine τ).step s a = some s') : Joinable s' := by
  have hpaired : ∀ {c : ControlPc}, s.control = c → c.between = false →
      s.defferedTasksThr = s.workThr := fun hc hb => hi.paired (by rw [hc]; exact hb)
  have hnot : ∀ {p : Prop}, false = true → p := fun h => absurd h Bool.false_ne_true
  cases threads_of_step h with
  | runAlready => exact ⟨hi.makeWork, hi.makeDeffered, hi.paired, hi.destroying, hi.joinDeffered,
      hi.alive⟩
  | run hidle hoff =>
    have hnone : s.workThr = false := by
      rcases hc with hup | hnone
      · exact hnot (hoff.symm.trans hup)
      · exact hnone
    exact ⟨fun _ => hnone, by simp, fun _ => hpaired hidle rfl, hnot, by simp, by simp⟩
  | stop hidle => exact .of_paired (hpaired hidle rfl) (by simp [ThreadState.callStop]) rfl hnot
  | destroy hidle =>
    exact .of_paired (hpaired hidle rfl) (by simp [ThreadState.callStop]) rfl fun _ => hc
  | makeWork hmake hnone =>
    exact ⟨by simp, fun _ => (hpaired hmake rfl).trans hnone, by simp [ControlPc.between], hnot,
      by simp, by simp⟩
  | makeDeffered hmake => exact .of_paired (hw.making hmake).symm (by simp) rfl hnot
  | @stopPush d _ hpush =>
    exact .of_paired (hpaired hpush rfl) (by simp) rfl fun hd =>
      hi.destroying (by rw [hpush]; exact hd)
  | @stopClear d hclear | @stopNoHandler d hclear =>
    have hboth := hpaired hclear rfl
    cases d with
    | false => exact .of_paired hboth (by simp [ThreadState.afterStop]) rfl hnot
    | true =>
      exact .of_paired hboth (by simp [ThreadState.afterStop]) rfl fun _ =>
        hi.destroying (by rw [hclear]; rfl)
  | joinWork hjoin hthr =>
    exact ⟨by simp, by simp, by simp [ControlPc.between], hnot,
      fun _ => ⟨rfl, (hpaired hjoin rfl).trans hthr⟩, by simp⟩
  | joinDeffered hjoin =>
    exact .of_paired (hi.joinDeffered hjoin).1.symm (by simp) rfl hnot
  | terminate => exact absurd (misused_of_terminate h rfl) (by simp [hi.misused])
  | deliver | main | deffered =>
    exact ⟨hi.makeWork, hi.makeDeffered, hi.paired, hi.destroying, hi.joinDeffered, hi.alive⟩

/-- **The invariant holds in the runs that use the threads well.** -/
theorem joinable_of_reachable (h : (threadMachine τ).ReachableUnder RunsFresh s) : Joinable s := by
  refine (h.invariant (I := fun s => ThreadInv s ∧ Joinable s) (fun s hs => ?_)
    fun s a s' hi hc hstep => ⟨hi.1.step (threads_of_step hstep), hi.2.step hi.1 hc hstep⟩).2
  exact hs ▸ ⟨threadInv_new, nofun, nofun, fun _ => rfl, nofun, nofun, nofun⟩

/-! ## Any other use terminates the program -/

/-- A misuse terminates the program. -/
theorem step_of_misused (h : s.misused = true) :
    (threadMachine τ).step s .control = some { s with control := .terminated } := by
  show s.controlStep = _
  unfold ThreadState.misused at h
  unfold ThreadState.controlStep
  split at h
  case h_1 hc => simp [hc, h]
  case h_2 hc => simp [hc, h]
  case h_3 hc => simp [hc, Bool.not_eq_true' s.workThr ▸ h]
  case h_4 hc => simp [hc, Bool.not_eq_true' s.defferedTasksThr ▸ h]
  case h_5 => cases h

/-- **A second `Run`** assigns to a joinable thread. -/
theorem misused_of_run (hstep : (threadMachine τ).step s .run = some s')
    (hc : ¬ RunsFresh s .run) : s'.misused = true := by
  simp only [RunsFresh, not_or, Bool.not_eq_true, Bool.not_eq_false] at hc
  cases threads_of_step hstep with
  | runAlready _ hup => exact absurd (hc.1.symm.trans hup) (by decide)
  | run => exact hc.2

/-- **The destructor of a thread never run** joins one that was not made. -/
theorem misused_of_destroy (h : (threadMachine τ).Reachable s)
    (hstep : (threadMachine τ).step s .destroy = some s') (hc : ¬ RunsFresh s .destroy) :
    ∃ t, (threadMachine τ).exec s' [.control, .control] = some t ∧ t.misused = true := by
  cases threads_of_step hstep with
  | destroy hidle =>
    have hnone : s.workThr = false := Bool.eq_false_iff.mpr hc
    have hd : s.defferedTasksThr = false := by
      by_contra hd
      rw [Bool.not_eq_false] at hd
      rcases defferedTasksThr_of_reachable h hd with hw | hj | ht
      · exact absurd (hnone.symm.trans hw) (by decide)
      · cases hidle.symm.trans hj
      · cases hidle.symm.trans ht
    let cleared : ThreadState τ :=
      { (s.callStop true).setMain s.main.stopPushed with control := .stopClear true }
    let joining : ThreadState τ := { cleared with control := .joinWork, stopReturned := true }
    have hclear : (threadMachine τ).step cleared .control = some joining :=
      step_stopNoHandler (d := true) rfl hd
    refine ⟨joining, ?_, ?_⟩
    · rw [System.exec_cons, step_callStop, Option.bind_some, System.exec_cons, hclear,
        Option.bind_some, System.exec_nil]
    · show (!s.workThr) = true
      rw [hnone]
      rfl

/-- **A call that uses the threads badly** terminates the program by steps of
the controlling thread alone. -/
theorem terminates_of_unfresh (h : (threadMachine τ).Reachable s)
    (hstep : (threadMachine τ).step s a = some s') (hc : ¬ RunsFresh s a) :
    ∃ n t, (threadMachine τ).exec s' (List.replicate n .control) = some t ∧
      t.control = .terminated := by
  cases a with
  | run =>
    refine ⟨1, { s' with control := .terminated }, ?_, rfl⟩
    rw [List.replicate_one, System.exec_cons, step_of_misused (misused_of_run hstep hc)]
    rfl
  | destroy =>
    obtain ⟨t, hexec, ht⟩ := misused_of_destroy h hstep hc
    refine ⟨3, { t with control := .terminated }, ?_, rfl⟩
    show (threadMachine τ).exec s' ([.control, .control] ++ [.control]) = _
    rw [System.exec_append, hexec, Option.bind_some, System.exec_cons, step_of_misused ht]
    rfl
  | _ => exact absurd trivial hc

end Steps

end Worker

end VerAI
