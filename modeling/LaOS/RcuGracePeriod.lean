import LaOS.RcuReachable

/-!
# Grace periods cover the sections that were open when they started

A section which stays open keeps its number, while `synchronize_rcu` waits for the grace
period that it started.
-/

namespace LaOS.Rcu

open Function

/-- The grace period that a call of `synchronize_rcu` waits for. -/
def TaskPc.waitsFor : TaskPc → Option (BitVec 32)
  | .syncScan target _ | .syncPreemptDisable target _ | .syncSpin target _
  | .syncList target _ | .syncSpinRelease target _ _ | .syncPreemptEnable target _ _
  | .syncDecide target _ _ | .syncStall target => some target
  | _ => none

section Effects

variable {Thread : Type} {cfg : Config Thread} {s after : State Thread} {t : Thread}

structure Effect (s after : State Thread) (t : Thread) : Prop where
  gpStarted : s.gpStarted ≤ after.gpStarted
  sectionGp : 0 < s.nesting t → after.sectionGp t = s.sectionGp t
  opened : s.nesting t = 0 → 0 < after.nesting t →
    after.sectionGp t = s.gpStarted
  nesting : after.nesting t = s.nesting t ∨ 0 < after.nesting t ∨
    ∃ nesting, s.pc t = .unlockStore nesting ∧ after.nesting t = nesting - 1
  started : s.pc t = .syncIncrement → (after.pc t).waitsFor.isSome = true →
    after.gpStarted = s.gpStarted + 1 ∧ (after.pc t).waitsFor = some after.gpSeq
  waiting : ∀ target, (s.pc t).waitsFor = some target →
    (after.pc t).waitsFor = some target ∨
      after.pc t = .user ∧ s.pc t = .syncDecide target false true

/-- The section data of `t` and the count of grace periods are the same. -/
structure SameSections (before after : Readers Thread) (t : Thread) : Prop where
  nesting : after.nesting t = before.nesting t
  sectionGp : after.sectionGp t = before.sectionGp t
  gpStarted : after.gpStarted = before.gpStarted

theorem SameSections.refl (readers : Readers Thread) : SameSections readers readers t :=
  ⟨rfl, rfl, rfl⟩

theorem SameSections.unopened (same : SameSections s.toReaders after.toReaders t)
    (outside : s.nesting t = 0) : ¬ 0 < after.nesting t := by
  rw [same.nesting, outside]
  exact Nat.lt_irrefl 0

theorem SameSections.effect (same : SameSections s.toReaders after.toReaders t)
    (pcEq : after.pc t = s.pc t) : Effect s after t where
  gpStarted := Nat.le_of_eq same.gpStarted.symm
  sectionGp _ := same.sectionGp
  opened outside inside := absurd inside (same.unopened outside)
  nesting := .inl same.nesting
  started atIncrement waits := by
    rw [pcEq, atIncrement] at waits
    cases waits
  waiting target waits := .inl (pcEq ▸ waits)

/-- Moves other than the increment of `gp_seq`: a waiting call keeps its grace period until it
returns. -/
def TaskPc.Advances (before after : TaskPc) : Prop :=
  before ≠ .syncIncrement ∧
    ∀ target, before.waitsFor = some target →
      after.waitsFor = some target ∨ after = .user ∧ before = .syncDecide target false true

variable [DecidableEq Thread] {cpu : Nat}

theorem State.preemptEnable_frame {frame : Frame Thread}
    (enabled : s.preemptEnable cpu frame = some after) :
    after.pc = s.pc ∧ SameSections s.toReaders after.toReaders t := by
  unfold State.preemptEnable at enabled
  split at enabled
  · cases enabled
  · split at enabled <;> cases enabled <;> exact ⟨rfl, .refl _⟩

theorem State.leaveSchedule_frame (s : State Thread) (cpu : Nat) :
    (s.leaveSchedule cpu).pc = s.pc ∧
      SameSections s.toReaders (s.leaveSchedule cpu).toReaders t := by
  unfold State.leaveSchedule
  split <;> exact ⟨rfl, .refl _⟩

theorem execKernel_frame {chosen : Thread}
    (ran : execKernel cfg s cpu chosen = some after) (t : Thread) :
    after.pc = s.pc ∧ SameSections s.toReaders after.toReaders t := by
  simp only [execKernel] at ran
  generalize s.mode cpu = mode at ran
  cases mode with
  | task => cases ran
  | tickTest | tickRead | tickStore | noteTest | noteRead | noteStore | notePreemptDisable
  | noteSpinRelease =>
    cases ran
    exact ⟨rfl, .refl _⟩
  | irqReturn | noteList =>
    simp only at ran
    split at ran <;> cases ran
    · exact ⟨rfl, .refl _⟩
    · exact ⟨rfl, ⟨rfl, rfl, rfl⟩⟩
  | enter preemptive =>
    simp only at ran
    split at ran
    · cases ran
      exact ⟨rfl, .refl _⟩
    · split at ran <;> cases ran
      exact s.leaveSchedule_frame cpu
  | pick =>
    obtain ⟨-, ran⟩ := Option.ite_none_right_eq_some.mp ran
    split at ran <;> cases ran
    · exact s.leaveSchedule_frame cpu
    · exact ⟨rfl, .refl _⟩
  | noteSpin next =>
    obtain ⟨locked, acquired, rfl⟩ := Option.map_eq_some_iff.mp ran
    obtain ⟨_, rfl⟩ := State.spinLock_eq_some.mp acquired
    exact ⟨rfl, .refl _⟩
  | notePreemptEnable next =>
    have kept : _ ∧ SameSections _ after.toReaders t := State.preemptEnable_frame ran
    exact kept
  | switch next =>
    cases ran
    exact (s.storeCurrent cpu next).leaveSchedule_frame cpu

variable {mover : Thread} {before : TaskPc}

theorem effect_of_move {pc : TaskPc} (beforeEq : s.pc mover = before)
    (moved : after.pc = update s.pc mover pc)
    (same : SameSections s.toReaders after.toReaders t)
    (advances : before.Advances pc) : Effect s after t := by
  by_cases isMover : t = mover
  · subst isMover
    have pcEq : after.pc t = pc := by rw [moved, update_self]
    exact
      { gpStarted := Nat.le_of_eq same.gpStarted.symm
        sectionGp := fun _ => same.sectionGp
        opened := fun outside inside => absurd inside (same.unopened outside)
        nesting := .inl same.nesting
        started := fun atIncrement _ => absurd (beforeEq.symm.trans atIncrement) advances.1
        waiting := by
          rw [pcEq, beforeEq]
          exact advances.2 }
  · exact same.effect (by rw [moved, update_of_ne isMover])

theorem effect_storeNesting {pc : TaskPc} {nesting : Nat}
    (beforeEq : s.pc mover = before) (advances : before.Advances pc)
    (stored : 0 < nesting ∨ ∃ old, before = .unlockStore old ∧ nesting = old - 1) :
    Effect s ((s.setPc mover pc).storeNesting mover nesting) t := by
  by_cases isMover : t = mover
  · subst isMover
    exact
      { gpStarted := Nat.le_refl _
        sectionGp := by
          intro inside
          simp [State.storeNesting, State.setPc, Nat.ne_of_gt inside]
        opened := by
          intro outside _
          simp [State.storeNesting, State.setPc, outside]
        nesting := by
          right
          simpa [State.storeNesting, State.setPc, beforeEq] using stored
        started := fun atIncrement _ => absurd (beforeEq.symm.trans atIncrement) advances.1
        waiting := by
          simpa [State.storeNesting, State.setPc, beforeEq] using advances.2 }
  · refine SameSections.effect ⟨?_, ?_, rfl⟩ (update_of_ne isMover _ _)
    · exact update_of_ne isMover _ _
    · by_cases outside : s.nesting mover = 0
      · simp [State.storeNesting, State.setPc, outside, isMover]
      · simp [State.storeNesting, State.setPc, outside]

theorem effect_incrementGpSeq (atIncrement : s.pc mover = .syncIncrement) : Effect s
      (s.incrementGpSeq.setPc mover (.syncScan s.incrementGpSeq.gpSeq 0)) t where
  gpStarted := Nat.le_succ _
  sectionGp _ := rfl
  opened outside inside := absurd outside (Nat.ne_of_gt inside)
  nesting := .inl rfl
  started threadAt waits := by
    by_cases isMover : t = mover
    · subst isMover
      simp [State.setPc, State.incrementGpSeq, TaskPc.waitsFor]
    · simp [State.setPc, State.incrementGpSeq, isMover, threadAt, TaskPc.waitsFor] at waits
  waiting target waits := by
    have isOther : t ≠ mover := by
      rintro rfl
      simp [atIncrement, TaskPc.waitsFor] at waits
    left
    simpa [State.setPc, State.incrementGpSeq, isOther] using waits

theorem execTask_effect {stalled : Bool}
    (ran : execTask cfg s cpu stalled = some after) (t : Thread) :
    Effect s after t := by
  simp only [execTask] at ran
  generalize pcEq : s.pc (s.current cpu) = pc at ran
  cases pc with
  | user => cases ran
  | lockStore nesting =>
    cases ran
    exact effect_storeNesting pcEq (by simp [TaskPc.Advances, TaskPc.waitsFor])
      (.inl (Nat.succ_pos _))
  | unlockStore nesting =>
    cases ran
    exact effect_storeNesting pcEq (by simp [TaskPc.Advances, TaskPc.waitsFor])
      (.inr ⟨nesting, rfl, rfl⟩)
  | unlockTest | unlockBlocked | unlockIrqSave | unlockPreemptDisable | unlockListDel
  | unlockSpinRelease | unlockIrqRestore | unlockClear | unlockRead | unlockReport
  | syncPreemptDisable | syncList | syncSpinRelease | syncStall =>
    cases ran
    exact effect_of_move pcEq rfl ⟨rfl, rfl, rfl⟩ (by simp [TaskPc.Advances, TaskPc.waitsFor])
  | unlockSpin | syncSpin =>
    obtain ⟨locked, acquired, rfl⟩ := Option.map_eq_some_iff.mp ran
    obtain ⟨_, rfl⟩ := State.spinLock_eq_some.mp acquired
    exact effect_of_move pcEq rfl (.refl _) (by simp [TaskPc.Advances, TaskPc.waitsFor])
  | unlockPreemptEnable | syncPreemptEnable =>
    have kept : _ ∧ SameSections _ after.toReaders t := State.preemptEnable_frame ran
    exact effect_of_move pcEq kept.1 kept.2 (by simp [TaskPc.Advances, TaskPc.waitsFor])
  | syncIncrement =>
    cases ran
    exact effect_incrementGpSeq pcEq
  | syncScan target i =>
    simp only at ran
    split at ran
    · split at ran <;> cases ran
      · exact SameSections.effect (.refl _) rfl
      · exact effect_of_move pcEq rfl (.refl _) (by simp [TaskPc.Advances, TaskPc.waitsFor])
    · cases ran
      exact effect_of_move pcEq rfl (.refl _) (by simp [TaskPc.Advances, TaskPc.waitsFor])
  | syncDecide target report empty =>
    simp only at ran
    split at ran
    · cases ran
      exact effect_of_move pcEq rfl (.refl _) (by simp [TaskPc.Advances, TaskPc.waitsFor])
    next report =>
      split at ran <;> cases ran
      next isEmpty =>
        exact effect_of_move pcEq rfl (.refl _)
          (by simp_all [TaskPc.Advances, TaskPc.waitsFor])
      next =>
        exact effect_of_move pcEq rfl (.refl _)
          (by simp [TaskPc.Advances, TaskPc.waitsFor])

theorem execCall_effect {call : Call} (inUser : s.pc (s.current cpu) = .user)
    (ran : execCall s cpu call = some after) (t : Thread) :
    Effect s after t := by
  cases call with
  | rcuReadLock | synchronizeRcu =>
    cases ran
    exact effect_of_move inUser rfl (.refl _) (by simp [TaskPc.Advances, TaskPc.waitsFor])
  | rcuReadUnlock =>
    obtain ⟨-, ⟨⟩⟩ := Option.ite_none_right_eq_some.mp ran
    exact effect_of_move inUser rfl (.refl _) (by simp [TaskPc.Advances, TaskPc.waitsFor])
  | schedule | preemptDisable =>
    cases ran
    exact SameSections.effect (.refl _) rfl
  | preemptEnable =>
    have kept : _ ∧ SameSections _ after.toReaders t := State.preemptEnable_frame ran
    exact kept.2.effect (congrFun kept.1 t)

theorem step_effect {action : Action Thread} (ran : step cfg s action = some after)
    (t : Thread) : Effect s after t := by
  cases action with
  | call cpu call =>
    obtain ⟨guards, ran⟩ := Option.ite_none_right_eq_some.mp ran
    exact execCall_effect guards.2.2 ran t
  | exec cpu chosen stalled =>
    obtain ⟨-, ran⟩ := Option.ite_none_right_eq_some.mp ran
    split at ran
    · exact execTask_effect ran t
    · have kept := execKernel_frame ran t
      exact kept.2.effect (congrFun kept.1 t)
  | tick cpu resched =>
    obtain ⟨-, ⟨⟩⟩ := Option.ite_none_right_eq_some.mp ran
    exact SameSections.effect (.refl _) rfl
  | kick cpu =>
    cases ran
    exact SameSections.effect (.refl _) rfl

end Effects

section Executions

variable {Thread : Type} [DecidableEq Thread] {cfg : Config Thread} {length : Nat}
  (run : (system cfg).Execution length)

/-- The outermost `rcu_read_lock` of `reader` takes effect in step `began`. -/
structure OpensSection (reader : Thread) (began : Nat) : Prop where
  outside : (run.states began).nesting reader = 0
  inside : 0 < (run.states (began + 1)).nesting reader

/-- A call of `synchronize_rcu` by `updater` increments `gp_seq` in step
`started` and returns in step `returned`. -/
structure Synchronizes (updater : Thread) (started returned : Nat) : Prop where
  increments : (run.states started).pc updater = .syncIncrement
  waits : ∀ i ≤ returned, started < i →
    ((run.states i).pc updater).waitsFor.isSome = true
  ordered : started < returned
  withinRun : returned < length
  returns : (run.states (returned + 1)).pc updater = .user

/-- In step `ended` the `rcu_read_unlock` of `reader` stores nesting zero. -/
structure ClosesSection (reader : Thread) (ended : Nat) : Prop where
  unlocking : (run.states ended).pc reader = .unlockStore 1
  outside : (run.states (ended + 1)).nesting reader = 0

variable {run}

theorem gpStarted_mono {first last : Nat} (firstLe : first ≤ last) (lastLe : last ≤ length) :
    (run.states first).gpStarted ≤ (run.states last).gpStarted := by
  refine run.along (fun s => (run.states first).gpStarted ≤ s.gpStarted)
    firstLe lastLe (Nat.le_refl _) ?_
  intro i _ _ _ grown ran
  exact grown.trans (step_effect ran ((run.states i).current 0)).gpStarted

theorem OpensSection.stays {reader : Thread} {began last : Nat}
    (opens : OpensSection run reader began) (beganLt : began < last) (lastLe : last ≤ length)
    (unclosed : ∀ i, began < i → i < last → ¬ ClosesSection run reader i) :
    0 < (run.states last).nesting reader ∧
      (run.states last).sectionGp reader = (run.states began).gpStarted := by
  refine run.along (fun s => 0 < s.nesting reader ∧
    s.sectionGp reader = (run.states began).gpStarted) beganLt lastLe ?_ ?_
  · have effect := step_effect (run.steps began (by omega)) reader
    exact ⟨opens.inside, effect.opened opens.outside opens.inside⟩
  intro i beganLe indexLt reached stays ran
  have effect := step_effect ran reader
  refine ⟨?_, (effect.sectionGp stays.1).trans stays.2⟩
  rcases effect.nesting with same | inside | ⟨nesting, unlocking, nestingEq⟩
  · exact same ▸ stays.1
  · exact inside
  · have ok := (inv_of_reachable reached).tasks reader
    rw [unlocking] at ok
    by_contra outside
    have nestingOne : nesting = 1 := by
      have nestingOk : (run.states i).nesting reader = nesting := ok
      omega
    subst nestingOne
    exact unclosed i beganLe indexLt ⟨unlocking, nestingEq⟩

variable {updater : Thread} {started returned : Nat}

theorem Synchronizes.counted (call : Synchronizes run updater started returned) :
    (run.states (started + 1)).gpStarted = (run.states started).gpStarted + 1 ∧
      ((run.states (started + 1)).pc updater).waitsFor =
        some (run.states (started + 1)).gpSeq := by
  have ran := run.steps started (call.ordered.trans call.withinRun)
  exact (step_effect ran updater).started call.increments
    (call.waits (started + 1) call.ordered (Nat.lt_succ_self _))

theorem Synchronizes.target (call : Synchronizes run updater started returned) :
    ((run.states returned).pc updater).waitsFor =
      some (BitVec.ofNat 32 ((run.states started).gpStarted + 1)) := by
  refine run.along (fun s => (s.pc updater).waitsFor =
    some (BitVec.ofNat 32 ((run.states started).gpStarted + 1)))
    call.ordered (Nat.le_of_lt call.withinRun) ?_ ?_
  · have inv := inv_of_reachable
      (run.reachable (started + 1) (call.ordered.trans call.withinRun))
    rw [call.counted.2, inv.sequence, call.counted.1]
  intro i startedLe indexLt _ waits ran
  rcases (step_effect ran updater).waiting _ waits with still | ⟨returns, _⟩
  · exact still
  · have waitsNext := call.waits (i + 1) indexLt (by omega)
    rw [returns] at waitsNext
    cases waitsNext

theorem Synchronizes.elapsed (call : Synchronizes run updater started returned)
    (small : (run.states returned).gpStarted < 2 ^ 31) :
    Elapsed (run.states returned).toReaders ((run.states started).gpStarted + 1) := by
  have withinRun := Nat.le_of_lt call.withinRun
  have ran := run.steps returned call.withinRun
  rcases (step_effect ran updater).waiting _ call.target with still | ⟨_, deciding⟩
  · rw [call.returns] at still
    cases still
  have ok := (inv_of_reachable (run.reachable returned withinRun)).tasks updater
  rw [deciding] at ok
  obtain ⟨gp, gpLe, gpEq, elapsed⟩ := ok.2 rfl rfl small
  have startedLe : (run.states (started + 1)).gpStarted ≤
      (run.states returned).gpStarted := gpStarted_mono call.ordered withinRun
  have sameGp : (run.states started).gpStarted + 1 = gp := by
    have valueEq := congrArg BitVec.toNat gpEq
    simp only [BitVec.toNat_ofNat] at valueEq
    have counted := call.counted.1
    omega
  exact sameGp ▸ elapsed

/-- A section that was open when `synchronize_rcu` incremented `gp_seq` has been
closed when the call returns. -/
theorem section_closed_of_synchronize {reader updater : Thread} {began started returned : Nat}
    (opens : OpensSection run reader began)
    (call : Synchronizes run updater started returned) (beganLt : began < started)
    (small : (run.states returned).gpStarted < 2 ^ 31) :
    ∃ ended, began < ended ∧ ended < returned ∧ ClosesSection run reader ended := by
  have withinRun := Nat.le_of_lt call.withinRun
  have ordered := call.ordered
  by_contra unclosed
  push Not at unclosed
  have stays := opens.stays (beganLt.trans ordered) withinRun unclosed
  have elapsed := call.elapsed small reader stays.1
  have grown : (run.states began).gpStarted ≤ (run.states started).gpStarted :=
    gpStarted_mono (Nat.le_of_lt beganLt) (by omega)
  omega

end Executions

def twoCpus : Config (Fin 2) where
  cpuCount := 2
  present := fun _ => true
  cpuOf := fun t => t.val
  pinned := fun t => ⟨t.isLt, rfl⟩

/-- Thread 0 opens a section, thread 1 starts a grace period, thread 0 closes the section and
reports, CPU 1 reports too, and thread 1 returns. -/
def readerThenUpdater : List (Action (Fin 2)) :=
  List.flatten
    [[.call 0 .rcuReadLock, .exec 0 0 false, .call 1 .synchronizeRcu, .exec 1 1 false],
      .call 0 .rcuReadUnlock :: List.replicate 5 (.exec 0 0 false),
      .tick 1 false :: List.replicate 13 (.exec 1 1 false)]

theorem twoCpus_initial :
    (system twoCpus).initial (bootState fun cpu => if cpu = 0 then 0 else 1) := by
  refine ⟨_, ?_, rfl⟩
  rintro cpu ⟨below, -⟩
  have isZeroOrOne : cpu = 0 ∨ cpu = 1 := by
    change cpu < 2 at below
    omega
  rcases isZeroOrOne with rfl | rfl
  · rfl
  · rfl

def readerThenUpdaterExecution : (system twoCpus).Execution readerThenUpdater.length :=
  TransitionSystem.executionOf _ twoCpus_initial readerThenUpdater (.kick 0) (by decide)

theorem section_closed_readerThenUpdater :
    ∃ ended, 1 < ended ∧ ended < 23 ∧ ClosesSection readerThenUpdaterExecution 0 ended := by
  have opens : OpensSection readerThenUpdaterExecution 0 1 := ⟨by decide, by decide⟩
  have call : Synchronizes readerThenUpdaterExecution 1 3 23 :=
    ⟨by decide, by decide, by decide, by decide, by decide⟩
  exact section_closed_of_synchronize opens call (by decide) (by decide)

end LaOS.Rcu
