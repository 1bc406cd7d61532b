import LaOS.RcuPreservation

/-!
# The RCU invariant holds in every reachable state

The accesses of task code, of the timer interrupt and of `__schedule` keep the
invariant, because each of them is a composition of elementary updates.
-/

namespace LaOS.Rcu

open Option

section Accesses

variable {Thread : Type} {cfg : Config Thread} {s after : State Thread} {cpu : Nat}

theorem Inv.pending_increment (inv : Inv cfg s) :
    Pending cfg s.incrementGpSeq.toReaders s.incrementGpSeq.gpSeq 0 := by
  intro _
  refine ⟨s.incrementGpSeq.gpStarted, Nat.le_refl _, inv.incrementGpSeq.sequence, ?_⟩
  omega

/-- `rcu_blocked` is set, so the thread is listed or has left its section and
is about to clear the flag. -/
theorem Inv.noted_of_blocked (inv : Inv cfg s) {t : Thread}
    (blocked : s.rcuBlocked t = true) : Noted s.toReaders t := by
  rcases inv.listed t blocked with mem | removed
  · exact fun _ => mem
  have ok := inv.tasks t
  intro inside
  cases pcEq : s.pc t with
  | unlockSpinRelease | unlockPreemptEnable | unlockIrqRestore | unlockClear =>
    rw [pcEq] at ok
    exact absurd ok (Nat.ne_of_gt inside)
  | _ => simp [pcEq, TaskPc.delisted] at removed

variable [DecidableEq Thread]

theorem Inv.unobserved_setPc (inv : Inv cfg s) (onCpu : cfg.hasCpu cpu)
    (inTask : s.mode cpu = .task) (unframed : s.frames (s.current cpu) = [])
    {pc : TaskPc} (anyReaders : ∀ readers, PcOk cfg readers (s.current cpu) pc) :
    Unobserved cfg (s.setPc (s.current cpu) pc) (s.current cpu) where
  running := congrArg s.current (inv.pinned cpu onCpu)
  inTask := (congrArg s.mode (inv.pinned cpu onCpu)).trans inTask
  unframed := unframed
  anyReaders := by simpa [State.setPc] using anyReaders

theorem Inv.execTask (inv : Inv cfg s) (onCpu : cfg.hasCpu cpu)
    (inTask : s.mode cpu = .task) {stalled : Bool}
    (ran : execTask cfg s cpu stalled = some after) : Inv cfg after := by
  have ok := inv.tasks (s.current cpu)
  have listed := inv.listed (s.current cpu)
  have unframed : s.frames (s.current cpu) = [] := by
    have modeOk := inv.modes cpu onCpu
    rw [inTask] at modeOk
    exact modeOk
  have nested : Nested (.task :: s.frames (s.current cpu)) := unframed
  have framed : ∀ next, (Frame.task : Frame Thread) = .note next →
      Noted s.toReaders (s.current cpu) ∧ cfg.cpuOf next = cpu :=
    fun next impossible => by cases impossible
  simp only [Rcu.execTask] at ran
  generalize pcEq : s.pc (s.current cpu) = pc at ok listed ran
  cases pc with
  | user => cases ran
  | lockStore nesting =>
    cases ran
    exact (inv.setPc .user trivial listed).storeNesting
      (inv.unobserved_setPc onCpu inTask unframed fun _ => trivial)
  | unlockStore nesting =>
    cases ran
    exact (inv.setPc .unlockTest trivial listed).storeNesting
      (inv.unobserved_setPc onCpu inTask unframed fun _ => trivial)
  | unlockTest =>
    cases ran
    by_cases outside : s.nesting (s.current cpu) = 0
    · rw [if_pos outside]
      exact inv.setPc _ outside listed
    · rw [if_neg outside]
      exact inv.setPc _ trivial listed
  | unlockBlocked =>
    cases ran
    by_cases blocked : s.rcuBlocked (s.current cpu) = true
    · rw [if_pos blocked]
      exact inv.setPc _ ok listed
    · rw [if_neg blocked]
      exact inv.setPc _ ok listed
  | unlockIrqSave | syncStall target =>
    cases ran
    exact inv.setPc _ ok listed
  | unlockPreemptDisable | syncPreemptDisable target report =>
    cases ran
    exact (inv.preemptDisable cpu).setPc _ ok listed
  | unlockSpin | syncSpin target report =>
    obtain ⟨locked, acquired, rfl⟩ := map_eq_some_iff.mp ran
    obtain ⟨_, rfl⟩ := State.spinLock_eq_some.mp acquired
    exact (inv.storeBlockedLock true).setPc _ ok listed
  | unlockListDel =>
    cases ran
    refine (inv.setPc .unlockSpinRelease ok fun _ => .inr rfl).listDel ok ?_
    simp [State.setPc, TaskPc.delisted]
  | unlockSpinRelease =>
    cases ran
    exact (inv.storeBlockedLock false).setPc _ ok fun _ => .inr rfl
  | unlockPreemptEnable =>
    exact (inv.setPc .unlockIrqRestore ok fun _ => .inr rfl).preemptEnable onCpu
      nested framed ran
  | unlockIrqRestore =>
    cases ran
    exact inv.setPc _ ok fun _ => .inr rfl
  | unlockClear =>
    cases ran
    refine (inv.storeBlocked (by simp)).setPc _ ok ?_
    simp [State.storeBlocked]
  | unlockRead =>
    cases ran
    refine inv.setPc _ ?_ listed
    rw [PcOk, inv.pinned cpu onCpu]
    exact inv.certified_of_quiescent ok
  | unlockReport seq =>
    cases ran
    rw [PcOk, inv.pinned cpu onCpu] at ok
    exact (inv.storeSeen ok).setPc _ trivial listed
  | syncIncrement =>
    cases ran
    exact inv.incrementGpSeq.setPc _ inv.pending_increment listed
  | syncScan target i =>
    simp only at ran
    split at ran
    next below =>
      split at ran <;> cases ran
      next waits => exact inv.callSchedule onCpu false nested framed
      next passed =>
        refine inv.setPc _ (Pending.scanned ok (inv.seen i) ?_) listed
        simpa using passed
    next complete =>
      cases ran
      exact inv.setPc _ (Pending.mono ok (Nat.le_of_not_lt complete)) listed
  | syncList target report =>
    cases ran
    refine inv.setPc _ ⟨ok, fun _ empty => Pending.finished ok ?_⟩ listed
    exact List.isEmpty_iff.mp empty
  | syncSpinRelease target report empty =>
    cases ran
    exact (inv.storeBlockedLock false).setPc _ ok listed
  | syncPreemptEnable target report empty =>
    exact (inv.setPc (.syncDecide target report empty) ok listed).preemptEnable onCpu
      nested framed ran
  | syncDecide target report empty =>
    simp only at ran
    split at ran
    · cases ran
      exact inv.setPc _ ok.1 listed
    split at ran <;> cases ran
    · exact inv.setPc _ trivial listed
    · exact (inv.setPc (.syncStall target) ok.1 listed).callSchedule onCpu false
        nested framed

theorem Inv.execKernel (inv : Inv cfg s) (onCpu : cfg.hasCpu cpu) {chosen : Thread}
    (ran : execKernel cfg s cpu chosen = some after) : Inv cfg after := by
  have ok := inv.modes cpu onCpu
  have target := inv.targets cpu
  simp only [Rcu.execKernel] at ran
  generalize modeEq : s.mode cpu = mode at ok target ran
  cases mode with
  | task => cases ran
  | tickTest =>
    cases ran
    by_cases outside : s.nesting (s.current cpu) = 0
    · rw [if_pos outside]
      exact inv.setMode ⟨ok, outside⟩ target
    · rw [if_neg outside]
      exact inv.setMode ok target
  | tickRead =>
    cases ran
    exact inv.setMode ⟨ok.1, inv.certified_of_quiescent ok.2⟩ target
  | tickStore seq | noteStore next seq =>
    cases ran
    exact (inv.storeSeen ok.2).setMode ok.1 target
  | irqReturn =>
    simp only at ran
    split at ran <;> cases ran
    · exact inv.callSchedule onCpu true ok fun next impossible => by cases impossible
    · exact inv.setMode ok target
  | enter preemptive =>
    simp only at ran
    split at ran
    · cases ran
      exact (inv.storeNeedResched cpu false).setMode trivial target
    · split at ran <;> cases ran
      exact inv.leaveSchedule onCpu
  | pick =>
    simp only at ran
    split at ran
    next chosenOn =>
      split at ran <;> cases ran
      · exact inv.leaveSchedule onCpu
      refine inv.setMode trivial ?_
      intro next nextEq
      cases nextEq
      exact chosenOn
    next elsewhere => cases ran
  | noteTest next =>
    cases ran
    by_cases inside : 0 < s.nesting (s.current cpu)
    · rw [if_pos inside]
      exact inv.setMode trivial target
    · rw [if_neg inside]
      exact inv.setMode (Nat.eq_zero_of_not_pos inside) target
  | noteRead next =>
    cases ran
    refine inv.setMode ⟨?_, inv.certified_of_quiescent ok⟩ target
    intro inside
    exact absurd ok (Nat.ne_of_gt inside)
  | notePreemptDisable next =>
    cases ran
    exact (inv.preemptDisable cpu).setMode trivial target
  | noteSpin next =>
    obtain ⟨locked, acquired, rfl⟩ := map_eq_some_iff.mp ran
    obtain ⟨_, rfl⟩ := State.spinLock_eq_some.mp acquired
    exact (inv.storeBlockedLock true).setMode trivial target
  | noteList next =>
    simp only at ran
    split at ran <;> cases ran
    next blocked => exact inv.setMode (inv.noted_of_blocked blocked) target
    next fresh =>
      have added := inv.listAdd (s.current cpu)
      have mem : s.current cpu ∈ (s.listAdd (s.current cpu)).blockedTasks :=
        List.mem_cons_self
      exact (added.storeBlocked fun _ => mem).setMode (fun _ => mem) target
  | noteSpinRelease next =>
    cases ran
    exact (inv.storeBlockedLock false).setMode ok target
  | notePreemptEnable next =>
    have switching : Inv cfg (s.setMode cpu (.switch next)) := inv.setMode ok target
    have nested : Nested (.note next :: s.frames (s.current cpu)) :=
      inv.nested (s.current cpu)
    refine switching.preemptEnable onCpu nested ?_ ran
    intro other otherEq
    cases otherEq
    exact ⟨ok, target next rfl⟩
  | switch next =>
    cases ran
    exact (inv.storeCurrent onCpu modeEq).leaveSchedule onCpu

theorem Inv.execCall (inv : Inv cfg s) (onCpu : cfg.hasCpu cpu)
    (inTask : s.mode cpu = .task) (inUser : s.pc (s.current cpu) = .user)
    {call : Call} (ran : execCall s cpu call = some after) : Inv cfg after := by
  have listed := inv.listed (s.current cpu)
  rw [inUser] at listed
  have nested : Nested (.task :: s.frames (s.current cpu)) := by
    have modeOk := inv.modes cpu onCpu
    rw [inTask] at modeOk
    exact modeOk
  cases call with
  | rcuReadLock =>
    cases ran
    exact inv.setPc _ rfl listed
  | rcuReadUnlock =>
    obtain ⟨-, ⟨⟩⟩ := ite_none_right_eq_some.mp ran
    exact inv.setPc _ rfl listed
  | synchronizeRcu =>
    cases ran
    exact inv.setPc _ trivial listed
  | schedule =>
    cases ran
    exact inv.callSchedule onCpu false nested fun next impossible => by cases impossible
  | preemptDisable =>
    cases ran
    exact inv.preemptDisable cpu
  | preemptEnable =>
    exact inv.preemptEnable onCpu nested (fun next impossible => by cases impossible) ran

end Accesses

section Runs

variable {Thread : Type} {cfg : Config Thread} {s after : State Thread}

theorem inv_bootState {current : Nat → Thread}
    (pinned : ∀ cpu, cfg.hasCpu cpu → cfg.cpuOf (current cpu) = cpu) :
    Inv cfg (bootState current) where
  pinned := pinned
  sequence := rfl
  tasks _ := trivial
  modes _ _ := rfl
  targets _ _ impossible := by cases impossible
  nested _ := trivial
  listed _ impossible := by cases impossible
  switched _ _ inside := absurd inside (Nat.lt_irrefl 0)
  framed _ _ impossible := by cases impossible
  seen _ := ⟨0, Nat.le_refl 0, rfl, fun _ _ older => absurd older (Nat.not_lt_zero _)⟩

variable [DecidableEq Thread]

theorem Inv.step (inv : Inv cfg s) {action : Action Thread}
    (ran : step cfg s action = some after) : Inv cfg after := by
  cases action with
  | call cpu call =>
    obtain ⟨guards, ran⟩ := ite_none_right_eq_some.mp ran
    exact inv.execCall guards.1 guards.2.1 guards.2.2 ran
  | exec cpu chosen stalled =>
    obtain ⟨onCpu, ran⟩ := ite_none_right_eq_some.mp ran
    split at ran
    next inTask => exact inv.execTask onCpu inTask ran
    next => exact inv.execKernel onCpu ran
  | tick cpu resched =>
    obtain ⟨guards, ⟨⟩⟩ := ite_none_right_eq_some.mp ran
    have modeOk := inv.modes cpu guards.1
    rw [guards.2.1] at modeOk
    exact (inv.storeNeedResched cpu _).setMode modeOk
      fun next impossible => by cases impossible
  | kick cpu =>
    cases ran
    exact inv.storeNeedResched cpu true

theorem inv_of_reachable (reached : (system cfg).Reachable s) : Inv cfg s := by
  refine reached.invariant ?_ fun _ _ _ _ inv ran => inv.step ran
  rintro first ⟨current, pinned, rfl⟩
  exact inv_bootState pinned

end Runs

end LaOS.Rcu
