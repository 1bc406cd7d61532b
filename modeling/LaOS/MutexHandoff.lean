import LaOS.MutexOrder

/-!
# Handing a mutex over

Under the handoff policy `mutex_unlock` makes the first waiter the owner before it
releases `waiters.lock`, and the lock word stays taken in between.
-/

namespace LaOS.Mutex

open Option

variable {Id Thread : Type}

def GuardedPc.passes : GuardedPc Thread → Option Thread
  | .detach (.handOver next) | .detachStore (.handOver next)
  | .donate _ _ (.detach _ (.handOver next)) | .wake (some next) | .ready _ (some next)
  | .attach next .released => some next
  | _ => none

/-- The unlock of `id` by `unlocker` is going to make `next` the owner, or has
done so. -/
def Passing (id : Id) (unlocker next : Thread) (s : State Id Thread) : Prop :=
  ∃ pc, s.phase unlocker = .guarded id pc ∧
    (pc.passes = some next ∨ pc.ending = some .released ∧ (s.mutex id).owner = some next)

section Steps

variable {policy : Id → Policy} {s after : State Id Thread} {self next : Thread} {id : Id}

theorem Passing.owner (passing : Passing id self next s) (inv : OwnerInv policy s) :
    (s.mutex id).owner = some self ∨ (s.mutex id).owner = none ∨
      (s.mutex id).owner = some next := by
  obtain ⟨pc, selfAt, planned | ⟨-, done⟩⟩ := passing
  · have ok : OwnerOk (policy id) self (s.mutex id) pc :=
      inv.ok selfAt
    cases pc with
    | detach | detachStore => exact .inl ok.1
    | donate _ _ donation =>
      cases donation with
      | detach => exact .inl ok.1
      | refresh => cases planned
    | attach => exact .inr (.inl ok.1.2)
    | wake later | ready _ later =>
      cases later with
      | none => cases planned
      | some => exact .inr (.inl ok.1.2)
    | _ => cases planned
  · exact .inr (.inr done)

theorem Passing.owner_of_release (passing : Passing id self next s)
    (selfAt : s.phase self = .guarded id (.release .released)) :
    (s.mutex id).owner = some next := by
  obtain ⟨pc, pcAt, planned | ⟨-, done⟩⟩ := passing
  · cases selfAt.symm.trans pcAt
    cases planned
  · exact done

variable [DecidableEq Thread] {pc : GuardedPc Thread}

theorem Passing.intro_goto (plan : pc.passes = some next ∨
      pc.ending = some .released ∧ (s.mutex id).owner = some next) :
    Passing id self next (s.goto self (.guarded id pc)) :=
  ⟨pc, State.phase_goto_self, plan⟩

variable [DecidableEq Id]

theorem Passing.intro_store {fields : Fields Thread}
    (plan : pc.passes = some next ∨ pc.ending = some .released ∧ fields.owner = some next) :
    Passing id self next ((s.store id fields).goto self (.guarded id pc)) := by
  have stored : ((s.store id fields).goto self (.guarded id pc)).mutex id = fields :=
    Function.update_self _ _ _
  refine ⟨pc, State.phase_goto_self, ?_⟩
  rw [stored]
  exact plan

theorem Passing.execDonate {stage : PiStage} {target : Thread} {donation : Donation Thread}
    (selfAt : s.phase self = .guarded id (.donate stage target donation))
    (plan : (GuardedPc.donate stage target donation).passes = some next ∨
      (GuardedPc.donate stage target donation).ending = some .released ∧
        (s.mutex id).owner = some next)
    (ran : execDonate s self id target donation stage = some after) :
    Passing id self next after := by
  have kept : ∀ later, (GuardedPc.donate later target donation).passes = some next ∨
      (GuardedPc.donate later target donation).ending = some .released ∧
        (s.mutex id).owner = some next := by
    intro later
    cases donation with
    | refresh => exact plan
    | detach _ transfer =>
      cases transfer with
      | clear | handOver => exact plan
  cases stage with
  | acquire =>
    obtain ⟨-, ⟨⟩⟩ := ite_none_right_eq_some.mp ran
    exact .intro_goto (kept .update)
  | update =>
    simp only [LaOS.Mutex.execDonate] at ran
    split at ran <;> cases ran
    · exact ⟨_, selfAt, plan⟩
    · exact .intro_store (kept .apply)
  | apply =>
    cases ran
    exact .intro_goto (kept .release)
  | release =>
    cases ran
    refine .intro_goto ?_
    cases donation with
    | refresh => exact plan
    | detach _ transfer =>
      cases transfer with
      | clear | handOver => exact plan

theorem Passing.execGuarded (selfAt : s.phase self = .guarded id pc)
    (plan : pc.passes = some next ∨ pc.ending = some .released ∧ (s.mutex id).owner = some next)
    (ran : execGuarded policy s self id pc = some after)
    (remains : ∃ pc, after.phase self = .guarded id pc) : Passing id self next after := by
  cases pc with
  | donate stage target donation => exact .execDonate selfAt plan ran
  | attach owner ending =>
    rcases plan with planned | ⟨ended, -⟩
    · cases ending with
      | released =>
        cases ran
        cases planned
        exact .intro_store (.inr ⟨rfl, rfl⟩)
      | acquired | asleep => cases planned
    · cases ended
  | refresh ending =>
    rcases plan with planned | done
    · cases planned
    simp only [LaOS.Mutex.execGuarded] at ran
    split at ran
    · cases ran
      exact .intro_goto (.inr done)
    · split at ran <;> cases ran <;> exact .intro_goto (.inr done)
  | storeDonated priority ending =>
    cases ran
    exact .intro_store plan
  | release ending =>
    rcases plan with planned | ⟨ended, -⟩
    · cases planned
    cases ended
    cases ran
    obtain ⟨pc, still⟩ := remains
    cases State.phase_goto_self.symm.trans still
  | detach transfer =>
    rcases plan with planned | ⟨ended, -⟩
    · simp only [LaOS.Mutex.execGuarded] at ran
      cases transfer with
      | clear => cases planned
      | handOver =>
        split at ran <;> cases ran <;> exact .intro_goto (.inl planned)
    · cases ended
  | detachStore transfer =>
    rcases plan with planned | ⟨ended, -⟩
    · cases transfer with
      | clear => cases planned
      | handOver =>
        cases ran
        exact .intro_goto (.inl planned)
    · cases ended
  | wake later =>
    rcases plan with planned | ⟨ended, -⟩
    · cases later with
      | none => cases planned
      | some =>
        simp only [LaOS.Mutex.execGuarded] at ran
        split at ran <;> cases ran <;> exact .intro_goto (.inl planned)
    · cases ended
  | ready woken later =>
    rcases plan with planned | ⟨ended, -⟩
    · cases later with
      | none => cases planned
      | some =>
        cases ran
        exact .intro_goto (.inl planned)
    · cases ended
  | _ => rcases plan with planned | ⟨ended, -⟩ <;> contradiction

variable {action : Action Id Thread}

theorem step_inside (selfAt : s.phase self = .guarded id pc) (isSelf : action.thread = self)
    (ran : step policy s action = some after) :
    execGuarded policy s self id pc = some after ∨
      action = .dispatch self ∧ after.phase = s.phase ∧ after.mutex = s.mutex := by
  unfold step at ran
  split at ran
  · cases ran
  cases action with
  | exec t =>
    change t = self at isSelf
    subst isSelf
    obtain ⟨-, ran⟩ := ite_none_right_eq_some.mp ran
    rw [exec, selfAt] at ran
    exact .inl ran
  | callLock t | callUnlock t | callSetPriority t | preempt t =>
    change t = self at isSelf
    subst isSelf
    simp [selfAt, Phase.irqsOn] at ran
  | dispatch t =>
    subst isSelf
    obtain ⟨-, ⟨⟩⟩ := ite_none_right_eq_some.mp ran
    exact .inr ⟨rfl, rfl, rfl⟩

theorem Passing.step (passing : Passing id self next s) (inv : OwnerInv policy s)
    (ran : step policy s action = some after)
    (remains : ∃ pc, after.phase self = .guarded id pc) : Passing id self next after := by
  obtain ⟨pc, selfAt, plan⟩ := passing
  by_cases isSelf : action.thread = self
  · rcases step_inside selfAt isSelf ran with executed | ⟨-, phaseEq, mutexEq⟩
    · exact .execGuarded selfAt plan executed remains
    · exact ⟨pc, by rw [phaseEq]; exact selfAt, by rw [mutexEq]; exact plan⟩
  have effect := (step_views ran).moves
  refine ⟨pc, (effect.phase self (Ne.symm isSelf)).trans selfAt, ?_⟩
  have outside : ∀ otherPc, s.phase action.thread ≠ .guarded id otherPc := by
    intro otherPc otherAt
    exact isSelf (inv.exclusive selfAt otherAt)
  rw [(effect.protectedKept id outside).owner]
  exact plan

end Steps

section Executions

variable [DecidableEq Id] [DecidableEq Thread] {policy : Id → Policy} {length : Nat}

abbrev Run (policy : Id → Policy) (Thread : Type) [DecidableEq Thread] (length : Nat) :=
  (system policy : TransitionSystem (State Id Thread) (Action Id Thread)).Execution length

/-- At index `started` the unlock of `id` by `unlocker`, under `waiters.lock`,
looks at the wait list. -/
structure Unlocks (run : Run policy Thread length) (id : Id) (unlocker : Thread)
    (started : Nat) : Prop where
  withinRun : started < length
  performs : run.actions started = .exec unlocker
  branches : (run.states started).phase unlocker = .guarded id .branch

/-- After index `started` and up to `current` the thread has not released
`waiters.lock`. -/
def StaysInside (run : Run policy Thread length) (id : Id) (t : Thread)
    (started current : Nat) : Prop :=
  ∀ i ≤ current, started < i → ∃ pc, (run.states i).phase t = .guarded id pc

variable {run : Run policy Thread length} {id : Id} {unlocker next : Thread}
  {started current : Nat} {rest : List Thread}

theorem Unlocks.passing (unlock : Unlocks run id unlocker started)
    (isHandoff : policy id = .handoff)
    (first : ((run.states started).mutex id).waiters = next :: rest) :
    Passing id unlocker next (run.states (started + 1)) := by
  have ran : step policy _ _ = some _ := run.steps started unlock.withinRun
  rw [unlock.performs] at ran
  rcases step_inside unlock.branches rfl ran with executed | ⟨isDispatch, -⟩
  · simp only [execGuarded, isHandoff, first, some.injEq] at executed
    rw [← executed]
    exact .intro_goto (.inl rfl)
  · cases isDispatch

theorem Unlocks.passing_until (unlock : Unlocks run id unlocker started)
    (isHandoff : policy id = .handoff)
    (first : ((run.states started).mutex id).waiters = next :: rest)
    (later : started < current) (withinRun : current ≤ length)
    (inside : StaysInside run id unlocker started current) :
    Passing id unlocker next (run.states current) := by
  refine run.along (Passing id unlocker next) later withinRun
    (unlock.passing isHandoff first) ?_
  intro i above below reached passing ran
  exact passing.step (ownerInv_of_reachable reached) ran
    (inside (i + 1) (by omega) (by omega))

/-- While the priorities of waiting threads stay, a free lock word means an empty wait list, and
an unlock passes a handoff mutex to the first thread of least priority. -/
theorem handoff_no_barging (run : Run policy Thread length) (id : Id)
    (steady : ∀ i < length,
      KeepsWaiters policy (run.states i) (run.actions i))
    (isHandoff : policy id = .handoff) :
    (∀ i ≤ length, ((run.states i).mutex id).waitersLock = none →
      ((run.states i).mutex id).locked = false →
        ((run.states i).mutex id).waiters = []) ∧
    ∀ unlocker started, Unlocks run id unlocker started →
      ((run.states started).mutex id).waiters ≠ [] →
      ∃ next ∈ ((run.states started).mutex id).waiters,
        (∀ other ∈ ((run.states started).mutex id).waiters, other ≠ next →
          (run.states started).Before next other) ∧ ∀ current ≤ length, started < current →
          StaysInside run id unlocker started current →
          (((run.states current).mutex id).owner = some unlocker ∨
            ((run.states current).mutex id).owner = none ∨
            ((run.states current).mutex id).owner = some next) ∧
          ((run.states current).phase unlocker = .guarded id (.release .released) →
            ((run.states current).mutex id).owner = some next) := by
  refine ⟨?_, ?_⟩
  · intro i withinRun _ unlocked
    by_contra waiting
    have inv := queueInv_of_reachable (run.reachable i withinRun)
    rcases inv.stays id waiting with locked | ⟨isRaw, -⟩
    · rw [unlocked] at locked
      cases locked
    · rw [isHandoff] at isRaw
      cases isRaw
  intro unlocker started unlock waiting
  obtain ⟨next, rest, first⟩ := List.exists_cons_of_ne_nil waiting
  have order := orderInv_of_reachable
    (run.reachableWhere steady started (Nat.le_of_lt unlock.withinRun))
  have sorted := order.sorted id
  rw [first] at sorted
  refine ⟨next, by simp [first], ?_, ?_⟩
  · intro other mem ne
    rw [first] at mem
    rcases List.mem_cons.mp mem with isNext | inRest
    · exact absurd isNext ne
    · exact List.rel_of_pairwise_cons sorted inRest
  · intro current withinRun later inside
    have passing := unlock.passing_until isHandoff first later withinRun inside
    exact ⟨passing.owner (ownerInv_of_reachable (run.reachable current withinRun)),
      passing.owner_of_release⟩

end Executions

/-- Thread 0 locks a handoff mutex, threads 1 and 2 queue up, thread 2 with the
higher priority, and thread 0 unlocks. -/
def contendedHandoff : List (Action Unit (Fin 3)) :=
  List.flatten
    [[.dispatch 0, .dispatch 1, .dispatch 2], .callLock 0 () :: List.replicate 7 (.exec 0),
      .callLock 1 () :: List.replicate 15 (.exec 1),
      .callLock 2 () :: List.replicate 15 (.exec 2),
      .callUnlock 0 () :: List.replicate 18 (.exec 0)]

def contendedHandoffRun : Run (fun _ : Unit => .handoff) (Fin 3) contendedHandoff.length :=
  TransitionSystem.executionOf
    (initialState fun t => if t = 0 then 32 else if t = 1 then 40 else 10)
    (initial_initialState _) contendedHandoff (.preempt 0) (by decide +kernel)

theorem contendedHandoff_inside : StaysInside contendedHandoffRun () 0 46 62 := by
  have pos : ∀ i ≤ 62, 46 < i →
      ((contendedHandoffRun.states i).position 0).isSome = true := by
    decide +kernel
  intro i below above
  have isGuarded := pos i below above
  unfold State.position at isGuarded
  cases phaseEq : (contendedHandoffRun.states i).phase 0 with
  | guarded => exact ⟨_, rfl⟩
  | _ =>
    rw [phaseEq] at isGuarded
    cases isGuarded

theorem handoff_no_barging_contendedHandoff :
    ((contendedHandoffRun.states 46).mutex ()).waiters = [2, 1] ∧
      ∃ next, ((contendedHandoffRun.states 62).mutex ()).owner = some next ∧
        ∀ other ∈ [2, 1], other ≠ next → (contendedHandoffRun.states 46).Before next other := by
  have queued : ((contendedHandoffRun.states 46).mutex ()).waiters = [2, 1] := by
    decide +kernel
  have steady : ∀ i < contendedHandoff.length, KeepsWaiters (fun _ => .handoff)
      (contendedHandoffRun.states i) (contendedHandoffRun.actions i) := by
    decide +kernel
  have unlock : Unlocks contendedHandoffRun () 0 46 :=
    ⟨by decide, by decide +kernel, by decide +kernel⟩
  obtain ⟨next, -, least, owner⟩ :=
    (handoff_no_barging contendedHandoffRun () steady rfl).2 0 46 unlock (by simp [queued])
  refine ⟨queued, next, ?_, ?_⟩
  · exact (owner 62 (by decide) (by decide) contendedHandoff_inside).2 (by decide +kernel)
  · rw [queued] at least
    exact least

/-- Threads 1 and 2 queue up for the mutex `false` of thread 0. Thread 2, which owns the
mutex `true`, has passed thread 1 in its scan when thread 3 donates to it. -/
def donatedDuringScan : List (Action Bool (Fin 4)) :=
  List.flatten
    [[.dispatch 0, .dispatch 1, .dispatch 2, .dispatch 3],
      .callLock 0 false :: List.replicate 7 (.exec 0),
      .callLock 2 true :: List.replicate 7 (.exec 2),
      .callLock 1 false :: List.replicate 15 (.exec 1),
      .callLock 2 false :: List.replicate 8 (.exec 2),
      .callLock 3 true :: List.replicate 15 (.exec 3), List.replicate 3 (.exec 2),
      .callUnlock 0 false :: List.replicate 18 (.exec 0)]

def donatedDuringScanRun :
    Run (fun _ : Bool => .handoff) (Fin 4) donatedDuringScan.length :=
  TransitionSystem.executionOf
    (initialState fun t =>
      if t = 0 then 20 else if t = 1 then 30 else if t = 2 then 40 else 10)
    (initial_initialState _) donatedDuringScan (.preempt 0) (by decide +kernel)

/-- No linked thread changes its priority in the whole run, yet the waiter of the best
priority is overtaken: its donation came before it was linked. -/
theorem donatedDuringScan_overtaken :
    (∀ i < donatedDuringScan.length, ∀ t,
        (donatedDuringScanRun.states i).linked t = true →
          (donatedDuringScanRun.states (i + 1)).priority t =
            (donatedDuringScanRun.states i).priority t) ∧
      Unlocks donatedDuringScanRun false 0 67 ∧
      ((donatedDuringScanRun.states 67).mutex false).waiters = [1, 2] ∧
      (donatedDuringScanRun.states 67).priority 2 < (donatedDuringScanRun.states 67).priority 1 ∧
      (donatedDuringScanRun.states 83).phase 0 = .guarded false (.release .released) ∧
      ((donatedDuringScanRun.states 83).mutex false).owner = some 1 := by
  refine ⟨?_, ⟨?_, ?_, ?_⟩, ?_⟩ <;> decide +kernel

end LaOS.Mutex
