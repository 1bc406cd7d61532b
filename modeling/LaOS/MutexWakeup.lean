import LaOS.MutexWaitList

/-!
# No lost wake-up

Every step keeps the queue invariant, so a nonempty wait list has a taken lock word or a
woken thread on its way back to it.
-/

namespace LaOS.Mutex

open Option

section Instructions

variable {Id Thread : Type} {policy : Id → Policy} {s after : State Id Thread} {self : Thread}
  {id : Id} {pc : LockPc}

theorem QueueInv.awake_of_lock (inv : QueueInv policy s)
    (selfAt : s.phase self = .lock id pc) (running : s.onCpu self = true)
    (unscheduled : pc ≠ .sched) : s.status self ≠ .blocked := by
  by_cases atTop : pc = (policy id).loopTop
  · intro blocked
    have parked := inv.parked self id (by rw [selfAt, atTop]) blocked
    rw [running] at parked
    cases parked
  refine inv.awake ?_ (by simp [selfAt])
  intro other sleeps
  rw [selfAt] at sleeps
  obtain ⟨rfl, atSched | atLoop⟩ := sleeps
  · exact unscheduled atSched
  · exact atTop atLoop

theorem QueueInv.token_of_lock (inv : QueueInv policy s) {other : Id}
    (selfAt : s.phase self = .lock id pc) (token : s.woken self = some other) :
    other = id ∧ policy id = .raw ∧ (pc = .sched ∨ pc = .tryLock) := by
  obtain ⟨isRaw, _, atSched | atTop⟩ := inv.tokens self other token
  · rw [selfAt] at atSched
    cases atSched
    exact ⟨rfl, isRaw, .inl rfl⟩
  · rw [selfAt] at atTop
    cases atTop
    exact ⟨rfl, isRaw, .inr rfl⟩

theorem QueueInv.tokenless_of_lock (inv : QueueInv policy s)
    (selfAt : s.phase self = .lock id pc) (unscheduled : pc ≠ .sched)
    (notTop : pc ≠ .tryLock) : s.woken self = none := by
  cases token : s.woken self with
  | none => rfl
  | some other =>
    rcases (inv.token_of_lock selfAt token).2.2 with atSched | atTop
    · exact absurd atSched unscheduled
    · exact absurd atTop notTop

theorem sleepless_of_guarded {pc : GuardedPc Thread} (selfAt : s.phase self = .guarded id pc)
    (stays : pc.fallsAsleep = false) (other : Id) : ¬ (s.phase self).Sleeps policy other := by
  intro sleeps
  rw [selfAt] at sleeps
  obtain ⟨_, falls⟩ := sleeps
  rw [stays] at falls
  cases falls

theorem QueueInv.awake_of_guarded (inv : QueueInv policy s) {pc : GuardedPc Thread}
    (selfAt : s.phase self = .guarded id pc) (stays : pc.fallsAsleep = false)
    (settled : (Phase.guarded id pc).transient = false) : s.status self ≠ .blocked := by
  refine inv.awake (sleepless_of_guarded selfAt stays) ?_
  intro other i inserting
  rw [← selfAt, inserting] at settled
  cases settled

theorem QueueInv.queued_outside (inv : QueueInv policy s) (owner : OwnerInv policy s)
    {pc : GuardedPc Thread} (selfAt : s.phase self = .guarded id pc)
    (stays : pc.fallsAsleep = false) {t : Thread}
    (mem : t ∈ (s.mutex id).waiters) : ∃ lockPc, s.phase t = .lock id lockPc ∧
      (lockPc = .sched ∨ lockPc = (policy id).loopTop) := by
  have sleeps := (inv.queued id t mem).2.2
  cases phaseEq : s.phase t with
  | lock other lockPc =>
    rw [phaseEq] at sleeps
    obtain ⟨rfl, place⟩ := sleeps
    exact ⟨lockPc, rfl, place⟩
  | guarded other otherPc =>
    have same : t = self := by
      rw [phaseEq] at sleeps
      obtain ⟨rfl, _⟩ := sleeps
      exact owner.exclusive selfAt phaseEq
    subst same
    exact absurd sleeps (sleepless_of_guarded selfAt stays id)
  | _ =>
    rw [phaseEq] at sleeps
    exact sleeps.elim

variable [DecidableEq Thread] {target : Thread} {stage : PiStage}

section

variable (inv : QueueInv policy s)

include inv

theorem QueueInv.nextInsert {i : Nat}
    (selfAt : s.phase self = .guarded id (.insert i)) :
    QueueInv policy (s.goto self (.guarded id (.insert (i + 1)))) := by
  refine inv.goto ?_ (by simp) ?_ (by simp) ?_ ?_ (by simp [selfAt])
  · intro _ other sleeps
    exact absurd sleeps (sleepless_of_guarded selfAt rfl other)
  · intro other place _
    exact inv.inserting self id i selfAt
  · intro t blocked isPending
    by_cases isSelf : t = self
    · subst isSelf
      exact .inr (.inl ⟨id, i + 1, State.phase_goto_self⟩)
    · exact .inr (isPending.goto (by simp [selfAt]) fun same => absurd same isSelf)
  · intro other token
    rw [inv.tokenless (sleepless_of_guarded selfAt rfl)] at token
    cases token

theorem QueueInv.goto_lock (selfAt : s.phase self = .lock id pc)
    (running : s.onCpu self = true)
    (unscheduled : pc ≠ .sched) (notTop : pc ≠ .tryLock) {phase : Phase Id Thread}
    (plain : phase.transient = false) : QueueInv policy (s.goto self phase) :=
  inv.goto_uninvolved (inv.awake_of_lock selfAt running unscheduled)
    (inv.tokenless_of_lock selfAt unscheduled notTop) (by rw [selfAt]; rfl) plain

theorem QueueInv.goto_sleepless {pc : GuardedPc Thread}
    (selfAt : s.phase self = .guarded id pc) (stays : pc.fallsAsleep = false)
    (settled : (Phase.guarded id pc).transient = false)
    (uninvolved : (Phase.guarded id pc).wakes = false) {phase : Phase Id Thread}
    (plain : phase.transient = false) : QueueInv policy (s.goto self phase) :=
  inv.goto_uninvolved (inv.awake_of_guarded selfAt stays settled)
    (inv.tokenless (sleepless_of_guarded selfAt stays)) (by rw [selfAt]; exact uninvolved) plain

theorem QueueInv.goto_guarded {pc next : GuardedPc Thread}
    (selfAt : s.phase self = .guarded id pc) (same : next.fallsAsleep = pc.fallsAsleep)
    (settled : (Phase.guarded id pc).transient = false)
    (uninvolved : (Phase.guarded id pc).wakes = false)
    (plain : (Phase.guarded id next).transient = false) :
    QueueInv policy (s.goto self (.guarded id next)) := by
  cases falls : pc.fallsAsleep with
  | true => exact inv.goto_asleep selfAt falls ⟨rfl, same.trans falls⟩ (by simp)
  | false => exact inv.goto_sleepless selfAt falls settled uninvolved plain

theorem QueueInv.sched (selfAt : s.phase self = .lock id .sched) :
    QueueInv policy ((s.leaveCpu self).goto self (.lock id (policy id).loopTop)) := by
  have left : QueueInv policy (s.leaveCpu self) := inv.leaveCpu
  have leftAt : (s.leaveCpu self).phase self = .lock id .sched := selfAt
  refine left.goto ?_ ?_ ?_ ?_ ?_ ?_ ?_
  · intro _ other sleeps
    rw [leftAt] at sleeps
    obtain ⟨rfl, _⟩ := sleeps
    exact ⟨rfl, .inr rfl⟩
  · simp
  · simp
  · intro other _ _
    exact Function.update_self _ _ _
  · intro t _ isPending
    exact .inr (isPending.goto (by simp [leftAt]) (by simp [leftAt]))
  · intro other token
    obtain ⟨rfl, isRaw, _⟩ := left.token_of_lock leftAt token
    right
    rw [isRaw]
    rfl
  · simp [leftAt]

theorem QueueInv.goto_elsewhere (mutexless : (s.phase self).mutex = none)
    {phase : Phase Id Thread}
    (plain : phase.transient = false) : QueueInv policy (s.goto self phase) := by
  have sleepless : ∀ other, ¬ (s.phase self).Sleeps policy other := by
    intro other sleeps
    cases phaseEq : s.phase self with
    | lock | unlock | guarded => simp [phaseEq, Phase.mutex] at mutexless
    | _ => simp [phaseEq, Phase.Sleeps] at sleeps
  refine inv.goto_uninvolved (inv.awake sleepless ?_) (inv.tokenless sleepless) ?_ plain
  · intro other i inserting
    simp [inserting, Phase.mutex] at mutexless
  · cases phaseEq : s.phase self with
    | guarded => simp [phaseEq, Phase.mutex] at mutexless
    | _ => rfl

theorem QueueInv.execSetPriority {prio : Nat}
    (selfAt : s.phase self = .setPriority target prio)
    (ran : execSetPriority s self target prio = some after) : QueueInv policy after := by
  have mutexless : (s.phase self).mutex = none := by rw [selfAt]; rfl
  simp only [Mutex.execSetPriority] at ran
  split at ran
  · split at ran <;> cases ran <;> exact inv.goto_elsewhere mutexless rfl
  · cases ran
    exact inv.goto_elsewhere mutexless rfl

theorem QueueInv.execSetBase {prio : Priority}
    (selfAt : s.phase self = .setBase stage target prio)
    (ran : execSetBase s self target prio stage = some after) :
    QueueInv policy after := by
  have mutexless : (s.phase self).mutex = none := by rw [selfAt]; rfl
  cases stage with
  | acquire =>
    obtain ⟨-, ⟨⟩⟩ := ite_none_right_eq_some.mp ran
    have locked : QueueInv policy (s.storePiLock target (some self)) := { inv with }
    exact locked.goto_elsewhere mutexless rfl
  | update =>
    cases ran
    have stored : QueueInv policy (s.storeBase target prio) := { inv with }
    exact stored.goto_elsewhere mutexless rfl
  | apply =>
    cases ran
    have applied : QueueInv policy (s.applyEffectivePriority target) := { inv with }
    exact applied.goto_elsewhere mutexless rfl
  | release =>
    cases ran
    have unlocked : QueueInv policy (s.storePiLock target none) := { inv with }
    exact unlocked.goto_elsewhere mutexless rfl

end

variable [DecidableEq Id]

section

variable (inv : QueueInv policy s)

include inv

theorem QueueInv.lockWaiters {next : GuardedPc Thread}
    (ran : s.lockWaiters self id next = some after)
    (awake : s.status self ≠ .blocked) (tokenless : s.woken self = none)
    (uninvolved : (s.phase self).wakes = false)
    (plain : (Phase.guarded id next).transient = false) : QueueInv policy after := by
  obtain ⟨-, ⟨⟩⟩ := ite_none_right_eq_some.mp ran
  have stored : QueueInv policy
      (s.store id { s.mutex id with waitersLock := some self }) :=
    inv.store_keep rfl rfl rfl
  exact stored.goto_uninvolved awake tokenless uninvolved plain

theorem QueueInv.execLock (selfAt : s.phase self = .lock id pc)
    (running : s.onCpu self = true)
    (ran : execLock policy s self id pc = some after) : QueueInv policy after := by
  have uninvolved : (s.phase self).wakes = false := by rw [selfAt]; rfl
  cases pc with
  | tryLock | enterTry =>
    cases ran
    exact inv.atomicTryLock (inv.awake_of_lock selfAt running (by simp))
      (fun other token => (inv.token_of_lock selfAt token).1) uninvolved rfl rfl
  | enter | loop =>
    simp only [Mutex.execLock] at ran
    split at ran <;> cases ran
    · have held : QueueInv policy (s.storeHeld self id true) := { inv with }
      exact held.goto_lock selfAt running (by simp) (by simp) rfl
    · exact inv.goto_lock selfAt running (by simp) (by simp) rfl
  | enterNull =>
    simp only [Mutex.execLock] at ran
    split at ran <;> cases ran <;> exact inv.goto_lock selfAt running (by simp) (by simp) rfl
  | slowAcquire =>
    refine inv.lockWaiters ran (inv.awake_of_lock selfAt running (by simp))
      (inv.tokenless_of_lock selfAt (by simp) (by simp)) uninvolved ?_
    cases policy id with
    | raw => rfl
    | handoff => rfl
  | attachAcquire =>
    exact inv.lockWaiters ran (inv.awake_of_lock selfAt running (by simp))
      (inv.tokenless_of_lock selfAt (by simp) (by simp)) uninvolved rfl
  | sched =>
    cases ran
    exact inv.sched selfAt

theorem QueueInv.execUnlock {pc : UnlockPc} (selfAt : s.phase self = .unlock id pc)
    (ran : execUnlock s self id pc = some after) : QueueInv policy after := by
  have uninvolved : (s.phase self).wakes = false := by rw [selfAt]; rfl
  have sleepless : ∀ other, ¬ (s.phase self).Sleeps policy other := by
    rw [selfAt]
    exact fun other sleeps => sleeps
  have awake := inv.awake sleepless (by simp [selfAt])
  cases pc with
  | checkOwner =>
    cases ran
    have checked : ∀ condition, QueueInv policy (s.warnOn condition) :=
      fun condition => { inv with }
    exact (checked _).goto_uninvolved awake (inv.tokenless sleepless) uninvolved rfl
  | acquire => exact inv.lockWaiters ran awake (inv.tokenless sleepless) uninvolved rfl

theorem QueueInv.execDonate {donation : Donation Thread}
    (selfAt : s.phase self = .guarded id (.donate stage target donation))
    (ran : execDonate s self id target donation stage = some after) :
    QueueInv policy after := by
  have same : ∀ other, (GuardedPc.donate other target donation).fallsAsleep =
      (GuardedPc.donate stage target donation).fallsAsleep := by
    intro other
    cases donation with
    | refresh => rfl
    | detach => rfl
  cases stage with
  | acquire =>
    obtain ⟨-, ⟨⟩⟩ := ite_none_right_eq_some.mp ran
    have locked : QueueInv policy (s.storePiLock target (some self)) := { inv with }
    exact locked.goto_guarded selfAt (same .update) rfl rfl rfl
  | update =>
    simp only [Mutex.execDonate] at ran
    split at ran <;> cases ran
    next => exact { inv with }
    next donations _ =>
      have donated : QueueInv policy (s.storeDonations target donations) := { inv with }
      have credited : QueueInv policy ((s.storeDonations target donations).store id
          { s.mutex id with
            credit := donation.new.map fun prio => (target, prio) }) :=
        donated.store_keep rfl rfl rfl
      exact credited.goto_guarded selfAt (same .apply) rfl rfl rfl
  | apply =>
    cases ran
    have applied : QueueInv policy (s.applyEffectivePriority target) := { inv with }
    exact applied.goto_guarded selfAt (same .release) rfl rfl rfl
  | release =>
    cases ran
    have unlocked : QueueInv policy (s.storePiLock target none) := { inv with }
    cases donation with
    | refresh | detach => exact unlocked.goto_guarded selfAt rfl rfl rfl rfl

theorem QueueInv.wake (owner : OwnerInv policy s)
    {next : Option Thread} {woken : Thread} {rest : List Thread}
    (selfAt : s.phase self = .guarded id (.wake next))
    (first : (s.mutex id).waiters = woken :: rest) :
    QueueInv policy (Mutex.removeWaiter s self id woken rest next) := by
  have ok := owner.ok selfAt
  have raw : next = none → policy id = .raw := by
    rintro rfl
    exact ok
  refine inv.removeWaiter selfAt first ?_ raw ?_
  · intro isNone
    obtain ⟨lockPc, phaseEq, rfl | rfl⟩ := inv.queued_outside owner selfAt rfl
      (by rw [first]; exact List.mem_cons_self)
    · exact .inl phaseEq
    · rw [raw isNone] at phaseEq
      exact .inr phaseEq
  · intro isSome
    obtain ⟨passed, rfl⟩ := ne_none_iff_exists'.mp isSome
    rw [owner.lockWord id, ok.1.1]
    rfl

theorem QueueInv.execGuarded (owner : OwnerInv policy s)
    {pc : GuardedPc Thread} (selfAt : s.phase self = .guarded id pc)
    (ran : execGuarded policy s self id pc = some after) : QueueInv policy after := by
  have ok := owner.ok selfAt
  cases pc with
  | retry | checkTry =>
    cases ran
    refine inv.atomicTryLock (inv.awake_of_guarded selfAt rfl rfl) ?_
      (by rw [selfAt]; rfl) rfl rfl
    intro other token
    rw [inv.tokenless (sleepless_of_guarded selfAt rfl)] at token
    cases token
  | check | checkNull | branch | detach transfer =>
    simp only [Mutex.execGuarded] at ran
    split at ran <;> cases ran <;> exact inv.goto_guarded selfAt rfl rfl rfl rfl
  | enqueue =>
    have unlinked := inv.unlinked (sleepless_of_guarded selfAt rfl)
    simp only [Mutex.execGuarded, unlinked] at ran
    cases ran
    exact inv.startInsert selfAt
  | insert i =>
    simp only [Mutex.execGuarded] at ran
    split at ran
    · cases ran
      exact inv.insertWaiter selfAt ok i
    · split at ran <;> cases ran
      · exact inv.insertWaiter selfAt ok i
      · exact inv.nextInsert selfAt
  | attach attached ending =>
    cases ran
    have warned : QueueInv policy (s.warnOn (s.mutex id).owner.isSome) := { inv with }
    have stored : QueueInv policy ((s.warnOn (s.mutex id).owner.isSome).store id
        { s.mutex id with
          owner := some attached, donatedPriority := none, holder := some attached }) :=
      warned.store_keep rfl rfl rfl
    refine stored.goto_guarded selfAt ?_ rfl rfl rfl
    rcases ok.2 with ⟨rfl, _⟩ | ⟨rfl, _⟩
    all_goals rfl
  | refresh ending =>
    simp only [Mutex.execGuarded] at ran
    split at ran
    · cases ran
      exact inv.goto_guarded selfAt rfl rfl rfl rfl
    · split at ran <;> cases ran <;> exact inv.goto_guarded selfAt rfl rfl rfl rfl
  | donate stage target donation => exact inv.execDonate selfAt ran
  | storeDonated prio ending =>
    cases ran
    have stored : QueueInv policy
        (s.store id { s.mutex id with donatedPriority := prio }) :=
      inv.store_keep rfl rfl rfl
    exact stored.goto_guarded selfAt rfl rfl rfl rfl
  | release ending =>
    have freed : QueueInv policy (s.store id { s.mutex id with waitersLock := none }) :=
      inv.store_keep rfl rfl rfl
    cases ending with
    | acquired =>
      cases ran
      have held : QueueInv policy ((s.store id
        { s.mutex id with waitersLock := none }).storeHeld self id true) := { freed with }
      exact held.goto_sleepless selfAt rfl rfl rfl rfl
    | asleep =>
      cases ran
      refine freed.goto_asleep selfAt rfl ⟨rfl, .inl rfl⟩ ?_
      cases policy id with
      | raw | handoff => simp [Policy.loopTop]
    | released =>
      cases ran
      exact freed.goto_sleepless selfAt rfl rfl rfl rfl
  | detachStore transfer =>
    have detached : QueueInv policy
        (s.store id { s.mutex id with owner := none, donatedPriority := none }) :=
      inv.store_keep rfl rfl rfl
    cases transfer with
    | clear | handOver =>
      cases ran
      exact detached.goto_guarded selfAt rfl rfl rfl rfl
  | clear wakes =>
    cases ran
    cases wakes with
    | true =>
      have moved : QueueInv policy (s.goto self (.guarded id (.wake none))) :=
        inv.goto_guarded selfAt rfl rfl rfl rfl
      refine QueueInv.store moved rfl rfl fun _ _ => .inr ⟨ok.2, self, ?_⟩
      exact State.phase_goto_self
    | false =>
      have moved : QueueInv policy (s.goto self (.guarded id (.release .released))) :=
        inv.goto_guarded selfAt rfl rfl rfl rfl
      exact QueueInv.store moved rfl rfl fun waiting _ => absurd ok.2.2 waiting
  | wake next =>
    simp only [Mutex.execGuarded] at ran
    split at ran <;> cases ran
    next empty =>
      refine inv.goto_awake (inv.awake_of_guarded selfAt rfl ?_)
        (inv.tokenless (sleepless_of_guarded selfAt rfl)) (by simp [selfAt]) ?_ ?_
      · cases next <;> rfl
      · intro other waking
        rw [selfAt] at waking
        cases waking
        exact empty
      · cases next <;> rfl
    next woken rest first => exact inv.wake owner selfAt first
  | ready woken next =>
    cases ran
    refine inv.makeReady selfAt fun waker pc wakerAt => ?_
    exact owner.exclusive selfAt wakerAt

theorem QueueInv.exec (owner : OwnerInv policy s)
    (running : s.onCpu self = true) (ran : exec policy s self = some after) :
    QueueInv policy after := by
  unfold Mutex.exec at ran
  split at ran
  next => cases ran
  next id pc selfAt => exact inv.execLock selfAt running ran
  next id pc selfAt => exact inv.execUnlock selfAt ran
  next id pc selfAt => exact inv.execGuarded owner selfAt ran
  next target prio selfAt => exact inv.execSetPriority selfAt ran
  next stage target prio selfAt => exact inv.execSetBase selfAt ran

theorem QueueInv.step (owner : OwnerInv policy s)
    {action : Action Id Thread} (ran : step policy s action = some after) :
    QueueInv policy after := by
  unfold Mutex.step at ran
  split at ran
  · cases ran
  cases action with
  | exec t =>
    obtain ⟨running, ran⟩ := ite_none_right_eq_some.mp ran
    exact inv.exec owner running ran
  | callLock t id =>
    obtain ⟨guards, ⟨⟩⟩ := ite_none_right_eq_some.mp ran
    exact inv.goto_elsewhere (by rw [guards.2.1]; rfl) rfl
  | callUnlock t id =>
    obtain ⟨guards, ⟨⟩⟩ := ite_none_right_eq_some.mp ran
    have left : QueueInv policy (s.storeHeld t id false) := { inv with }
    refine left.goto_elsewhere ?_ rfl
    change (s.phase t).mutex = none
    rw [guards.2.1]
    rfl
  | callSetPriority t target prio =>
    obtain ⟨guards, ⟨⟩⟩ := ite_none_right_eq_some.mp ran
    exact inv.goto_elsewhere (by rw [guards.2]; rfl) rfl
  | preempt t =>
    obtain ⟨-, ⟨⟩⟩ := ite_none_right_eq_some.mp ran
    exact inv.leaveCpu
  | dispatch t =>
    obtain ⟨guards, ⟨⟩⟩ := ite_none_right_eq_some.mp ran
    have started : QueueInv policy (s.storeStatus t .running) :=
      inv.storeStatus (by simp [guards.2]) (by simp)
    exact started.storeOnCpu (.inr (by simp [State.storeStatus]))

end

end Instructions

section Runs

variable {Id Thread : Type} {policy : Id → Policy}

theorem queueInv_initialState (basePriority : Thread → Priority) :
    QueueInv policy (initialState basePriority : State Id Thread) where
  nodup _ := List.nodup_nil
  counted _ := rfl
  queued := nofun
  readying := nofun
  inserting := nofun
  parked := nofun
  listed := nofun
  blocked := nofun
  tokens := nofun
  stays _ waiting := absurd rfl waiting

variable [DecidableEq Id] [DecidableEq Thread]

theorem queueInv_of_reachable {s : State Id Thread}
    (reached : (system policy).Reachable s) : QueueInv policy s := by
  refine reached.invariant ?_ fun _ _ _ before inv ran =>
    inv.step (ownerInv_of_reachable before) ran
  rintro first ⟨basePriority, rfl⟩
  exact queueInv_initialState basePriority

theorem linked_of_blocked {s : State Id Thread} (reached : (system policy).Reachable s)
    {id : Id} (isFree : (s.mutex id).waitersLock = none) {t : Thread}
    (blocked : s.status t = .blocked) (works : (s.phase t).mutex = some id) :
    s.linked t = true ∧ t ∈ (s.mutex id).waiters := by
  have inv := queueInv_of_reachable reached
  have outside := (ownerInv_of_reachable reached).outside_of_free isFree
  rcases inv.blocked t blocked with linked | ⟨other, i, inserting⟩ |
    ⟨waker, other, next, waking⟩
  · obtain ⟨other, mem⟩ := inv.listed t linked
    have same := (inv.queued other t mem).2.2.mutex_eq
    rw [works] at same
    cases same
    exact ⟨linked, mem⟩
  · rw [inserting] at works
    cases works
    exact absurd inserting (outside t (.insert i))
  · have same := (inv.readying waker other t next waking).2.2.mutex_eq
    rw [works] at same
    cases same
    exact absurd waking (outside waker (.ready t next))

/-- While `waiters.lock` is free and a thread is queued, the lock word is taken, or a thread
that the raw `__wake_up_one` removed is on its way back to it. Queued threads are blocked and
linked once, and threads blocked in the mutex are queued. -/
theorem no_lost_wakeup {s : State Id Thread} (reached : (system policy).Reachable s)
    (id : Id) : ((s.mutex id).waitersLock = none → (s.mutex id).waiters ≠ [] →
      (s.mutex id).locked = true ∨
        ∃ t, s.woken t = some id ∧ s.status t ≠ .blocked ∧
          (s.phase t = .lock id .sched ∨ s.phase t = .lock id .tryLock)) ∧
      (s.mutex id).count = (s.mutex id).waiters.length ∧
      (∀ t ∈ (s.mutex id).waiters, s.status t = .blocked ∧
        (s.mutex id).waiters.count t = 1 ∧
          ∀ other ≠ id, t ∉ (s.mutex other).waiters) ∧
      ((s.mutex id).waitersLock = none → ∀ t, s.status t = .blocked →
        (s.phase t).mutex = some id → t ∈ (s.mutex id).waiters) := by
  have inv := queueInv_of_reachable reached
  have outside : (s.mutex id).waitersLock = none →
      ∀ t pc, s.phase t ≠ .guarded id pc :=
    fun isFree => (ownerInv_of_reachable reached).outside_of_free isFree
  refine ⟨?_, inv.counted id, ?_, ?_⟩
  · intro isFree waiting
    rcases inv.stays id waiting with locked | ⟨_, ⟨t, token⟩ | ⟨waker, waking⟩⟩
    · exact .inl locked
    · obtain ⟨_, unlinked, atLoop⟩ := inv.tokens t id token
      refine .inr ⟨t, token, ?_, atLoop⟩
      intro blocked
      have works : (s.phase t).mutex = some id := by
        rcases atLoop with atSched | atTop
        · rw [atSched]
          rfl
        · rw [atTop]
          rfl
      have linked := (linked_of_blocked reached isFree blocked works).1
      rw [unlinked] at linked
      cases linked
    · exact absurd waking (outside isFree waker (.wake none))
  · intro t mem
    have queued := inv.queued id t mem
    refine ⟨queued.1, List.count_eq_one_of_mem (inv.nodup id) mem, ?_⟩
    intro other ne memberToo
    exact ne ((inv.queued other t memberToo).2.2.unique queued.2.2)
  · intro isFree t blocked works
    exact (linked_of_blocked reached isFree blocked works).2

/-- A raw mutex after an unlock with two waiters: thread 1 has been woken, and
thread 2 is still queued. -/
def afterRawUnlock : State Unit (Fin 3) :=
  ((system fun _ => .raw).run (initialState fun _ => 32) (List.flatten
      [[.dispatch 0, .dispatch 1, .dispatch 2], .callLock 0 () :: List.replicate 5 (.exec 0),
        .callLock 1 () :: List.replicate 13 (.exec 1),
        .callLock 2 () :: List.replicate 9 (.exec 2),
        .callUnlock 0 () :: List.replicate 13 (.exec 0)])).getD (initialState fun _ => 32)

theorem no_lost_wakeup_afterRawUnlock : (afterRawUnlock.mutex ()).waitersLock = none ∧
      (afterRawUnlock.mutex ()).waiters = [2] ∧ (afterRawUnlock.mutex ()).locked = false ∧
      ((afterRawUnlock.mutex ()).locked = true ∨ ∃ t, afterRawUnlock.woken t = some () ∧
          afterRawUnlock.status t ≠ .blocked ∧ (afterRawUnlock.phase t = .lock () .sched ∨
            afterRawUnlock.phase t = .lock () .tryLock)) := by
  refine ⟨by decide, by decide, by decide, ?_⟩
  have reached : (system fun _ => .raw).Reachable afterRawUnlock :=
    (reachable_initialState _).getD_run _
  exact (no_lost_wakeup reached ()).1 (by decide) (by decide)

end Runs

end LaOS.Mutex
