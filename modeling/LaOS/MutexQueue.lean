import LaOS.MutexExclusion

/-!
# The wait list of a mutex

A thread on a wait list is blocked and does not return from `schedule`.  A nonempty list
is never forgotten: the lock word is taken, or a woken thread has yet to try it.
-/

namespace LaOS.Mutex

variable {Id Thread : Type}

/-- How a section ends, from the position on where that is settled. -/
def GuardedPc.ending : GuardedPc Thread → Option Ending
  | .refresh ending | .storeDonated _ ending | .release ending
  | .donate _ _ (.refresh _ _ ending) => some ending
  | _ => none

def GuardedPc.fallsAsleep (pc : GuardedPc Thread) : Bool :=
  pc.ending = some .asleep

def Phase.Sleeps (policy : Id → Policy) (id : Id) : Phase Id Thread → Prop
  | .guarded other pc => other = id ∧ pc.fallsAsleep = true
  | .lock other pc => other = id ∧ (pc = .sched ∨ pc = (policy id).loopTop)
  | _ => False

theorem Phase.Sleeps.unique {policy : Id → Policy} {phase : Phase Id Thread} {id other : Id}
    (sleeps : phase.Sleeps policy id) (sleepsToo : phase.Sleeps policy other) : id = other := by
  cases phase with
  | guarded | lock => exact sleeps.1.symm.trans sleepsToo.1
  | _ => exact sleeps.elim

theorem Phase.Sleeps.mutex_eq {policy : Id → Policy} {phase : Phase Id Thread} {id : Id}
    (sleeps : phase.Sleeps policy id) : phase.mutex = some id := by
  cases phase with
  | guarded | lock => exact congrArg some sleeps.1
  | _ => exact sleeps.elim

/-- The thread is about to link itself, or has been removed from its list and
is about to be made ready. -/
def Pending (s : State Id Thread) (t : Thread) : Prop :=
  (∃ id i, s.phase t = .guarded id (.insert i)) ∨
    ∃ waker id next, s.phase waker = .guarded id (.ready t next)

/-- Positions between the change of a wait list and the change of a status. -/
def Phase.transient : Phase Id Thread → Bool
  | .guarded _ (.insert _) | .guarded _ (.ready _ _) => true
  | _ => false

def Phase.wakes : Phase Id Thread → Bool
  | .guarded _ (.wake none) | .guarded _ (.ready _ _) => true
  | _ => false

theorem Phase.ne_ready_of_wakes_eq_false {phase : Phase Id Thread}
    (uninvolved : phase.wakes = false)
    (id : Id) (t : Thread) (next : Option Thread) : phase ≠ .guarded id (.ready t next) := by
  rintro rfl
  cases uninvolved

structure QueueInv (policy : Id → Policy) (s : State Id Thread) : Prop where
  nodup : ∀ id, (s.mutex id).waiters.Nodup
  counted : ∀ id, (s.mutex id).count = (s.mutex id).waiters.length
  queued : ∀ id t, t ∈ (s.mutex id).waiters →
    s.status t = .blocked ∧ s.linked t = true ∧
      (s.phase t).Sleeps policy id
  readying : ∀ waker id t next, s.phase waker = .guarded id (.ready t next) →
    s.status t = .blocked ∧ s.linked t = false ∧
      (s.phase t).Sleeps policy id
  inserting : ∀ t id i, s.phase t = .guarded id (.insert i) →
    s.status t = .blocked
  parked : ∀ t id, s.phase t = .lock id (policy id).loopTop →
    s.status t = .blocked → s.onCpu t = false
  listed : ∀ t, s.linked t = true → ∃ id, t ∈ (s.mutex id).waiters
  blocked : ∀ t, s.status t = .blocked →
    s.linked t = true ∨ Pending s t
  tokens : ∀ t id, s.woken t = some id →
    policy id = .raw ∧ s.linked t = false ∧
      (s.phase t = .lock id .sched ∨ s.phase t = .lock id .tryLock)
  stays : ∀ id, (s.mutex id).waiters ≠ [] →
    (s.mutex id).locked = true ∨
      policy id = .raw ∧ ((∃ t, s.woken t = some id) ∨
        ∃ waker, s.phase waker = .guarded id (.wake none))

section Consequences

variable {policy : Id → Policy} {s : State Id Thread} {self : Thread}

theorem QueueInv.awake (inv : QueueInv policy s)
    (sleepless : ∀ id, ¬ (s.phase self).Sleeps policy id)
    (unlinking : ∀ id i, s.phase self ≠ .guarded id (.insert i)) :
    s.status self ≠ .blocked := by
  intro blocked
  rcases inv.blocked self blocked with linked | ⟨id, i, inserting⟩ | ⟨waker, id, next, waking⟩
  · obtain ⟨id, mem⟩ := inv.listed self linked
    exact sleepless id (inv.queued id self mem).2.2
  · exact unlinking id i inserting
  · exact sleepless id (inv.readying waker id self next waking).2.2

theorem QueueInv.unlinked (inv : QueueInv policy s)
    (sleepless : ∀ id, ¬ (s.phase self).Sleeps policy id) : s.linked self = false := by
  by_contra linked
  obtain ⟨id, mem⟩ := inv.listed self (Bool.eq_true_of_not_eq_false linked)
  exact sleepless id (inv.queued id self mem).2.2

theorem QueueInv.tokenless (inv : QueueInv policy s)
    (sleepless : ∀ id, ¬ (s.phase self).Sleeps policy id) : s.woken self = none := by
  cases wokenEq : s.woken self with
  | none => rfl
  | some id =>
    obtain ⟨isRaw, _, atSched | atTop⟩ := inv.tokens self id wokenEq
    · exact absurd (by rw [atSched]; exact ⟨rfl, .inl rfl⟩) (sleepless id)
    · exact absurd (by rw [atTop]; exact ⟨rfl, .inr (by rw [isRaw]; rfl)⟩) (sleepless id)

end Consequences

section Moves

variable [DecidableEq Thread] {policy : Id → Policy} {s : State Id Thread} {self : Thread}
  {id : Id} {phase : Phase Id Thread} {t : Thread}

theorem State.phase_goto_of_ne (isOther : t ≠ self) :
    (s.goto self phase).phase t = s.phase t :=
  Function.update_of_ne isOther _ _

theorem State.phase_goto_self : (s.goto self phase).phase self = phase :=
  Function.update_self _ _ _

theorem QueueInv.goto (inv : QueueInv policy s)
    (asleep : s.status self = .blocked → ∀ id, (s.phase self).Sleeps policy id →
      phase.Sleeps policy id) (unready : ∀ id t next, phase ≠ .guarded id (.ready t next))
    (inserts : ∀ id i, phase = .guarded id (.insert i) → s.status self = .blocked)
    (parked : ∀ id, phase = .lock id (policy id).loopTop → s.status self = .blocked →
      s.onCpu self = false)
    (pending : ∀ t, s.status t = .blocked → Pending s t →
      s.linked t = true ∨ Pending (s.goto self phase) t)
    (tokens : ∀ id, s.woken self = some id →
      phase = .lock id .sched ∨ phase = .lock id .tryLock)
    (stays : ∀ id, s.phase self = .guarded id (.wake none) →
      (s.mutex id).waiters ≠ [] → (s.mutex id).locked = true ∨
        policy id = .raw ∧ ((∃ t, s.woken t = some id) ∨
          ∃ waker, (s.goto self phase).phase waker = .guarded id (.wake none))) :
    QueueInv policy (s.goto self phase) := by
  have sleeps : ∀ t id, s.status t = .blocked →
      (s.phase t).Sleeps policy id →
      ((s.goto self phase).phase t).Sleeps policy id := by
    intro t id blocked before
    by_cases isSelf : t = self
    · subst isSelf
      rw [State.phase_goto_self]
      exact asleep blocked id before
    · rw [State.phase_goto_of_ne isSelf]
      exact before
  refine ⟨inv.nodup, inv.counted, ?_, ?_, ?_, ?_, inv.listed, ?_, ?_, ?_⟩
  · intro id t mem
    obtain ⟨blocked, linked, before⟩ := inv.queued id t mem
    exact ⟨blocked, linked, sleeps t id blocked before⟩
  · intro waker id t next waking
    by_cases isSelf : waker = self
    · subst isSelf
      rw [State.phase_goto_self] at waking
      exact absurd waking (unready id t next)
    · rw [State.phase_goto_of_ne isSelf] at waking
      obtain ⟨blocked, linked, before⟩ := inv.readying waker id t next waking
      exact ⟨blocked, linked, sleeps t id blocked before⟩
  · intro t id i inserting
    by_cases isSelf : t = self
    · subst isSelf
      rw [State.phase_goto_self] at inserting
      exact inserts id i inserting
    · rw [State.phase_goto_of_ne isSelf] at inserting
      exact inv.inserting t id i inserting
  · intro t id atTop
    by_cases isSelf : t = self
    · subst isSelf
      rw [State.phase_goto_self] at atTop
      exact parked id atTop
    · rw [State.phase_goto_of_ne isSelf] at atTop
      exact inv.parked t id atTop
  · intro t blocked
    rcases inv.blocked t blocked with linked | isPending
    · exact .inl linked
    · exact pending t blocked isPending
  · intro t id wokenEq
    obtain ⟨isRaw, unlinked, before⟩ := inv.tokens t id wokenEq
    refine ⟨isRaw, unlinked, ?_⟩
    by_cases isSelf : t = self
    · subst isSelf
      rw [State.phase_goto_self]
      exact tokens id wokenEq
    · rw [State.phase_goto_of_ne isSelf]
      exact before
  · intro id waiting
    rcases inv.stays id waiting with locked | ⟨isRaw, token | ⟨waker, waking⟩⟩
    · exact .inl locked
    · exact .inr ⟨isRaw, .inl token⟩
    · by_cases isSelf : waker = self
      · subst isSelf
        exact stays id waking waiting
      · refine .inr ⟨isRaw, .inr ⟨waker, ?_⟩⟩
        rw [State.phase_goto_of_ne isSelf]
        exact waking

theorem Pending.goto (isPending : Pending s t)
    (unready : ∀ id next, s.phase self ≠ .guarded id (.ready t next))
    (notInserting : t = self → ∀ id i, s.phase self ≠ .guarded id (.insert i)) :
    Pending (s.goto self phase) t := by
  rcases isPending with ⟨id, i, inserting⟩ | ⟨waker, id, next, waking⟩
  · have isOther : t ≠ self := by
      rintro rfl
      exact notInserting rfl id i inserting
    refine .inl ⟨id, i, ?_⟩
    rw [State.phase_goto_of_ne isOther]
    exact inserting
  · have isOther : waker ≠ self := by
      rintro rfl
      exact unready id next waking
    refine .inr ⟨waker, id, next, ?_⟩
    rw [State.phase_goto_of_ne isOther]
    exact waking

theorem QueueInv.goto_awake (inv : QueueInv policy s)
    (awake : s.status self ≠ .blocked) (tokenless : s.woken self = none)
    (unready : ∀ id t next, s.phase self ≠ .guarded id (.ready t next))
    (idle : ∀ id, s.phase self = .guarded id (.wake none) → (s.mutex id).waiters = [])
    (plain : phase.transient = false) : QueueInv policy (s.goto self phase) := by
  refine inv.goto (fun blocked => absurd blocked awake) ?_ ?_
    (fun _ _ blocked => absurd blocked awake) ?_ ?_ ?_
  · rintro id t next rfl
    cases plain
  · rintro id i rfl
    cases plain
  · intro t blocked isPending
    refine .inr (isPending.goto (fun id => unready id t) ?_)
    rintro rfl
    exact absurd blocked awake
  · intro id wokenEq
    rw [tokenless] at wokenEq
    cases wokenEq
  · intro id waking waiting
    exact absurd (idle id waking) waiting

theorem QueueInv.goto_uninvolved (inv : QueueInv policy s)
    (awake : s.status self ≠ .blocked) (tokenless : s.woken self = none)
    (uninvolved : (s.phase self).wakes = false) (plain : phase.transient = false) :
    QueueInv policy (s.goto self phase) := by
  refine inv.goto_awake awake tokenless (Phase.ne_ready_of_wakes_eq_false uninvolved) ?_ plain
  intro id waking
  rw [waking] at uninvolved
  cases uninvolved

theorem QueueInv.goto_asleep (inv : QueueInv policy s) {pc : GuardedPc Thread}
    (selfAt : s.phase self = .guarded id pc) (falls : pc.fallsAsleep = true)
    (asleep : phase.Sleeps policy id) (unparked : phase ≠ .lock id (policy id).loopTop) :
    QueueInv policy (s.goto self phase) := by
  have uninvolved : (s.phase self).wakes = false := by
    rw [selfAt]
    cases pc with
    | wake next => cases next <;> cases falls
    | ready => cases falls
    | _ => rfl
  refine inv.goto ?_ ?_ ?_ ?_ ?_ ?_ ?_
  · intro _ other before
    rw [selfAt] at before
    exact before.1 ▸ asleep
  · rintro other t next rfl
    cases asleep.2
  · rintro other i rfl
    cases asleep.2
  · rintro other rfl
    exact absurd (by rw [asleep.1]) unparked
  · intro t _ isPending
    refine .inr (isPending.goto (fun id => Phase.ne_ready_of_wakes_eq_false uninvolved id t) ?_)
    rintro _ other i inserting
    rw [selfAt] at inserting
    cases inserting
    cases falls
  · intro other wokenEq
    rcases (inv.tokens self other wokenEq).2.2 with atSched | atTop
    · rw [selfAt] at atSched
      cases atSched
    · rw [selfAt] at atTop
      cases atTop
  · intro other waking
    rw [waking] at uninvolved
    cases uninvolved

end Moves

section Updates

variable {policy : Id → Policy} {s : State Id Thread} {self : Thread} {id : Id}
  {fields : Fields Thread}

section Store

variable [DecidableEq Id]

theorem QueueInv.store (inv : QueueInv policy s)
    (waitersKept : fields.waiters = (s.mutex id).waiters)
    (countKept : fields.count = (s.mutex id).count)
    (stays : (s.mutex id).waiters ≠ [] → (s.mutex id).locked = true →
      fields.locked = true ∨ policy id = .raw ∧
        ∃ waker, s.phase waker = .guarded id (.wake none)) :
    QueueInv policy (s.store id fields) := by
  have waitersEq : ∀ other,
      ((s.store id fields).mutex other).waiters = (s.mutex other).waiters := by
    intro other
    by_cases same : other = id
    · subst same
      simpa [State.store] using waitersKept
    · simp [State.store, same]
  have countEq : ∀ other,
      ((s.store id fields).mutex other).count = (s.mutex other).count := by
    intro other
    by_cases same : other = id
    · subst same
      simpa [State.store] using countKept
    · simp [State.store, same]
  refine
    { inv with
      nodup := fun other => waitersEq other ▸ inv.nodup other
      counted := fun other => by rw [waitersEq, countEq]; exact inv.counted other
      queued := fun other t mem => inv.queued other t (waitersEq other ▸ mem)
      listed := ?_
      stays := ?_ }
  · intro t linked
    obtain ⟨other, mem⟩ := inv.listed t linked
    exact ⟨other, (waitersEq other).symm ▸ mem⟩
  intro other waiting
  rw [waitersEq] at waiting
  rcases inv.stays other waiting with locked | covered
  · by_cases same : other = id
    · subst same
      rcases stays waiting locked with stillLocked | ⟨isRaw, waking⟩
      · left
        simpa [State.store] using stillLocked
      · exact .inr ⟨isRaw, .inr waking⟩
    · left
      simpa [State.store, same] using locked
  · exact .inr covered

theorem QueueInv.store_keep (inv : QueueInv policy s)
    (waitersKept : fields.waiters = (s.mutex id).waiters)
    (countKept : fields.count = (s.mutex id).count)
    (lockedKept : fields.locked = (s.mutex id).locked) :
    QueueInv policy (s.store id fields) :=
  inv.store waitersKept countKept fun _ locked => .inl (lockedKept.trans locked)

end Store

variable [DecidableEq Thread]

section

variable (inv : QueueInv policy s)

include inv

theorem QueueInv.storeStatus {status : Status}
    (awake : s.status self ≠ .blocked) (stillAwake : status ≠ .blocked) :
    QueueInv policy (s.storeStatus self status) := by
  have kept : ∀ t, (s.storeStatus self status).status t = .blocked ↔
      s.status t = .blocked := by
    intro t
    by_cases isSelf : t = self
    · subst isSelf
      simp [State.storeStatus, awake, stillAwake]
    · simp [State.storeStatus, isSelf]
  exact
    { inv with
      queued := fun id t mem =>
        (inv.queued id t mem).imp_left (kept t).mpr
      readying := fun waker id t next waking =>
        (inv.readying waker id t next waking).imp_left (kept t).mpr
      inserting := fun t id i atInsert =>
        (kept t).mpr (inv.inserting t id i atInsert)
      parked := fun t id atTop blocked =>
        inv.parked t id atTop ((kept t).mp blocked)
      blocked := fun t blocked => inv.blocked t ((kept t).mp blocked) }

theorem QueueInv.storeOnCpu {onCpu : Bool}
    (allowed : onCpu = false ∨ s.status self ≠ .blocked) :
    QueueInv policy (s.storeOnCpu self onCpu) :=
  { inv with
    parked := by
      intro t id atTop blocked
      by_cases isSelf : t = self
      · subst isSelf
        rcases allowed with off | awake
        · simpa [State.storeOnCpu] using off
        · exact absurd blocked awake
      · simpa [State.storeOnCpu, isSelf] using inv.parked t id atTop blocked }

theorem QueueInv.leaveCpu : QueueInv policy (s.leaveCpu self) := by
  refine QueueInv.storeOnCpu ?_ (.inl rfl)
  by_cases running : s.status self = .running
  · rw [if_pos running]
    exact inv.storeStatus (by simp [running]) (by simp)
  rw [if_neg running]
  have same : s.storeStatus self (s.status self) = s := by
    simp [State.storeStatus]
  rw [same]
  exact inv

theorem QueueInv.clearToken (covered : ∀ id, s.woken self = some id →
    (s.mutex id).locked = true) : QueueInv policy (s.storeWoken self none) :=
  { inv with
    tokens := by
      intro t id wokenEq
      by_cases isSelf : t = self
      · subst isSelf
        simp [State.storeWoken] at wokenEq
      · exact inv.tokens t id (by simpa [State.storeWoken, isSelf] using wokenEq)
    stays := by
      intro id waiting
      rcases inv.stays id waiting with locked | ⟨isRaw, ⟨t, wokenEq⟩ | waking⟩
      · exact .inl locked
      · by_cases isSelf : t = self
        · subst isSelf
          exact .inl (covered id wokenEq)
        · refine .inr ⟨isRaw, .inl ⟨t, ?_⟩⟩
          simpa [State.storeWoken, isSelf] using wokenEq
      · exact .inr ⟨isRaw, .inr waking⟩ }

end

variable [DecidableEq Id]

theorem QueueInv.atomicTryLock (inv : QueueInv policy s) {won lost : Phase Id Thread}
    (awake : s.status self ≠ .blocked)
    (tokenHere : ∀ other, s.woken self = some other → other = id)
    (uninvolved : (s.phase self).wakes = false)
    (wonPlain : won.transient = false) (lostPlain : lost.transient = false) :
    QueueInv policy (s.atomicTryLock self id won lost) := by
  have spent : (s.storeWoken self none).woken self = none := by simp [State.storeWoken]
  unfold State.atomicTryLock
  split
  next locked =>
    have cleared := inv.clearToken fun other wokenEq => tokenHere other wokenEq ▸ locked
    exact cleared.goto_uninvolved awake spent uninvolved lostPlain
  next =>
    have stored : QueueInv policy (s.store id
        { s.mutex id with locked := true, holder := some self }) :=
      inv.store rfl rfl fun _ _ => .inl rfl
    have cleared : QueueInv policy ((s.store id
        { s.mutex id with locked := true, holder := some self }).storeWoken self none) := by
      refine stored.clearToken fun other wokenEq => ?_
      rw [tokenHere other wokenEq]
      simp [State.store]
    exact cleared.goto_uninvolved awake spent uninvolved wonPlain

end Updates

end LaOS.Mutex
