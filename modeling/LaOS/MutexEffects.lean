import LaOS.MutexWakeup

/-!
# What a step does

A step moves one thread and, outside the sections of `waiters.lock`, leaves owner,
donation and wait list of every mutex alone.  `pi_lock` protects the priorities of a
thread and its donation counters.
-/

namespace LaOS.Mutex

open Option Function

variable {Id Thread : Type}

structure SameProtected (before after : Fields Thread) : Prop where
  owner : after.owner = before.owner
  donatedPriority : after.donatedPriority = before.donatedPriority
  waiters : after.waiters = before.waiters
  count : after.count = before.count
  credit : after.credit = before.credit

theorem SameProtected.refl (fields : Fields Thread) : SameProtected fields fields :=
  ⟨rfl, rfl, rfl, rfl, rfl⟩

/-- The step moves `mover` only, and changes protected fields only inside a
section of `waiters.lock`. -/
structure Local (s after : State Id Thread) (mover : Thread) : Prop where
  phase : ∀ t, t ≠ mover → after.phase t = s.phase t
  protectedKept : ∀ id, (∀ pc, s.phase mover ≠ .guarded id pc) →
    SameProtected (s.mutex id) (after.mutex id)

/-- The wait lists, their order of arrival, and the threads that are linking
themselves are as before. -/
structure SameLists (s after : State Id Thread) : Prop where
  waiters : ∀ id, (after.mutex id).waiters = (s.mutex id).waiters
  arrival : after.arrival = s.arrival
  clock : after.clock = s.clock
  linked : after.linked = s.linked
  inserting : ∀ t id i, after.phase t = .guarded id (.insert i) →
    s.phase t = .guarded id (.insert i)

/-- The steps of the machine, seen from the wait lists. -/
inductive ListStep [DecidableEq Thread] [DecidableEq Id] (s after : State Id Thread) : Prop
  | same (kept : SameLists s after)
  | block (self : Thread) (id : Id) (selfAt : s.phase self = .guarded id .enqueue)
      (afterEq : after = (s.storeStatus self .blocked).goto self (.guarded id (.insert 0)))
  | scan (self : Thread) (id : Id) (i : Nat) (next : Thread)
      (selfAt : s.phase self = .guarded id (.insert i))
      (nextEq : (s.mutex id).waiters[i]? = some next)
      (passes : ¬ s.priority self < s.priority next)
      (afterEq : after = s.goto self (.guarded id (.insert (i + 1))))
  | insert (self : Thread) (id : Id) (i : Nat)
      (selfAt : s.phase self = .guarded id (.insert i))
      (stops : ∀ next, (s.mutex id).waiters[i]? = some next →
        s.priority self < s.priority next)
      (afterEq : after = insertWaiter s self id i)
  | remove (self : Thread) (id : Id) (next : Option Thread) (woken : Thread)
      (rest : List Thread) (selfAt : s.phase self = .guarded id (.wake next))
      (first : (s.mutex id).waiters = woken :: rest)
      (afterEq : after = removeWaiter s self id woken rest next)

/-- The fields of a thread that its `pi_lock` protects, and the lock. -/
structure Share (Thread : Type) where
  piLock : Option Thread
  basePriority : Priority
  piDonations : Priority → Nat
  priority : Priority

def State.share (s : State Id Thread) (t : Thread) : Share Thread where
  piLock := s.piLock t
  basePriority := s.basePriority t
  piDonations := s.piDonations t
  priority := s.priority t

def Phase.piPosition : Phase Id Thread → Option (Thread × PiStage)
  | .guarded _ (.donate .acquire _ _) | .setBase .acquire _ _ => none
  | .guarded _ (.donate stage target _) | .setBase stage target _ => some (target, stage)
  | _ => none

def State.piPosition (s : State Id Thread) (t : Thread) : Option (Thread × PiStage) :=
  (s.phase t).piPosition

theorem State.piPosition_eq {s : State Id Thread} {t : Thread} {phase : Phase Id Thread}
    (threadAt : s.phase t = phase) : s.piPosition t = phase.piPosition :=
  congrArg Phase.piPosition threadAt

/-- The step changes neither what mutexes are counted for nor the panic flag. -/
structure SameAccounts (s after : State Id Thread) : Prop where
  credit : ∀ id, (after.mutex id).credit = (s.mutex id).credit
  panic : after.panic = s.panic

/-- The steps of the machine, seen from the `pi_lock` of every thread. -/
inductive PiStep [DecidableEq Id] [DecidableEq Thread] (s after : State Id Thread) : Prop
  | same (positionEq : after.piPosition = s.piPosition) (shareEq : after.share = s.share)
      (accounts : SameAccounts s after)
  | acquire (self target : Thread) (isFree : (s.share target).piLock = none)
      (positionEq : after.piPosition =
        update s.piPosition self (some (target, .update)))
      (shareEq : after.share =
        update s.share target { s.share target with piLock := some self })
      (accounts : SameAccounts s after)
  | rebase (self target : Thread) (priority : Priority)
      (selfAt : s.piPosition self = some (target, .update))
      (positionEq : after.piPosition =
        update s.piPosition self (some (target, .apply)))
      (shareEq : after.share =
        update s.share target { s.share target with basePriority := priority })
      (accounts : SameAccounts s after)
  | donate (self : Thread) (id : Id) (target : Thread) (donation : Donation Thread)
      (donations : Priority → Nat)
      (selfAt : s.phase self = .guarded id (.donate .update target donation))
      (updated : updateDonation (s.piDonations target) donation.old donation.new =
        .ok donations)
      (afterEq : after = ((s.storeDonations target donations).store id { s.mutex id with
          credit := donation.new.map fun priority => (target, priority) }).goto self
            (.guarded id (.donate .apply target donation)))
  | fail (self : Thread) (id : Id) (target : Thread) (donation : Donation Thread) (panic : Panic)
      (selfAt : s.phase self = .guarded id (.donate .update target donation))
      (failed : updateDonation (s.piDonations target) donation.old donation.new = .error panic)
      (afterEq : after = { s with panic := some panic })
  | apply (self target : Thread) (selfAt : s.piPosition self = some (target, .apply))
      (positionEq : after.piPosition =
        update s.piPosition self (some (target, .release)))
      (shareEq : after.share = (s.applyEffectivePriority target).share)
      (accounts : SameAccounts s after)
  | release (self target : Thread) (selfAt : s.piPosition self = some (target, .release))
      (positionEq : after.piPosition = update s.piPosition self none)
      (shareEq : after.share =
        update s.share target { s.share target with piLock := none })
      (accounts : SameAccounts s after)

def GuardedPc.isEntry : GuardedPc Thread → Bool
  | .retry | .check | .branch | .attach _ .acquired => true
  | _ => false

/-- The steps of the machine, seen from the sections of `waiters.lock`. -/
inductive SectionStep [DecidableEq Id] [DecidableEq Thread] (policy : Id → Policy)
    (s after : State Id Thread) : Prop
  | outside (positionEq : after.position = s.position)
      (lockKept : ∀ id, (after.mutex id).waitersLock = (s.mutex id).waitersLock)
      (kept : ∀ id, SameProtected (s.mutex id) (after.mutex id))
  | enter (self : Thread) (id : Id) (pc : GuardedPc Thread) (isEntry : pc.isEntry = true)
      (isFree : (s.mutex id).waitersLock = none)
      (positionEq : after.position = update s.position self (some (id, pc)))
      (mutexEq : after.mutex =
        update s.mutex id { s.mutex id with waitersLock := some self })
  | inside (self : Thread) (id : Id) (pc : GuardedPc Thread)
      (selfAt : s.phase self = .guarded id pc)
      (taken : execGuarded policy s self id pc = some after)

def Action.thread : Action Id Thread → Thread
  | .exec t | .callLock t _ | .callUnlock t _ | .callSetPriority t _ _
  | .preempt t | .dispatch t => t

structure Views [DecidableEq Id] [DecidableEq Thread] (policy : Id → Policy)
    (s after : State Id Thread) (mover : Thread) : Prop where
  moves : Local s after mover
  lists : ListStep s after
  pi : PiStep s after
  sections : SectionStep policy s after

section Shares

variable [DecidableEq Thread] (s : State Id Thread) (target : Thread)

theorem State.share_storePiLock (holder : Option Thread) : (s.storePiLock target holder).share =
      update s.share target { s.share target with piLock := holder } :=
  eq_update_iff.mpr ⟨by simp [State.share, State.storePiLock],
    fun _ ne => by simp [State.share, State.storePiLock, ne]⟩

theorem State.share_storeBase (prio : Priority) : (s.storeBase target prio).share =
      update s.share target { s.share target with basePriority := prio } :=
  eq_update_iff.mpr ⟨by simp [State.share, State.storeBase],
    fun _ ne => by simp [State.share, State.storeBase, ne]⟩

theorem State.share_storeDonations (donations : Priority → Nat) :
    (s.storeDonations target donations).share =
      update s.share target { s.share target with piDonations := donations } :=
  eq_update_iff.mpr ⟨by simp [State.share, State.storeDonations],
    fun _ ne => by simp [State.share, State.storeDonations, ne]⟩

theorem State.share_applyEffectivePriority : (s.applyEffectivePriority target).share =
      update s.share target { s.share target with
          priority := effectivePriority (s.basePriority target) (s.piDonations target) } :=
  eq_update_iff.mpr ⟨by simp [State.share, State.applyEffectivePriority],
    fun _ ne => by simp [State.share, State.applyEffectivePriority, ne]⟩

end Shares

section Views

variable {policy : Id → Policy} {s after : State Id Thread}
  {self target : Thread} {id : Id} {fields : Fields Thread} {phase : Phase Id Thread}

/-- Besides phases and mutexes only fields that no lock protects differ. -/
def State.Calm (s after : State Id Thread) : Prop :=
  after = { s with
    phase := after.phase, mutex := after.mutex, status := after.status, onCpu := after.onCpu,
    held := after.held, warned := after.warned, woken := after.woken }

theorem State.Calm.same (calm : s.Calm after) :
    after.share = s.share ∧ after.panic = s.panic ∧ after.arrival = s.arrival ∧
      after.clock = s.clock ∧ after.linked = s.linked := by
  have field : ∀ {Value : Type} (read : State Id Thread → Value), read after = read { s with
      phase := after.phase, mutex := after.mutex, status := after.status, onCpu := after.onCpu,
      held := after.held, warned := after.warned, woken := after.woken } :=
    fun read => congrArg read calm
  exact ⟨field _, field _, field _, field _, field _⟩

theorem forall_mutex_of_store [DecidableEq Id] (p : Id → Fields Thread → Prop)
    (mutexEq : after.mutex = update s.mutex id fields) (stored : p id fields)
    (others : ∀ other, p other (s.mutex other)) (other : Id) : p other (after.mutex other) := by
  rw [mutexEq]
  exact (forall_update_iff s.mutex p).mpr ⟨stored, fun other _ => others other⟩ other

variable [DecidableEq Thread]

theorem inserting_of_update (phaseEq : after.phase = update s.phase self phase)
    (plain : phase.transient = false) {t : Thread} {other : Id} {i : Nat}
    (inserting : after.phase t = .guarded other (.insert i)) :
    s.phase t = .guarded other (.insert i) := by
  rw [phaseEq] at inserting
  by_cases isSelf : t = self
  · subst isSelf
    rw [update_self] at inserting
    rw [inserting] at plain
    cases plain
  · rwa [update_of_ne isSelf] at inserting

theorem State.piPosition_goto (s : State Id Thread) (self : Thread) (phase : Phase Id Thread) :
    (s.goto self phase).piPosition = update s.piPosition self phase.piPosition :=
  comp_update Phase.piPosition s.phase self phase

section

variable (phaseEq : after.phase = update s.phase self phase)

include phaseEq

theorem piPosition_of_update :
    after.piPosition = update s.piPosition self phase.piPosition := by
  rw [← State.piPosition_goto]
  funext t
  exact congrArg Phase.piPosition (congrFun phaseEq t)

theorem position_of_update : after.position = update s.position self phase.position := by
  rw [← State.position_goto]
  funext t
  exact congrArg Phase.position (congrFun phaseEq t)

theorem piPosition_of_outside (outside : (s.phase self).piPosition = none)
    (stays : phase.piPosition = none) : after.piPosition = s.piPosition := by
  rw [piPosition_of_update phaseEq, stays, ← outside]
  exact update_eq_self self s.piPosition

theorem position_of_outside (outside : (s.phase self).position = none)
    (stays : phase.position = none) : after.position = s.position := by
  rw [position_of_update phaseEq, stays, ← outside]
  exact update_eq_self self s.position

theorem local_of_goto (mutexEq : after.mutex = s.mutex) : Local s after self where
  phase t isOther := by rw [phaseEq, update_of_ne isOther]
  protectedKept other _ := by
    rw [mutexEq]
    exact .refl _

end

variable [DecidableEq Id]

theorem local_of_store (phaseEq : after.phase = update s.phase self phase)
    (mutexEq : after.mutex = update s.mutex id fields)
    (kept : (∃ pc, s.phase self = .guarded id pc) ∨
      SameProtected (s.mutex id) fields) : Local s after self where
  phase t isOther := by rw [phaseEq, update_of_ne isOther]
  protectedKept := by
    refine forall_mutex_of_store (fun other new =>
      (∀ pc, s.phase self ≠ .guarded other pc) → SameProtected (s.mutex other) new)
      mutexEq (fun unguarded => ?_) fun _ _ => .refl _
    rcases kept with ⟨pc, selfAt⟩ | kept
    · exact absurd selfAt (unguarded pc)
    · exact kept

theorem PiStep.of_calm (calm : s.Calm after) (positionEq : after.piPosition = s.piPosition)
    (credit : ∀ id, (after.mutex id).credit = (s.mutex id).credit) : PiStep s after :=
  .same positionEq calm.same.1 ⟨credit, calm.same.2.1⟩

theorem SectionStep.of_same (positionEq : after.position = s.position)
    (mutexEq : after.mutex = s.mutex) : SectionStep policy s after :=
  .outside positionEq (fun _ => by rw [mutexEq]) fun _ => mutexEq ▸ .refl _

section

variable (phaseEq : after.phase = update s.phase self phase)
  (calm : s.Calm after) (outside : (s.phase self).piPosition = none)

include phaseEq calm outside

theorem Views.store (mutexEq : after.mutex = update s.mutex id fields)
    (kept : (∃ pc, s.phase self = .guarded id pc) ∨ SameProtected (s.mutex id) fields)
    (waitersKept : fields.waiters = (s.mutex id).waiters)
    (creditKept : fields.credit = (s.mutex id).credit) (plain : phase.transient = false)
    (stays : phase.piPosition = none) (sections : SectionStep policy s after) :
    Views policy s after self where
  moves := local_of_store phaseEq mutexEq kept
  lists := .same ⟨forall_mutex_of_store
      (fun other new => new.waiters = (s.mutex other).waiters) mutexEq waitersKept
      fun _ => rfl, calm.same.2.2.1, calm.same.2.2.2.1,
      calm.same.2.2.2.2, fun _ _ _ => inserting_of_update phaseEq plain⟩
  pi := .of_calm calm (piPosition_of_outside phaseEq outside stays) (forall_mutex_of_store
      (fun other new => new.credit = (s.mutex other).credit) mutexEq creditKept fun _ => rfl)
  sections := sections

theorem Views.goto (mutexEq : after.mutex = s.mutex) (plain : phase.transient = false)
    (stays : phase.piPosition = none) (sections : SectionStep policy s after) :
    Views policy s after self where
  moves := local_of_goto phaseEq mutexEq
  lists := .same ⟨fun _ => by rw [mutexEq], calm.same.2.2.1, calm.same.2.2.2.1,
      calm.same.2.2.2.2, fun _ _ _ => inserting_of_update phaseEq plain⟩
  pi := .of_calm calm (piPosition_of_outside phaseEq outside stays) fun _ => by rw [mutexEq]
  sections := sections

end

theorem Views.still (phaseEq : after.phase = s.phase) (calm : s.Calm after)
    (mutexEq : after.mutex = s.mutex) : Views policy s after self where
  moves := ⟨fun t _ => congrFun phaseEq t, fun _ _ => mutexEq ▸ .refl _⟩
  lists := .same ⟨fun _ => by rw [mutexEq], calm.same.2.2.1, calm.same.2.2.2.1,
      calm.same.2.2.2.2, fun _ _ _ inserting => phaseEq ▸ inserting⟩
  pi := .of_calm calm (funext fun t => congrArg Phase.piPosition (congrFun phaseEq t))
      fun _ => by rw [mutexEq]
  sections := .of_same (funext fun t => congrArg Phase.position (congrFun phaseEq t))
      mutexEq

theorem Views.atomicTryLock {won lost : Phase Id Thread}
    (outside : (s.phase self).piPosition = none)
    (plain : won.transient = false ∧ lost.transient = false)
    (stays : won.piPosition = none ∧ lost.piPosition = none)
    (sections : SectionStep policy s (s.atomicTryLock self id won lost)) :
    Views policy s (s.atomicTryLock self id won lost) self := by
  unfold State.atomicTryLock at sections ⊢
  split at sections
  · next isLocked =>
    rw [if_pos isLocked]
    exact .goto rfl rfl outside rfl plain.2 stays.2 sections
  · next isFree =>
    rw [if_neg isFree]
    exact .store rfl rfl outside rfl (.inr ⟨rfl, rfl, rfl, rfl, rfl⟩) rfl rfl plain.1 stays.1
      sections

theorem SectionStep.atomicTryLock {won lost : Phase Id Thread}
    (outside : (s.phase self).position = none) (wonStays : won.position = none)
    (lostStays : lost.position = none) :
    SectionStep policy s (s.atomicTryLock self id won lost) := by
  unfold State.atomicTryLock
  split
  · exact .of_same (position_of_outside rfl outside lostStays) rfl
  refine .outside (position_of_outside rfl outside wonStays) ?_ ?_
  · exact forall_mutex_of_store (fun other new => new.waitersLock = (s.mutex other).waitersLock)
      rfl rfl fun _ => rfl
  · exact forall_mutex_of_store (fun other new => SameProtected (s.mutex other) new)
      rfl ⟨rfl, rfl, rfl, rfl, rfl⟩ fun _ => .refl _

theorem Views.lockWaiters {pc : GuardedPc Thread} (isEntry : pc.isEntry = true)
    (outside : (s.phase self).piPosition = none)
    (taken : s.lockWaiters self id pc = some after) : Views policy s after self := by
  obtain ⟨isFree, ⟨⟩⟩ := ite_none_right_eq_some.mp taken
  refine .store rfl rfl outside rfl (.inr ⟨rfl, rfl, rfl, rfl, rfl⟩) rfl rfl ?_ ?_
    (.enter self id pc isEntry isFree (State.position_goto _ _ _) rfl)
  all_goals
    cases pc with
    | retry | check | branch | attach => rfl
    | _ => cases isEntry

theorem Views.lockPi (taken : s.lockPi self target phase = some after)
    (enters : phase.piPosition = some (target, .update)) (plain : phase.transient = false)
    (sections : SectionStep policy s after) : Views policy s after self := by
  obtain ⟨isFree, ⟨⟩⟩ := ite_none_right_eq_some.mp taken
  refine ⟨local_of_goto rfl rfl, .same ⟨fun _ => rfl, rfl, rfl, rfl,
    fun _ _ _ => inserting_of_update rfl plain⟩, .acquire self target isFree ?_
    (State.share_storePiLock s target (some self)) ⟨fun _ => rfl, rfl⟩, sections⟩
  rw [← enters]
  exact piPosition_of_update rfl

theorem Views.execLock {pc : LockPc} (selfAt : s.phase self = .lock id pc)
    (taken : execLock policy s self id pc = some after) : Views policy s after self := by
  have outside := State.piPosition_eq selfAt
  have outer := State.position_eq selfAt
  cases pc with
  | tryLock | enterTry =>
    cases taken
    exact .atomicTryLock outside ⟨rfl, rfl⟩ ⟨rfl, rfl⟩ (.atomicTryLock outer rfl rfl)
  | enter | loop | enterNull =>
    simp only [LaOS.Mutex.execLock] at taken
    split at taken <;> cases taken <;>
      exact .goto rfl rfl outside rfl rfl rfl (.of_same (position_of_outside rfl outer rfl) rfl)
  | slowAcquire =>
    refine .lockWaiters ?_ outside taken
    cases policy id with
    | raw => rfl
    | handoff => rfl
  | attachAcquire => exact .lockWaiters rfl outside taken
  | sched =>
    cases taken
    exact .goto rfl rfl outside rfl rfl rfl (.of_same (position_of_outside rfl outer rfl) rfl)

theorem Views.execUnlock {pc : UnlockPc} (selfAt : s.phase self = .unlock id pc)
    (taken : execUnlock s self id pc = some after) : Views policy s after self := by
  have outside := State.piPosition_eq selfAt
  cases pc with
  | checkOwner =>
    cases taken
    exact .goto rfl rfl outside rfl rfl rfl
      (.of_same (position_of_outside rfl (State.position_eq selfAt) rfl) rfl)
  | acquire => exact .lockWaiters rfl outside taken

variable {stage : PiStage}

theorem Views.execDonate {donation : Donation Thread}
    (selfAt : s.phase self = .guarded id (.donate stage target donation))
    (taken : execDonate s self id target donation stage = some after)
    (sections : SectionStep policy s after) : Views policy s after self := by
  have pos := State.piPosition_eq selfAt
  cases stage with
  | acquire => exact .lockPi taken rfl rfl sections
  | update =>
    simp only [LaOS.Mutex.execDonate] at taken
    split at taken <;> cases taken
    next panic failed =>
      exact ⟨⟨fun _ _ => rfl, fun _ _ => .refl _⟩, .same ⟨fun _ => rfl, rfl, rfl, rfl,
        fun _ _ _ inserting => inserting⟩, .fail self id target donation panic selfAt failed
        rfl, sections⟩
    next donations updated =>
      refine ⟨local_of_store rfl rfl (.inl ⟨_, selfAt⟩), .same ⟨?_, rfl, rfl, rfl,
        fun _ _ _ => inserting_of_update rfl rfl⟩,
        .donate self id target donation donations selfAt updated rfl, sections⟩
      exact forall_mutex_of_store (fun other new => new.waiters = (s.mutex other).waiters)
        rfl rfl fun _ => rfl
  | apply =>
    cases taken
    exact ⟨local_of_goto rfl rfl, .same ⟨fun _ => rfl, rfl, rfl, rfl,
      fun _ _ _ => inserting_of_update rfl rfl⟩,
      .apply self target pos (State.piPosition_goto _ _ _) rfl ⟨fun _ => rfl, rfl⟩, sections⟩
  | release =>
    cases taken
    refine ⟨local_of_goto rfl rfl, .same ⟨fun _ => rfl, rfl, rfl, rfl,
      fun _ _ _ => inserting_of_update rfl ?_⟩, .release self target pos ?_
      (State.share_storePiLock s target none) ⟨fun _ => rfl, rfl⟩, sections⟩
    · cases donation <;> rfl
    · rw [piPosition_of_update rfl]
      cases donation <;> rfl

theorem Views.execGuarded {pc : GuardedPc Thread} (selfAt : s.phase self = .guarded id pc)
    (taken : execGuarded policy s self id pc = some after) : Views policy s after self := by
  have inside : ∃ pc, s.phase self = .guarded id pc := ⟨pc, selfAt⟩
  have sections := SectionStep.inside self id pc selfAt taken
  have outside := State.piPosition_eq selfAt
  cases pc with
  | retry | checkTry =>
    cases taken
    exact .atomicTryLock outside ⟨rfl, rfl⟩ ⟨rfl, rfl⟩ sections
  | check | checkNull | branch | detach =>
    simp only [LaOS.Mutex.execGuarded] at taken
    split at taken <;> cases taken <;> exact .goto rfl rfl outside rfl rfl rfl sections
  | enqueue =>
    simp only [LaOS.Mutex.execGuarded] at taken
    split at taken <;> cases taken
    · exact .goto rfl rfl outside rfl rfl rfl sections
    · exact ⟨local_of_goto rfl rfl, .block self id selfAt rfl,
        .of_calm rfl (piPosition_of_outside rfl outside rfl) fun _ => rfl, sections⟩
  | insert i =>
    have inserts : (∀ next, (s.mutex id).waiters[i]? = some next →
        s.priority self < s.priority next) →
        SectionStep policy s (insertWaiter s self id i) →
        Views policy s (insertWaiter s self id i) self := by
      intro stops sections
      refine ⟨local_of_store rfl rfl (.inl inside), .insert self id i selfAt stops rfl,
        .same (piPosition_of_outside rfl outside rfl) rfl ⟨?_, rfl⟩, sections⟩
      exact forall_mutex_of_store (fun other new => new.credit = (s.mutex other).credit)
        rfl rfl fun _ => rfl
    simp only [LaOS.Mutex.execGuarded] at taken
    split at taken
    next last =>
      cases taken
      exact inserts (by simp [last]) sections
    next waiter found =>
      split at taken <;> cases taken
      next less =>
        refine inserts (fun next nextEq => ?_) sections
        rw [found] at nextEq
        cases nextEq
        exact less
      next passes =>
        exact ⟨local_of_goto rfl rfl, .scan self id i waiter selfAt found passes rfl,
          .of_calm rfl (piPosition_of_outside rfl outside rfl) fun _ => rfl, sections⟩
  | attach | storeDonated =>
    cases taken
    exact .store rfl rfl outside rfl (.inl inside) rfl rfl rfl rfl sections
  | refresh =>
    simp only [LaOS.Mutex.execGuarded] at taken
    split at taken
    · cases taken
      exact .goto rfl rfl outside rfl rfl rfl sections
    · split at taken <;> cases taken <;> exact .goto rfl rfl outside rfl rfl rfl sections
  | donate => exact .execDonate selfAt taken sections
  | release ending =>
    cases ending with
    | acquired | asleep | released =>
      cases taken
      exact .store rfl rfl outside rfl (.inl inside) rfl rfl rfl rfl sections
  | detachStore transfer =>
    cases transfer with
    | clear | handOver =>
      cases taken
      exact .store rfl rfl outside rfl (.inl inside) rfl rfl rfl rfl sections
  | clear wakes =>
    cases taken
    cases wakes <;> exact .store rfl rfl outside rfl (.inl inside) rfl rfl rfl rfl sections
  | wake next =>
    simp only [LaOS.Mutex.execGuarded] at taken
    split at taken <;> cases taken
    next => cases next <;> exact .goto rfl rfl outside rfl rfl rfl sections
    next woken rest first =>
      refine ⟨local_of_store rfl rfl (.inl inside), .remove self id next woken rest selfAt first rfl,
        .same (piPosition_of_outside rfl outside rfl) rfl ⟨?_, rfl⟩, sections⟩
      exact forall_mutex_of_store (fun other new => new.credit = (s.mutex other).credit)
        rfl rfl fun _ => rfl
  | ready woken next =>
    cases taken
    cases next <;> exact .goto rfl rfl outside rfl rfl rfl sections

theorem Views.execSetBase {prio : Priority}
    (selfAt : s.phase self = .setBase stage target prio)
    (taken : execSetBase s self target prio stage = some after) :
    Views policy s after self := by
  have pos := State.piPosition_eq selfAt
  have outer := State.position_eq selfAt
  cases stage with
  | acquire =>
    refine .lockPi taken rfl rfl ?_
    obtain ⟨-, ⟨⟩⟩ := ite_none_right_eq_some.mp taken
    exact .of_same (position_of_outside rfl outer rfl) rfl
  | update | apply | release =>
    cases taken
    refine ⟨local_of_goto rfl rfl, .same ⟨fun _ => rfl, rfl, rfl, rfl,
      fun _ _ _ => inserting_of_update rfl rfl⟩, ?_,
      .of_same (position_of_outside rfl outer rfl) rfl⟩
    first
    | exact .rebase self target prio pos (State.piPosition_goto _ _ _)
        (State.share_storeBase s target prio) ⟨fun _ => rfl, rfl⟩
    | exact .apply self target pos (State.piPosition_goto _ _ _) rfl ⟨fun _ => rfl, rfl⟩
    | exact .release self target pos (State.piPosition_goto _ _ _)
        (State.share_storePiLock s target none) ⟨fun _ => rfl, rfl⟩

theorem Views.exec (taken : exec policy s self = some after) :
    Views policy s after self := by
  unfold LaOS.Mutex.exec at taken
  split at taken
  next => cases taken
  next id pc selfAt => exact .execLock selfAt taken
  next id pc selfAt => exact .execUnlock selfAt taken
  next id pc selfAt => exact .execGuarded selfAt taken
  next target prio selfAt =>
    simp only [execSetPriority] at taken
    repeat' split at taken
    all_goals
      cases taken
      exact .goto rfl rfl (State.piPosition_eq selfAt) rfl rfl rfl
        (.of_same (position_of_outside rfl (State.position_eq selfAt) rfl) rfl)
  next stage target prio selfAt => exact .execSetBase selfAt taken

theorem step_views {action : Action Id Thread} (taken : step policy s action = some after) :
    Views policy s after action.thread := by
  unfold step at taken
  split at taken
  · cases taken
  cases action with
  | exec t =>
    obtain ⟨-, taken⟩ := ite_none_right_eq_some.mp taken
    exact .exec taken
  | callLock t | callUnlock t | callSetPriority t =>
    obtain ⟨guards, ⟨⟩⟩ := ite_none_right_eq_some.mp taken
    have idle : s.phase t = .idle := by tauto
    exact .goto rfl rfl (State.piPosition_eq idle) rfl rfl rfl
      (.of_same (position_of_outside rfl (State.position_eq idle) rfl) rfl)
  | preempt | dispatch =>
    obtain ⟨-, ⟨⟩⟩ := ite_none_right_eq_some.mp taken
    exact .still rfl rfl rfl

end Views

section Shares

variable [DecidableEq Thread] {s after : State Id Thread} {target : Thread}

theorem share_field_of_update {Value : Type} (field : Share Thread → Value) {share : Share Thread}
    (shareEq : after.share = update s.share target share)
    (kept : field share = field (s.share target)) (t : Thread) :
    field (after.share t) = field (s.share t) := by
  rw [shareEq]
  by_cases same : t = target
  · subst same
    rw [update_self, kept]
  · rw [update_of_ne same]

theorem PiStep.priority [DecidableEq Id] (taken : PiStep s after) :
    after.priority = s.priority ∨ ∃ self target, s.piPosition self = some (target, .apply) ∧
        after.piPosition self = some (target, .release) ∧
        ∀ t, t ≠ target → after.priority t = s.priority t := by
  cases taken with
  | same _ shareEq =>
    exact .inl (funext fun t => congrArg Share.priority (congrFun shareEq t))
  | acquire _ _ _ _ shareEq | rebase _ _ _ _ _ shareEq | release _ _ _ _ shareEq =>
    exact .inl (funext (share_field_of_update Share.priority shareEq rfl))
  | donate _ _ _ _ _ _ _ afterEq | fail _ _ _ _ _ _ _ afterEq =>
    subst afterEq
    exact .inl rfl
  | apply self target selfAt positionEq shareEq =>
    refine .inr ⟨self, target, selfAt, ?_, fun t ne => ?_⟩
    · rw [positionEq, update_self]
    · have shareOf := congrFun shareEq t
      rw [State.share_applyEffectivePriority, update_of_ne ne] at shareOf
      exact congrArg Share.priority shareOf

end Shares

variable [DecidableEq Id] [DecidableEq Thread] {policy : Id → Policy}
  {quiet : Id → Fields Thread → Prop}
  {within : Id → Thread → Fields Thread → GuardedPc Thread → Prop}
  {s after : State Id Thread} {self : Thread} {id : Id} {pc next : GuardedPc Thread}
  {fields : Fields Thread} {phase : Phase Id Thread}

section

variable (guarded : Guarded Fields.waitersLock quiet within s.position s.mutex)

include guarded

theorem guarded_goto (selfAt : s.phase self = .guarded id pc)
    (phaseEq : after.phase = update s.phase self (.guarded id next))
    (mutexEq : after.mutex = s.mutex) (ok : within id self (s.mutex id) next) :
    Guarded Fields.waitersLock quiet within after.position after.mutex := by
  rw [position_of_update phaseEq, mutexEq]
  exact guarded.step_same (State.position_eq selfAt) ok

theorem guarded_store (selfAt : s.phase self = .guarded id pc)
    (phaseEq : after.phase = update s.phase self (.guarded id next))
    (mutexEq : after.mutex = update s.mutex id fields)
    (lockKept : fields.waitersLock = (s.mutex id).waitersLock)
    (ok : within id self fields next) :
    Guarded Fields.waitersLock quiet within after.position after.mutex := by
  have pos := State.position_eq selfAt
  rw [position_of_update phaseEq, mutexEq]
  exact guarded.step pos (lockKept.trans (guarded.holds self id pc pos)) ok

theorem guarded_release (selfAt : s.phase self = .guarded id pc)
    (phaseEq : after.phase = update s.phase self phase)
    (mutexEq : after.mutex = update s.mutex id fields)
    (leaves : phase.position = none) (ok : quiet id fields) :
    Guarded Fields.waitersLock quiet within after.position after.mutex := by
  rw [position_of_update phaseEq, mutexEq, leaves]
  exact guarded.release (State.position_eq selfAt) ok

end

/-- An assertion about the protected fields survives a step if it holds on entry to a section
and survives the instructions inside. -/
theorem SectionStep.guarded (taken : SectionStep policy s after)
    (guarded : Guarded Fields.waitersLock quiet within s.position s.mutex)
    (quietCongr : ∀ id before after, SameProtected before after → quiet id before → quiet id after)
    (withinCongr : ∀ id t before after pc, SameProtected before after →
      within id t before pc → within id t after pc)
    (enters : ∀ id t fields pc, pc.isEntry = true → quiet id fields →
      within id t fields pc) (instruction : ∀ self id pc, s.phase self = .guarded id pc →
      execGuarded policy s self id pc = some after →
      Guarded Fields.waitersLock quiet within after.position after.mutex) :
    Guarded Fields.waitersLock quiet within after.position after.mutex := by
  cases taken with
  | outside positionEq lockKept kept =>
    rw [positionEq]
    exact guarded.transfer lockKept (fun key => quietCongr key _ _ (kept key))
      fun t key pc _ => withinCongr key t _ _ pc (kept key)
  | enter self id pc isEntry isFree positionEq mutexEq =>
    rw [positionEq, mutexEq]
    have same : SameProtected (s.mutex id)
        { s.mutex id with waitersLock := some self } := ⟨rfl, rfl, rfl, rfl, rfl⟩
    exact guarded.acquire isFree rfl
      (enters id self _ pc isEntry (quietCongr id _ _ same (guarded.free id isFree)))
  | inside self id pc selfAt executed => exact instruction self id pc selfAt executed

end LaOS.Mutex
