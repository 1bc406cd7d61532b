import LaOS.MutexOwnership

/-!
# Mutual exclusion

At most one thread is inside a mutex, it is the owner, and the warnings about the owner
never fire, under either policy.
-/

namespace LaOS.Mutex

open Option

section Instructions

variable {Id Thread : Type} {policy : Id → Policy} {s after : State Id Thread}
  {self : Thread} {id : Id}

theorem OwnerInv.warnOn_false (inv : OwnerInv policy s) :
    OwnerInv policy (s.warnOn false) :=
  inv.congr rfl rfl rfl (Bool.or_false _)

variable [DecidableEq Thread] {phase : Phase Id Thread} {target : Thread} {stage : PiStage}

section

variable (inv : OwnerInv policy s)

include inv

theorem OwnerInv.goto_lock {pc : LockPc}
    (selfAt : s.phase self = .lock id pc) (next : LockPc) (claimless : next ≠ .attachAcquire) :
    OwnerInv policy (s.goto self (.lock id next)) := by
  refine inv.goto_outside (State.position_eq selfAt) rfl ?_ ?_
  · intro other attached claimEq
    cases next with
    | attachAcquire => exact absurd rfl claimless
    | _ => cases claimEq
  · intro other mutexEq
    cases mutexEq
    exact inv.apart self id (by rw [selfAt]; rfl)

theorem OwnerInv.goto_elsewhere (outside : s.position self = none)
    (stays : phase.position = none)
    (claimless : phase.claim = none) (mutexless : phase.mutex = none) :
    OwnerInv policy (s.goto self phase) := by
  refine inv.goto_outside outside stays ?_ ?_
  · intro other attached claimEq
    rw [claimless] at claimEq
    cases claimEq
  · intro other mutexEq
    rw [mutexless] at mutexEq
    cases mutexEq

theorem OwnerInv.execSetPriority {priority : Nat}
    (selfAt : s.phase self = .setPriority target priority)
    (taken : execSetPriority s self target priority = some after) : OwnerInv policy after := by
  have outside := State.position_eq selfAt
  simp only [Mutex.execSetPriority] at taken
  split at taken
  · split at taken <;> cases taken <;> exact inv.goto_elsewhere outside rfl rfl rfl
  · cases taken
    exact inv.goto_elsewhere outside rfl rfl rfl

theorem OwnerInv.execSetBase {priority : Priority}
    (selfAt : s.phase self = .setBase stage target priority)
    (taken : execSetBase s self target priority stage = some after) :
    OwnerInv policy after := by
  have outside := State.position_eq selfAt
  cases stage with
  | acquire =>
    obtain ⟨-, ⟨⟩⟩ := ite_none_right_eq_some.mp taken
    have locked : OwnerInv policy (s.storePiLock target (some self)) :=
      inv.congr rfl rfl rfl rfl
    exact locked.goto_elsewhere outside rfl rfl rfl
  | update =>
    cases taken
    have stored : OwnerInv policy (s.storeBase target priority) := inv.congr rfl rfl rfl rfl
    exact stored.goto_elsewhere outside rfl rfl rfl
  | apply =>
    cases taken
    have applied : OwnerInv policy (s.applyEffectivePriority target) :=
      inv.congr rfl rfl rfl rfl
    exact applied.goto_elsewhere outside rfl rfl rfl
  | release =>
    cases taken
    have unlocked : OwnerInv policy (s.storePiLock target none) := inv.congr rfl rfl rfl rfl
    exact unlocked.goto_elsewhere outside rfl rfl rfl

end

variable [DecidableEq Id]

theorem OwnerInv.storeHeld (inv : OwnerInv policy s) (idle : s.phase self = .idle)
    (owned : (s.mutex id).owner = some self) (value : Bool) :
    OwnerInv policy (s.storeHeld self id value) :=
  { inv with
    inside := by
      intro t other held
      by_cases isSelf : t = self
      · subst isSelf
        by_cases same : other = id
        · subst same
          exact owned
        · exact inv.inside t other (by simpa [State.storeHeld, same] using held)
      · exact inv.inside t other (by simpa [State.storeHeld, isSelf] using held)
    apart := by
      intro t other mutexEq
      have isOther : t ≠ self := by
        rintro rfl
        have impossible : (s.phase t).mutex = some other := mutexEq
        rw [idle] at impossible
        cases impossible
      simpa [State.storeHeld, isOther] using inv.apart t other mutexEq }

theorem OwnerInv.returnInside (inv : OwnerInv policy (s.goto self .idle))
    (owned : (s.mutex id).owner = some self) : OwnerInv policy (s.returnInside self id) :=
  inv.storeHeld (Function.update_self _ _ _) owned true

section

variable (inv : OwnerInv policy s)

include inv

theorem OwnerInv.atomicTryLock_outside {pc lost : LockPc}
    (selfAt : s.phase self = .lock id pc) (claimless : lost ≠ .attachAcquire) : OwnerInv policy
      (s.atomicTryLock self id (.lock id .attachAcquire) (.lock id lost)) := by
  unfold State.atomicTryLock
  split
  · exact (inv.goto_lock selfAt lost claimless).congr rfl rfl rfl rfl
  next unlocked =>
    obtain ⟨nobody, unowned⟩ := inv.unowned (Bool.eq_false_of_not_eq_true unlocked)
    have won : OwnerInv policy ((s.store id
        { s.mutex id with locked := true, holder := some self }).goto self
          (.lock id .attachAcquire)) := by
      refine inv.store_goto (by rw [selfAt]; rfl) (.inr (.inr nobody)) rfl ?_ ?_ ?_ ?_
      · intro t owner
        rw [unowned] at owner
        cases owner
      · exact inv.guarded.access (State.position_eq selfAt) rfl (fun _ => trivial)
          fun t pc ok => ok.taken nobody self
      · intro other attached claimEq
        cases claimEq
        exact ⟨rfl, rfl, unowned⟩
      · intro other mutexEq
        cases mutexEq
        rfl
    exact won.congr rfl rfl rfl rfl

theorem OwnerInv.execLock {pc : LockPc} (selfAt : s.phase self = .lock id pc)
    (taken : execLock policy s self id pc = some after) : OwnerInv policy after := by
  have outside := State.position_eq selfAt
  have mine : (s.phase self).mutex = some id := by rw [selfAt]; rfl
  cases pc with
  | tryLock | enterTry =>
    cases taken
    exact inv.atomicTryLock_outside selfAt (by simp)
  | enter | loop =>
    simp only [Mutex.execLock] at taken
    split at taken <;> cases taken
    next owned => exact (inv.goto_elsewhere outside rfl rfl rfl).returnInside owned
    next => exact inv.goto_lock selfAt _ (by simp)
  | enterNull =>
    simp only [Mutex.execLock] at taken
    split at taken <;> cases taken <;> exact inv.goto_lock selfAt _ (by simp)
  | slowAcquire =>
    refine inv.lockWaiters mine taken ?_
    cases policy id with
    | raw => trivial
    | handoff => trivial
  | attachAcquire =>
    have claim := inv.claims self id false (by rw [selfAt]; rfl)
    exact inv.lockWaiters mine taken ⟨claim, .inl ⟨rfl, rfl⟩⟩
  | sched =>
    cases taken
    refine (inv.goto_lock selfAt (policy id).loopTop ?_).congr rfl rfl rfl rfl
    cases policy id with
    | raw | handoff => simp [Policy.loopTop]

theorem OwnerInv.execUnlock {pc : UnlockPc} (selfAt : s.phase self = .unlock id pc)
    (taken : execUnlock s self id pc = some after) : OwnerInv policy after := by
  have mine : (s.phase self).mutex = some id := by rw [selfAt]; rfl
  have owned : (s.mutex id).owner = some self := inv.claims self id true (by rw [selfAt]; rfl)
  cases pc with
  | checkOwner =>
    cases taken
    have quiet : decide ((s.mutex id).owner ≠ none ∧
        (s.mutex id).owner ≠ some self) = false := by
      simp [owned]
    rw [quiet]
    refine inv.warnOn_false.goto_outside (by rw [State.position]; exact selfAt ▸ rfl) rfl ?_ ?_
    · intro other attached claimEq
      cases claimEq
      exact owned
    · intro other mutexEq
      cases mutexEq
      exact inv.apart self id mine
  | acquire => exact inv.lockWaiters mine taken owned

variable {pc : GuardedPc Thread}

theorem OwnerInv.atomicTryLock_guarded (selfAt : s.phase self = .guarded id pc) :
    OwnerInv policy (s.atomicTryLock self id (.guarded id (.attach self .acquired))
      (.guarded id .enqueue)) := by
  unfold State.atomicTryLock
  split
  next locked => exact (inv.guarded_goto selfAt .enqueue locked).congr rfl rfl rfl rfl
  next unlocked =>
    obtain ⟨nobody, unowned⟩ := inv.unowned (Bool.eq_false_of_not_eq_true unlocked)
    have won : OwnerInv policy ((s.store id
        { s.mutex id with locked := true, holder := some self }).goto self
          (.guarded id (.attach self .acquired))) := by
      refine inv.guarded_store selfAt rfl (.inr (.inr nobody)) rfl ?_ ?_
      · intro t owner
        rw [unowned] at owner
        cases owner
      · exact ⟨⟨rfl, unowned⟩, .inl ⟨rfl, rfl⟩⟩
    exact won.congr rfl rfl rfl rfl

theorem OwnerInv.release (selfAt : s.phase self = .guarded id pc)
    (outside : phase.position = none) (claimless : phase.claim = none)
    (apart : ∀ other, phase.mutex = some other → other = id) : OwnerInv policy
      ((s.store id { s.mutex id with waitersLock := none }).goto self phase) := by
  refine inv.store_goto (by rw [selfAt]; rfl) (.inl ⟨rfl, rfl⟩) (inv.lockWord id)
    (inv.ownerHolder id) ?_ ?_ apart
  · rw [outside]
    exact inv.guarded.release (State.position_eq selfAt) trivial
  · intro other attached claimEq
    rw [claimless] at claimEq
    cases claimEq

theorem OwnerInv.execDonate {donation : Donation Thread}
    (selfAt : s.phase self = .guarded id (.donate stage target donation))
    (taken : execDonate s self id target donation stage = some after) :
    OwnerInv policy after := by
  have ok := inv.ok selfAt
  have same : ∀ other, OwnerOk (policy id) self (s.mutex id)
      (.donate other target donation) := by
    intro other
    cases donation with
    | refresh => exact ok
    | detach => exact ok
  cases stage with
  | acquire =>
    obtain ⟨-, ⟨⟩⟩ := ite_none_right_eq_some.mp taken
    exact (inv.guarded_goto selfAt _ (same .update)).congr rfl rfl rfl rfl
  | update =>
    simp only [Mutex.execDonate] at taken
    split at taken <;> cases taken
    next => exact inv.congr rfl rfl rfl rfl
    next donations _ =>
      have donated : OwnerInv policy (s.storeDonations target donations) :=
        inv.congr rfl rfl rfl rfl
      refine donated.guarded_keep selfAt rfl rfl rfl rfl ?_
      cases donation with
      | refresh => exact ok
      | detach => exact ok
  | apply =>
    cases taken
    exact (inv.guarded_goto selfAt _ (same .release)).congr rfl rfl rfl rfl
  | release =>
    cases taken
    refine (inv.guarded_goto selfAt donation.next ?_).congr rfl rfl rfl rfl
    cases donation with
    | refresh => exact ok
    | detach => exact ok

theorem OwnerInv.execGuarded (selfAt : s.phase self = .guarded id pc)
    (taken : execGuarded policy s self id pc = some after) : OwnerInv policy after := by
  have pos := State.position_eq selfAt
  have ok := inv.guarded.inside self id _ pos
  cases pc with
  | retry | checkTry =>
    cases taken
    exact inv.atomicTryLock_guarded selfAt
  | check =>
    simp only [Mutex.execGuarded] at taken
    split at taken <;> cases taken
    next owned => exact inv.guarded_goto selfAt _ fun _ => owned
    next => exact inv.guarded_goto selfAt _ trivial
  | checkNull =>
    simp only [Mutex.execGuarded] at taken
    split at taken <;> cases taken
    next => exact inv.guarded_goto selfAt _ trivial
    next owned => exact inv.guarded_goto selfAt _ (inv.locked_of_owner owned)
  | enqueue =>
    simp only [Mutex.execGuarded] at taken
    split at taken <;> cases taken
    · exact inv.guarded_goto selfAt _ (by rintro ⟨⟩)
    · exact (inv.guarded_goto selfAt (.insert 0) ok).congr rfl rfl rfl rfl
  | insert i =>
    have inserted : OwnerInv policy (insertWaiter s self id i) := by
      have arrived : OwnerInv policy ((s.storeLinked self true).recordArrival self) :=
        inv.congr rfl rfl rfl rfl
      exact arrived.guarded_keep selfAt rfl rfl rfl rfl (by rintro ⟨⟩)
    simp only [Mutex.execGuarded] at taken
    split at taken
    · cases taken
      exact inserted
    · split at taken <;> cases taken
      · exact inserted
      · exact inv.guarded_goto selfAt _ ok
  | attach owner ending =>
    cases taken
    have quiet : (s.mutex id).owner.isSome = false := by rw [ok.1.2]; rfl
    have locked : (s.mutex id).locked = true := by rw [inv.lockWord id, ok.1.1]; rfl
    rw [quiet]
    refine inv.warnOn_false.guarded_store selfAt rfl (.inr (.inl ok.1.1)) locked
      (fun t owns => owns) ?_
    intro acquired
    rcases ok.2 with ⟨_, rfl⟩ | ⟨released, _⟩
    · rfl
    · rw [released] at acquired
      cases acquired
  | refresh ending =>
    simp only [Mutex.execGuarded] at taken
    split at taken
    · cases taken
      exact inv.guarded_goto selfAt _ ok
    · split at taken <;> cases taken <;> exact inv.guarded_goto selfAt _ ok
  | donate stage target donation => exact inv.execDonate selfAt taken
  | storeDonated priority ending =>
    cases taken
    exact inv.guarded_keep selfAt rfl rfl rfl rfl ok
  | release ending =>
    cases ending with
    | acquired =>
      cases taken
      have freed : OwnerInv policy ((s.store id
          { s.mutex id with waitersLock := none }).goto self .idle) :=
        inv.release selfAt rfl rfl (by rintro _ ⟨⟩)
      exact freed.returnInside (by simpa [State.store] using ok rfl)
    | asleep =>
      cases taken
      exact inv.release selfAt rfl rfl fun _ otherEq => by cases otherEq; rfl
    | released =>
      cases taken
      exact inv.release selfAt rfl rfl (by rintro _ ⟨⟩)
  | branch =>
    simp only [Mutex.execGuarded] at taken
    split at taken <;> cases taken
    next _ isRaw => exact inv.guarded_goto selfAt _ ⟨ok, isRaw⟩
    next isHandoff empty => exact inv.guarded_goto selfAt _ ⟨ok, isHandoff, empty⟩
    next next rest isHandoff waiting =>
      exact inv.guarded_goto selfAt _ ⟨ok, isHandoff, by rw [waiting]; rfl⟩
  | detach transfer =>
    simp only [Mutex.execGuarded] at taken
    split at taken <;> cases taken <;> exact inv.guarded_goto selfAt _ ok
  | detachStore transfer =>
    have mine := inv.ownerHolder id self ok.1
    cases transfer with
    | clear wakes | handOver next =>
      cases taken
      exact inv.guarded_store selfAt rfl (.inr (.inl mine)) (inv.lockWord id)
        (by rintro _ ⟨⟩) ⟨⟨mine, rfl⟩, ok.2⟩
  | clear wakes =>
    cases taken
    refine inv.guarded_store selfAt rfl (.inr (.inl ok.1.1)) rfl ?_ ?_
    · intro t owner
      have unowned := ok.1.2
      rw [owner] at unowned
      cases unowned
    · cases wakes with
      | true => exact ok.2
      | false => rintro ⟨⟩
  | wake next =>
    simp only [Mutex.execGuarded] at taken
    split at taken <;> cases taken
    next empty =>
      refine inv.guarded_goto selfAt _ ?_
      cases next with
      | none => rintro ⟨⟩
      | some next =>
        have first := ok.2.2
        rw [empty] at first
        cases first
    next woken rest waiting =>
      have unlinked : OwnerInv policy ((s.storeLinked woken false).storeWoken woken
        (if next = none then some id else none)) := inv.congr rfl rfl rfl rfl
      refine unlinked.guarded_keep selfAt rfl rfl rfl rfl ?_
      cases next with
      | none => exact ok
      | some next =>
        have first := ok.2.2
        rw [waiting] at first
        exact ⟨ok.1, ok.2.1, some.inj first⟩
  | ready woken next =>
    cases taken
    refine (inv.guarded_goto selfAt (afterWake next) ?_).congr rfl rfl rfl rfl
    cases next with
    | none => rintro ⟨⟩
    | some next => exact ⟨ok.1, .inr ⟨rfl, ok.2.1⟩⟩

theorem OwnerInv.exec (taken : exec policy s self = some after) : OwnerInv policy after := by
  unfold Mutex.exec at taken
  split at taken
  next => cases taken
  next id pc selfAt => exact inv.execLock selfAt taken
  next id pc selfAt => exact inv.execUnlock selfAt taken
  next id pc selfAt => exact inv.execGuarded selfAt taken
  next target priority selfAt => exact inv.execSetPriority selfAt taken
  next stage target priority selfAt => exact inv.execSetBase selfAt taken

theorem OwnerInv.callUnlock (idle : s.phase self = .idle) (held : s.held self id = true) :
    OwnerInv policy ((s.storeHeld self id false).goto self (.unlock id .checkOwner)) := by
  have left := inv.storeHeld idle (inv.inside self id held) false
  have outside : (s.storeHeld self id false).position self = none := by
    change (s.phase self).position = none
    rw [idle]
    rfl
  refine left.goto_outside outside rfl ?_ ?_
  · intro other attached claimEq
    cases claimEq
    exact inv.inside self id held
  · intro other mutexEq
    cases mutexEq
    simp [State.storeHeld]

theorem OwnerInv.step {action : Action Id Thread}
    (taken : step policy s action = some after) : OwnerInv policy after := by
  unfold Mutex.step at taken
  split at taken
  · cases taken
  cases action with
  | exec t =>
    obtain ⟨-, taken⟩ := ite_none_right_eq_some.mp taken
    exact inv.exec taken
  | callLock t id =>
    obtain ⟨guards, ⟨⟩⟩ := ite_none_right_eq_some.mp taken
    have outside := State.position_eq guards.2.1
    refine inv.goto_outside outside rfl ?_ ?_
    · intro other attached claimEq
      cases policyEq : policy id with
      | raw | handoff => simp [policyEq, Phase.claim] at claimEq
    · intro other mutexEq
      cases mutexEq
      exact guards.2.2
  | callUnlock t id =>
    obtain ⟨guards, ⟨⟩⟩ := ite_none_right_eq_some.mp taken
    exact inv.callUnlock guards.2.1 guards.2.2
  | callSetPriority t target priority =>
    obtain ⟨guards, ⟨⟩⟩ := ite_none_right_eq_some.mp taken
    have outside := State.position_eq guards.2
    exact inv.goto_elsewhere outside rfl rfl rfl
  | preempt t | dispatch t =>
    obtain ⟨-, ⟨⟩⟩ := ite_none_right_eq_some.mp taken
    exact inv.congr rfl rfl rfl rfl

end

end Instructions

section Runs

variable {Id Thread : Type} {policy : Id → Policy}

theorem ownerInv_initialState (basePriority : Thread → Priority) :
    OwnerInv policy (initialState basePriority : State Id Thread) where
  guarded := ⟨fun _ _ => trivial, nofun, nofun⟩
  lockWord _ := rfl
  ownerHolder := nofun
  claims := nofun
  inside := nofun
  apart := nofun
  unwarned := rfl

variable [DecidableEq Id] [DecidableEq Thread]

theorem ownerInv_of_reachable {s : State Id Thread}
    (reached : (system policy).Reachable s) : OwnerInv policy s := by
  refine reached.invariant ?_ fun _ _ _ _ inv taken => inv.step taken
  rintro first ⟨basePriority, rfl⟩
  exact ownerInv_initialState basePriority

/-- Under either policy, at most one thread is between `mutex_lock` and `mutex_unlock`, `owner`
names it, and neither `WARN_ON` fires. -/
theorem mutual_exclusion {s : State Id Thread} (reached : (system policy).Reachable s) :
    (∀ id first second, s.held first id = true → s.held second id = true → first = second) ∧
      (∀ id t, s.held t id = true → (s.mutex id).owner = some t) ∧
      s.warned = false := by
  have inv := ownerInv_of_reachable reached
  refine ⟨?_, fun id t => inv.inside t id, inv.unwarned⟩
  intro id first second firstHeld secondHeld
  have owner := inv.inside first id firstHeld
  rw [inv.inside second id secondHeld] at owner
  exact (some.inj owner).symm

def contended : State Unit (Fin 2) :=
  ((system fun _ => .raw).run (initialState fun _ => 32) (List.flatten
      [[.dispatch 0, .dispatch 1], .callLock 0 () :: List.replicate 5 (.exec 0),
        .callLock 1 () :: List.replicate 13 (.exec 1)])).getD (initialState fun _ => 32)

theorem initial_initialState (basePriority : Thread → Priority) :
    (system policy).initial (initialState basePriority : State Id Thread) :=
  ⟨basePriority, rfl⟩

theorem reachable_initialState (basePriority : Thread → Priority) :
    (system policy).Reachable (initialState basePriority : State Id Thread) :=
  .start (initial_initialState basePriority)

theorem contended_reachable : (system fun _ => .raw).Reachable contended :=
  (reachable_initialState _).getD_run _

theorem mutual_exclusion_contended :
    contended.held 0 () = true ∧ (contended.mutex ()).waiters = [1] ∧
      (∀ id first second, contended.held first id = true → contended.held second id = true →
        first = second) ∧
      (∀ id t, contended.held t id = true → (contended.mutex id).owner = some t) ∧
      contended.warned = false :=
  ⟨by decide, by decide, mutual_exclusion contended_reachable⟩

end Runs

end LaOS.Mutex
