import LaOS.GuardedRecord
import LaOS.MutexMachine

/-!
# Ownership of a mutex

The lock word is taken outside `waiters.lock`, while `owner` is written under it.  The
history variable `holder` says for whom the lock word is taken.
-/

namespace LaOS.Mutex

open Option Function

variable {Id Thread : Type}

def Phase.position : Phase Id Thread → Option (Id × GuardedPc Thread)
  | .guarded id pc => some (id, pc)
  | _ => none

def Phase.mutex : Phase Id Thread → Option Id
  | .lock id _ | .unlock id _ | .guarded id _ => some id
  | _ => none

/-- The mutex that a thread outside `waiters.lock` has won but is not attached to (`false`), or
is about to unlock (`true`). -/
def Phase.claim : Phase Id Thread → Option (Id × Bool)
  | .lock id .attachAcquire => some (id, false)
  | .unlock id _ => some (id, true)
  | _ => none

/-- The lock word is taken for the thread, which is not the owner yet or any
more. -/
def Unattached (t : Thread) (fields : Fields Thread) : Prop :=
  fields.holder = some t ∧ fields.owner = none

def Claim (fields : Fields Thread) (t : Thread) : Bool → Prop
  | true => fields.owner = some t
  | false => Unattached t fields

/-- The planned end of an unlock fits the policy and the wait list. -/
def Transfer.Fits (policy : Policy) (fields : Fields Thread) : Transfer Thread → Prop
  | .clear true => policy = .raw
  | .clear false => policy = .handoff ∧ fields.waiters = []
  | .handOver next => policy = .handoff ∧ fields.waiters.head? = some next

/-- What the thread inside a section of `waiters.lock` knows about ownership. -/
def OwnerOk (policy : Policy) (self : Thread) (fields : Fields Thread) : GuardedPc Thread → Prop
  | .retry | .check | .checkNull | .checkTry => True
  | .enqueue | .insert _ => fields.locked = true
  | .attach owner ending =>
    Unattached self fields ∧
      (ending = .acquired ∧ owner = self ∨ ending = .released ∧ policy = .handoff)
  | .refresh ending | .storeDonated _ ending | .release ending
  | .donate _ _ (.refresh _ _ ending) => ending = .acquired → fields.owner = some self
  | .branch => fields.owner = some self
  | .detach transfer | .detachStore transfer | .donate _ _ (.detach _ transfer) =>
    fields.owner = some self ∧ transfer.Fits policy fields
  | .clear wakes => Unattached self fields ∧ (Transfer.clear wakes).Fits policy fields
  | .wake none | .ready _ none => policy = .raw
  | .wake (some next) => Unattached self fields ∧ (Transfer.handOver next).Fits policy fields
  | .ready woken (some next) => Unattached self fields ∧ policy = .handoff ∧ woken = next

def State.position (s : State Id Thread) (t : Thread) : Option (Id × GuardedPc Thread) :=
  (s.phase t).position

variable {t : Thread}

theorem State.position_eq {s : State Id Thread} {phase : Phase Id Thread}
    (threadAt : s.phase t = phase) : s.position t = phase.position :=
  congrArg Phase.position threadAt

structure OwnerInv (policy : Id → Policy) (s : State Id Thread) : Prop where
  guarded : Guarded Fields.waitersLock (fun _ _ => True) (fun id => OwnerOk (policy id))
    s.position s.mutex
  lockWord : ∀ id, (s.mutex id).locked = (s.mutex id).holder.isSome
  ownerHolder : ∀ id t, (s.mutex id).owner = some t →
    (s.mutex id).holder = some t
  claims : ∀ t id attached, (s.phase t).claim = some (id, attached) →
    Claim (s.mutex id) t attached
  inside : ∀ t id, s.held t id = true → (s.mutex id).owner = some t
  apart : ∀ t id, (s.phase t).mutex = some id → s.held t id = false
  unwarned : s.warned = false

variable {pc : GuardedPc Thread}

section Claims

variable {self : Thread}

/-- The change leaves the claims of other threads alone: ownership stays, or it was with `self`
or with nobody. -/
def Respects (self : Thread) (before after : Fields Thread) : Prop :=
  (after.owner = before.owner ∧ after.holder = before.holder) ∨
    before.holder = some self ∨ before.holder = none

theorem Claim.respected {before after : Fields Thread} {attached : Bool}
    (claim : Claim before t attached)
    (ownerHolder : ∀ t, before.owner = some t → before.holder = some t)
    (respects : Respects self before after) (isOther : t ≠ self) :
    Claim after t attached := by
  have holderEq : before.holder = some t := by
    cases attached with
    | true => exact ownerHolder t claim
    | false => exact claim.1
  rcases respects with ⟨ownerSame, holderSame⟩ | mine | nobody
  · cases attached with
    | true => exact ownerSame.trans claim
    | false => exact ⟨holderSame.trans claim.1, ownerSame.trans claim.2⟩
  · rw [holderEq] at mine
    exact absurd (some.inj mine) isOther
  · rw [holderEq] at nobody
    cases nobody

theorem OwnerOk.taken {policy : Policy} {fields : Fields Thread}
    (ok : OwnerOk policy self fields pc) (nobody : fields.holder = none) (winner : Thread) :
    OwnerOk policy self { fields with locked := true, holder := some winner } pc := by
  have attached : ¬ Unattached self fields := by
    intro unattached
    have held := unattached.1
    rw [nobody] at held
    cases held
  cases pc with
  | enqueue | insert => rfl
  | attach | clear => exact absurd ok.1 attached
  | wake next | ready _ next =>
    cases next with
    | none => exact ok
    | some next => exact absurd ok.1 attached
  | donate stage target donation =>
    cases donation with
    | refresh => exact ok
    | detach => exact ok
  | _ => exact ok

end Claims

section Updates

variable {policy : Id → Policy} {s : State Id Thread} {self : Thread} {id : Id}
  {fields : Fields Thread} {phase : Phase Id Thread}

section

variable (inv : OwnerInv policy s)

include inv

theorem OwnerInv.ok (selfAt : s.phase self = .guarded id pc) :
    OwnerOk (policy id) self (s.mutex id) pc :=
  inv.guarded.inside self id pc (State.position_eq selfAt)

theorem OwnerInv.exclusive {other : Thread}
    {otherPc : GuardedPc Thread} (selfAt : s.phase self = .guarded id pc)
    (otherAt : s.phase other = .guarded id otherPc) : other = self :=
  inv.guarded.exclusive (State.position_eq selfAt) (State.position_eq otherAt)

theorem OwnerInv.outside_of_free (isFree : (s.mutex id).waitersLock = none) (t : Thread)
    (pc : GuardedPc Thread) : s.phase t ≠ .guarded id pc :=
  fun threadAt => inv.guarded.outside_of_free isFree t pc (State.position_eq threadAt)

theorem OwnerInv.unowned (unlocked : (s.mutex id).locked = false) :
    (s.mutex id).holder = none ∧ (s.mutex id).owner = none := by
  have nobody : (s.mutex id).holder = none := by
    rw [inv.lockWord id] at unlocked
    exact isNone_iff_eq_none.mp (isSome_eq_false_iff.mp unlocked)
  refine ⟨nobody, ?_⟩
  cases ownerEq : (s.mutex id).owner with
  | none => rfl
  | some owner =>
    have held := inv.ownerHolder id owner ownerEq
    rw [nobody] at held
    cases held

theorem OwnerInv.locked_of_owner (owned : (s.mutex id).owner ≠ none) :
    (s.mutex id).locked = true := by
  by_contra unlocked
  exact owned (inv.unowned (Bool.eq_false_of_not_eq_true unlocked)).2

theorem OwnerInv.congr {other : State Id Thread}
    (mutexEq : other.mutex = s.mutex) (phaseEq : other.phase = s.phase)
    (heldEq : other.held = s.held) (warnedEq : other.warned = s.warned) :
    OwnerInv policy other := by
  have positionEq : other.position = s.position := by
    funext t
    rw [State.position, State.position, phaseEq]
  refine ⟨?_, ?_, ?_, ?_, ?_, ?_, ?_⟩
  · rw [positionEq, mutexEq]
    exact inv.guarded
  · rw [mutexEq]
    exact inv.lockWord
  · rw [mutexEq]
    exact inv.ownerHolder
  · rw [mutexEq, phaseEq]
    exact inv.claims
  · rw [mutexEq, heldEq]
    exact inv.inside
  · rw [phaseEq, heldEq]
    exact inv.apart
  · rw [warnedEq]
    exact inv.unwarned

end

variable [DecidableEq Thread]

theorem State.position_goto (s : State Id Thread) (self : Thread) (phase : Phase Id Thread) :
    (s.goto self phase).position = update s.position self phase.position :=
  comp_update Phase.position s.phase self phase

theorem OwnerInv.goto (inv : OwnerInv policy s)
    (guarded : Guarded Fields.waitersLock (fun _ _ => True) (fun id => OwnerOk (policy id))
      (update s.position self phase.position) s.mutex)
    (claim : ∀ id attached, phase.claim = some (id, attached) →
      Claim (s.mutex id) self attached)
    (apart : ∀ id, phase.mutex = some id → s.held self id = false) :
    OwnerInv policy (s.goto self phase) :=
  { inv with
    guarded := by
      rw [State.position_goto]
      exact guarded
    claims := by
      intro t id attached claimEq
      by_cases isSelf : t = self
      · subst isSelf
        simp only [State.goto, update_self] at claimEq
        exact claim id attached claimEq
      · simp only [State.goto, update_of_ne isSelf] at claimEq
        exact inv.claims t id attached claimEq
    apart := by
      intro t id mutexEq
      by_cases isSelf : t = self
      · subst isSelf
        simp only [State.goto, update_self] at mutexEq
        exact apart id mutexEq
      · simp only [State.goto, update_of_ne isSelf] at mutexEq
        exact inv.apart t id mutexEq }

theorem OwnerInv.goto_outside (inv : OwnerInv policy s)
    (outside : s.position self = none) (stays : phase.position = none)
    (claim : ∀ id attached, phase.claim = some (id, attached) →
      Claim (s.mutex id) self attached)
    (apart : ∀ id, phase.mutex = some id → s.held self id = false) :
    OwnerInv policy (s.goto self phase) :=
  inv.goto (by rw [stays]; exact inv.guarded.move_outside outside) claim apart

variable [DecidableEq Id]

section

variable (inv : OwnerInv policy s)

include inv

theorem OwnerInv.store_goto (mine : (s.phase self).mutex = some id)
    (respects : Respects self (s.mutex id) fields)
    (lockWord : fields.locked = fields.holder.isSome)
    (ownerHolder : ∀ t, fields.owner = some t → fields.holder = some t)
    (guarded : Guarded Fields.waitersLock (fun _ _ => True) (fun id => OwnerOk (policy id))
      (update s.position self phase.position) (update s.mutex id fields))
    (claim : ∀ other attached, phase.claim = some (other, attached) →
      other = id ∧ Claim fields self attached)
    (apart : ∀ other, phase.mutex = some other → other = id) :
    OwnerInv policy ((s.store id fields).goto self phase) := by
  have heldNot := inv.apart self id mine
  refine ⟨?_, ?_, ?_, ?_, ?_, ?_, inv.unwarned⟩
  · rw [State.position_goto]
    exact guarded
  · intro other
    by_cases same : other = id
    · subst same
      simpa [State.goto, State.store] using lockWord
    · simpa [State.goto, State.store, same] using inv.lockWord other
  · intro other t
    by_cases same : other = id
    · subst same
      simpa [State.goto, State.store] using ownerHolder t
    · simpa [State.goto, State.store, same] using inv.ownerHolder other t
  · intro t other attached claimEq
    by_cases isSelf : t = self
    · subst isSelf
      simp only [State.goto, update_self] at claimEq
      obtain ⟨rfl, ok⟩ := claim other attached claimEq
      simpa [State.goto, State.store] using ok
    simp only [State.goto, update_of_ne isSelf] at claimEq
    have before := inv.claims t other attached claimEq
    by_cases same : other = id
    · subst same
      simpa [State.goto, State.store] using
        before.respected (inv.ownerHolder other) respects isSelf
    · simpa [State.goto, State.store, same] using before
  · intro t other held
    have before := inv.inside t other held
    by_cases same : other = id
    · subst same
      have isOther : t ≠ self := by
        rintro rfl
        exact absurd held (by simp [State.goto, State.store, heldNot])
      have attached : Claim (s.mutex other) t true := before
      simpa [State.goto, State.store, Claim] using
        attached.respected (inv.ownerHolder other) respects isOther
    · simpa [State.goto, State.store, same] using before
  · intro t other mutexEq
    by_cases isSelf : t = self
    · subst isSelf
      simp only [State.goto, update_self] at mutexEq
      rw [apart other mutexEq]
      exact heldNot
    · simp only [State.goto, update_of_ne isSelf] at mutexEq
      exact inv.apart t other mutexEq

variable {next : GuardedPc Thread}

theorem OwnerInv.guarded_store (selfAt : s.phase self = .guarded id pc)
    (lockKept : fields.waitersLock = (s.mutex id).waitersLock)
    (respects : Respects self (s.mutex id) fields)
    (lockWord : fields.locked = fields.holder.isSome)
    (ownerHolder : ∀ t, fields.owner = some t → fields.holder = some t)
    (ok : OwnerOk (policy id) self fields next) :
    OwnerInv policy ((s.store id fields).goto self (.guarded id next)) := by
  have pos := State.position_eq selfAt
  refine inv.store_goto (by rw [selfAt]; rfl) respects lockWord ownerHolder ?_ ?_ ?_
  · exact inv.guarded.step pos (lockKept.trans (inv.guarded.holds _ _ _ pos)) ok
  · intro other attached impossible
    cases impossible
  · intro other otherEq
    cases otherEq
    rfl

theorem OwnerInv.guarded_keep (selfAt : s.phase self = .guarded id pc)
    (lockKept : fields.waitersLock = (s.mutex id).waitersLock)
    (lockedKept : fields.locked = (s.mutex id).locked)
    (ownerKept : fields.owner = (s.mutex id).owner)
    (holderKept : fields.holder = (s.mutex id).holder)
    (ok : OwnerOk (policy id) self fields next) :
    OwnerInv policy ((s.store id fields).goto self (.guarded id next)) := by
  refine inv.guarded_store selfAt lockKept (.inl ⟨ownerKept, holderKept⟩) ?_ ?_ ok
  · rw [lockedKept, holderKept]
    exact inv.lockWord id
  · rw [ownerKept, holderKept]
    exact inv.ownerHolder id

theorem OwnerInv.guarded_goto (selfAt : s.phase self = .guarded id pc) (next : GuardedPc Thread)
    (ok : OwnerOk (policy id) self (s.mutex id) next) :
    OwnerInv policy (s.goto self (.guarded id next)) := by
  refine inv.goto ?_ ?_ ?_
  · exact inv.guarded.step_same (State.position_eq selfAt) ok
  · intro other attached impossible
    cases impossible
  · intro other otherEq
    cases otherEq
    exact inv.apart self id (by rw [selfAt]; rfl)

theorem OwnerInv.lockWaiters {after : State Id Thread} (mine : (s.phase self).mutex = some id)
    (taken : s.lockWaiters self id next = some after)
    (ok : OwnerOk (policy id) self { s.mutex id with waitersLock := some self } next) :
    OwnerInv policy after := by
  obtain ⟨isFree, ⟨⟩⟩ := ite_none_right_eq_some.mp taken
  refine inv.store_goto mine (.inl ⟨rfl, rfl⟩) (inv.lockWord id) (inv.ownerHolder id)
    (inv.guarded.acquire isFree rfl ok) ?_ ?_
  · intro other attached impossible
    cases impossible
  · intro other otherEq
    cases otherEq
    rfl

end

end Updates

end LaOS.Mutex
