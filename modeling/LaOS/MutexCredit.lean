import LaOS.MutexEffects

/-!
# The donation that a mutex has been counted for

`credit` is the donation that `pi_donations` counts for a mutex.  Inside the sections of
`waiters.lock` it runs ahead of `donated_priority`.
-/

namespace LaOS.Mutex

open Function

variable {Id Thread : Type}

def pledge (owner : Option Thread) (donated : Option Priority) : Option (Thread × Priority) :=
  owner.bind fun t => donated.map fun priority => (t, priority)

theorem pledge_eq_some {owner : Option Thread} {donated : Option Priority} {t : Thread}
    {priority : Priority} : pledge owner donated = some (t, priority) ↔
      owner = some t ∧ donated = some priority := by
  cases owner with
  | none => simp [pledge]
  | some other =>
    cases donated with
    | none | some old => simp [pledge]

def Backed (fields : Fields Thread) : Prop :=
  fields.waiters = [] → fields.credit = none

def Settled (fields : Fields Thread) : Prop :=
  fields.credit = pledge fields.owner fields.donatedPriority

/-- Before and after the counters are updated for a donation. -/
def DonationOk (fields : Fields Thread) (target : Thread) (donation : Donation Thread) :
    PiStage → Prop
  | .acquire | .update => fields.donatedPriority = donation.old ∧ Settled fields
  | .apply | .release => fields.credit = pledge (some target) donation.new

def CreditOk (fields : Fields Thread) : GuardedPc Thread → Prop
  | .donate stage target donation =>
    fields.owner = some target ∧ (fields.waiters = [] → donation.new = none) ∧
      DonationOk fields target donation stage
  | .storeDonated new _ => fields.credit = pledge fields.owner new
  | .detachStore _ => fields.credit = none
  | .clear _ | .wake _ | .ready _ _ => fields.owner = none ∧ fields.credit = none
  | _ => Settled fields

def CreditInv (s : State Id Thread) : Prop :=
  Guarded Fields.waitersLock (fun _ fields => Settled fields ∧ Backed fields)
    (fun _ _ fields pc => CreditOk fields pc ∧ Backed fields) s.position s.mutex

variable {fields : Fields Thread}

section Congruence

variable {before after : Fields Thread}

theorem SameProtected.settled (same : SameProtected before after) (ok : Settled before) :
    Settled after := by
  unfold Settled
  rw [same.credit, same.owner, same.donatedPriority]
  exact ok

theorem SameProtected.backed (same : SameProtected before after) (ok : Backed before) :
    Backed after := by
  unfold Backed
  rw [same.credit, same.waiters]
  exact ok

theorem SameProtected.creditOk (same : SameProtected before after) {pc : GuardedPc Thread}
    (ok : CreditOk before pc) : CreditOk after pc := by
  cases pc with
  | donate stage target donation =>
    obtain ⟨owned, backed, staged⟩ := ok
    refine ⟨same.owner.trans owned, same.waiters ▸ backed, ?_⟩
    cases stage with
    | acquire | update => exact ⟨same.donatedPriority.trans staged.1, same.settled staged.2⟩
    | apply | release => exact same.credit.trans staged
  | storeDonated new ending =>
    change after.credit = pledge after.owner new
    rw [same.credit, same.owner]
    exact ok
  | detachStore => exact same.credit.trans ok
  | clear | wake | ready => exact ⟨same.owner.trans ok.1, same.credit.trans ok.2⟩
  | _ => exact same.settled ok

theorem settled_of_unowned (unowned : fields.owner = none ∧ fields.credit = none) :
    Settled fields := by
  unfold Settled
  rw [unowned.1, unowned.2]
  rfl

theorem CreditOk.afterWake (unowned : fields.owner = none ∧ fields.credit = none)
    (next : Option Thread) : CreditOk fields (afterWake next) := by
  cases next with
  | none | some => exact settled_of_unowned unowned

theorem CreditOk.of_entry {pc : GuardedPc Thread} (isEntry : pc.isEntry = true)
    (ok : Settled fields) : CreditOk fields pc := by
  cases pc with
  | retry | check | branch | attach => exact ok
  | _ => cases isEntry

end Congruence

section Steps

variable {policy : Id → Policy} {s after : State Id Thread} {self : Thread} {id : Id}
  {pc : GuardedPc Thread}

theorem CreditInv.backed (inv : CreditInv s) (selfAt : s.phase self = .guarded id pc) :
    Backed (s.mutex id) :=
  (inv.inside self id pc (State.position_eq selfAt)).2

theorem CreditInv.ok (inv : CreditInv s) (selfAt : s.phase self = .guarded id pc) :
    CreditOk (s.mutex id) pc :=
  (inv.inside self id pc (State.position_eq selfAt)).1

variable [DecidableEq Id] [DecidableEq Thread]

section

variable (inv : CreditInv s)

include inv

variable {next : GuardedPc Thread}

theorem CreditInv.goto (selfAt : s.phase self = .guarded id pc)
    (phaseEq : after.phase = update s.phase self (.guarded id next))
    (mutexEq : after.mutex = s.mutex) (ok : CreditOk (s.mutex id) next) : CreditInv after :=
  guarded_goto inv selfAt phaseEq mutexEq ⟨ok, inv.backed selfAt⟩

theorem CreditInv.store (selfAt : s.phase self = .guarded id pc)
    (phaseEq : after.phase = update s.phase self (.guarded id next))
    (mutexEq : after.mutex = update s.mutex id fields)
    (lockKept : fields.waitersLock = (s.mutex id).waitersLock)
    (ok : CreditOk fields next) (backed : Backed fields) : CreditInv after :=
  guarded_store inv selfAt phaseEq mutexEq lockKept ⟨ok, backed⟩

theorem CreditInv.atomicTryLock (selfAt : s.phase self = .guarded id pc) (settled : Settled
    (s.mutex id)) :
    CreditInv (s.atomicTryLock self id (.guarded id (.attach self .acquired))
      (.guarded id .enqueue)) := by
  unfold State.atomicTryLock
  split
  · exact inv.goto selfAt rfl rfl settled
  · exact inv.store selfAt rfl rfl rfl settled (inv.backed selfAt)

theorem CreditInv.execDonate {stage : PiStage} {target : Thread} {donation : Donation Thread}
    (selfAt : s.phase self = .guarded id (.donate stage target donation))
    (ran : execDonate s self id target donation stage = some after) : CreditInv after := by
  obtain ⟨owned, backing, ok⟩ := inv.ok selfAt
  cases stage with
  | acquire =>
    obtain ⟨-, ⟨⟩⟩ := Option.ite_none_right_eq_some.mp ran
    exact inv.goto selfAt rfl rfl ⟨owned, backing, ok⟩
  | update =>
    simp only [LaOS.Mutex.execDonate] at ran
    split at ran <;> cases ran
    · exact inv
    refine inv.store selfAt rfl rfl rfl ⟨owned, backing, rfl⟩ ?_
    intro uncontended
    rw [backing uncontended]
    rfl
  | apply =>
    cases ran
    exact inv.goto selfAt rfl rfl ⟨owned, backing, ok⟩
  | release =>
    cases ran
    refine inv.goto selfAt rfl rfl ?_
    cases donation with
    | refresh old new ending =>
      change (s.mutex id).credit = pledge (s.mutex id).owner new
      rw [owned]
      exact ok
    | detach => exact ok

theorem CreditInv.execGuarded (owner : OwnerInv policy s)
    (selfAt : s.phase self = .guarded id pc)
    (ran : execGuarded policy s self id pc = some after) : CreditInv after := by
  have ok := inv.ok selfAt
  have backed := inv.backed selfAt
  cases pc with
  | retry | checkTry =>
    cases ran
    exact inv.atomicTryLock selfAt ok
  | check | checkNull | enqueue | branch =>
    simp only [LaOS.Mutex.execGuarded] at ran
    split at ran <;> cases ran <;> exact inv.goto selfAt rfl rfl ok
  | insert i =>
    have nonempty : ∀ waiters, insertBefore waiters i self ≠ [] := by
      intro waiters empty
      have length := length_insertBefore waiters i self
      simp [empty] at length
    simp only [LaOS.Mutex.execGuarded] at ran
    split at ran
    · cases ran
      exact inv.store selfAt rfl rfl rfl ok fun empty => absurd empty (nonempty _)
    · split at ran <;> cases ran
      · exact inv.store selfAt rfl rfl rfl ok fun empty => absurd empty (nonempty _)
      · exact inv.goto selfAt rfl rfl ok
  | attach newOwner ending =>
    cases ran
    have unowned := (owner.ok selfAt).1.2
    have uncounted : (s.mutex id).credit = none := by
      rw [ok, unowned]
      rfl
    exact inv.store selfAt rfl rfl rfl uncounted fun _ => uncounted
  | refresh ending =>
    simp only [LaOS.Mutex.execGuarded] at ran
    split at ran
    · cases ran
      exact inv.goto selfAt rfl rfl ok
    split at ran <;> cases ran
    next unowned =>
      refine inv.goto selfAt rfl rfl ?_
      change (s.mutex id).credit = pledge (s.mutex id).owner _
      rw [ok, unowned]
      rfl
    next target owned =>
      refine inv.goto selfAt rfl rfl ⟨owned, ?_, rfl, ok⟩
      intro uncontended
      simp [Donation.new, uncontended]
  | donate => exact inv.execDonate selfAt ran
  | storeDonated new ending =>
    cases ran
    exact inv.store selfAt rfl rfl rfl ok backed
  | release ending =>
    cases ending with
    | acquired | asleep | released =>
      cases ran
      exact guarded_release inv selfAt rfl rfl rfl ⟨ok, backed⟩
  | detach transfer =>
    simp only [LaOS.Mutex.execGuarded] at ran
    split at ran <;> cases ran
    next target priority owned donated =>
      exact inv.goto selfAt rfl rfl ⟨owned, fun _ => rfl, donated, ok⟩
    next undonated =>
      refine inv.goto selfAt rfl rfl ?_
      change (s.mutex id).credit = none
      rw [ok]
      cases owned : (s.mutex id).owner with
      | none => rfl
      | some target =>
        cases donated : (s.mutex id).donatedPriority with
        | none => rfl
        | some priority => exact absurd donated (undonated target priority owned)
  | detachStore transfer =>
    cases transfer with
    | clear | handOver =>
      cases ran
      exact inv.store selfAt rfl rfl rfl ⟨rfl, ok⟩ backed
  | clear wakes =>
    cases ran
    refine inv.store selfAt rfl rfl rfl ?_ backed
    cases wakes with
    | true => exact ok
    | false => exact settled_of_unowned ok
  | wake next =>
    simp only [LaOS.Mutex.execGuarded] at ran
    split at ran <;> cases ran
    · exact inv.goto selfAt rfl rfl (.afterWake ok next)
    · exact inv.store selfAt rfl rfl rfl ok fun _ => ok.2
  | ready woken next =>
    cases ran
    exact inv.goto selfAt rfl rfl (.afterWake ok next)

theorem CreditInv.step (owner : OwnerInv policy s)
    {action : Action Id Thread} (ran : step policy s action = some after) : CreditInv after :=
  (step_views ran).sections.guarded inv
    (fun _ _ _ same ok => ⟨same.settled ok.1, same.backed ok.2⟩)
    (fun _ _ _ _ _ same ok => ⟨same.creditOk ok.1, same.backed ok.2⟩)
    (fun _ _ _ _ isEntry ok => ⟨.of_entry isEntry ok.1, ok.2⟩)
    fun _ _ _ selfAt executed => inv.execGuarded owner selfAt executed

end

theorem creditInv_of_reachable (reached : (system policy).Reachable s) : CreditInv s := by
  refine reached.invariant ?_ fun _ _ _ before inv ran =>
    inv.step (ownerInv_of_reachable before) ran
  rintro first ⟨basePriority, rfl⟩
  exact ⟨fun _ _ => ⟨rfl, fun _ => rfl⟩, nofun, nofun⟩

end Steps

end LaOS.Mutex
