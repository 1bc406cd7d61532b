import LaOS.MutexDonation
import LaOS.MutexHandoff

/-!
# Waiter order and donation freshness

A mutex donates the priority of its first waiter, which nothing may change while it
waits.  `thread_set_priority` rejects blocked threads, but tests this before it takes
`pi_lock`.
-/

namespace LaOS.Mutex

variable {Id Thread : Type}

/-- The mutex donates the priority of its first waiter. -/
def Fresh (priority : Thread → Priority) (fields : Fields Thread) : Prop :=
  fields.owner ≠ none → fields.donatedPriority = fields.waiters.head?.map priority

def FreshOk (priority : Thread → Priority) (fields : Fields Thread) : GuardedPc Thread → Prop
  | .attach _ _ | .refresh _ | .detach _ | .detachStore _ | .donate _ _ (.detach _ _) => True
  | .storeDonated new _ | .donate _ _ (.refresh _ new _) =>
    fields.owner ≠ none → new = fields.waiters.head?.map priority
  | .clear _ | .wake _ | .ready _ _ => fields.owner = none
  | _ => Fresh priority fields

/-- The assertion about freshness, under the priorities at some moment. -/
def FreshUnder (priority : Thread → Priority) (s : State Id Thread) : Prop :=
  Guarded Fields.waitersLock (fun _ => Fresh priority) (fun _ _ => FreshOk priority)
    s.position s.mutex

def FreshInv (s : State Id Thread) : Prop :=
  FreshUnder s.priority s

section Congruence

variable {prio : Thread → Priority} {before after : Fields Thread}

theorem SameProtected.fresh (same : SameProtected before after) (ok : Fresh prio before) :
    Fresh prio after := by
  unfold Fresh
  rw [same.owner, same.donatedPriority, same.waiters]
  exact ok

theorem SameProtected.freshOk (same : SameProtected before after) {pc : GuardedPc Thread}
    (ok : FreshOk prio before pc) : FreshOk prio after pc := by
  cases pc with
  | attach | refresh | detach | detachStore => trivial
  | storeDonated new ending =>
    change after.owner ≠ none → new = after.waiters.head?.map prio
    rw [same.owner, same.waiters]
    exact ok
  | donate stage target donation =>
    cases donation with
    | detach => trivial
    | refresh old new ending =>
      change after.owner ≠ none → new = after.waiters.head?.map prio
      rw [same.owner, same.waiters]
      exact ok
  | clear | wake | ready => exact same.owner.trans ok
  | _ => exact same.fresh ok

variable {fields : Fields Thread}

theorem FreshOk.of_entry {pc : GuardedPc Thread} (isEntry : pc.isEntry = true)
    (ok : Fresh prio fields) : FreshOk prio fields pc := by
  cases pc with
  | retry | check | branch => exact ok
  | attach => trivial
  | _ => cases isEntry

theorem FreshOk.afterWake (unowned : fields.owner = none)
    (next : Option Thread) : FreshOk prio fields (afterWake next) := by
  cases next with
  | none => exact fun owned => absurd unowned owned
  | some => trivial

variable {prio' : Thread → Priority}

theorem Fresh.congr (same : fields.waiters.head?.map prio' = fields.waiters.head?.map prio)
    (ok : Fresh prio fields) : Fresh prio' fields := by
  unfold Fresh
  rw [same]
  exact ok

theorem FreshOk.congr {pc : GuardedPc Thread}
    (same : fields.waiters.head?.map prio' = fields.waiters.head?.map prio)
    (ok : FreshOk prio fields pc) : FreshOk prio' fields pc := by
  cases pc with
  | storeDonated new ending =>
    change _ → new = fields.waiters.head?.map prio'
    rw [same]
    exact ok
  | donate stage target donation =>
    cases donation with
    | detach => trivial
    | refresh old new ending =>
      change _ → new = fields.waiters.head?.map prio'
      rw [same]
      exact ok
  | attach | refresh | detach | detachStore => trivial
  | clear | wake | ready => exact ok
  | _ => exact Fresh.congr same ok

end Congruence

variable {target : Thread} {action : Action Id Thread}

section Instructions

variable [DecidableEq Id] [DecidableEq Thread] {policy : Id → Policy}
  {s after : State Id Thread} {self : Thread} {id : Id} {pc : GuardedPc Thread}

theorem FreshUnder.execDonate (inv : FreshUnder s.priority s) {stage : PiStage}
    {donation : Donation Thread}
    (selfAt : s.phase self = .guarded id (.donate stage target donation))
    (ran : execDonate s self id target donation stage = some after) :
    FreshUnder s.priority after := by
  have ok := inv.inside self id _ (State.position_eq selfAt)
  have kept : ∀ later, FreshOk s.priority (s.mutex id) (.donate later target donation) := by
    intro later
    cases donation with
    | refresh => exact ok
    | detach => trivial
  cases stage with
  | acquire =>
    obtain ⟨-, ⟨⟩⟩ := Option.ite_none_right_eq_some.mp ran
    exact guarded_goto inv selfAt rfl rfl (kept .update)
  | update =>
    simp only [LaOS.Mutex.execDonate] at ran
    split at ran <;> cases ran
    · exact inv
    refine guarded_store inv selfAt rfl rfl rfl ?_
    cases donation with
    | refresh => exact ok
    | detach => trivial
  | apply =>
    cases ran
    exact guarded_goto inv selfAt rfl rfl (kept .release)
  | release =>
    cases ran
    refine guarded_goto inv selfAt rfl rfl ?_
    cases donation with
    | refresh => exact ok
    | detach => trivial

theorem FreshUnder.execGuarded (inv : FreshUnder s.priority s)
    (selfAt : s.phase self = .guarded id pc)
    (ran : execGuarded policy s self id pc = some after) :
    FreshUnder s.priority after := by
  have ok := inv.inside self id pc (State.position_eq selfAt)
  cases pc with
  | retry | checkTry =>
    cases ran
    unfold State.atomicTryLock
    split
    · exact guarded_goto inv selfAt rfl rfl ok
    · exact guarded_store inv selfAt rfl rfl rfl trivial
  | check | checkNull | enqueue =>
    simp only [LaOS.Mutex.execGuarded] at ran
    split at ran <;> cases ran <;> exact guarded_goto inv selfAt rfl rfl ok
  | insert i =>
    simp only [LaOS.Mutex.execGuarded] at ran
    split at ran
    · cases ran
      exact guarded_store inv selfAt rfl rfl rfl trivial
    · split at ran <;> cases ran
      · exact guarded_store inv selfAt rfl rfl rfl trivial
      · exact guarded_goto inv selfAt rfl rfl ok
  | attach newOwner ending =>
    cases ran
    exact guarded_store inv selfAt rfl rfl rfl trivial
  | refresh ending =>
    have computed : (s.mutex id).owner ≠ none →
        (((s.mutex id).owner.bind fun _ => (s.mutex id).waiters.head?).map
          s.priority) = (s.mutex id).waiters.head?.map s.priority := by
      intro owned
      obtain ⟨target, ownerEq⟩ := Option.ne_none_iff_exists'.mp owned
      rw [ownerEq]
      rfl
    simp only [LaOS.Mutex.execGuarded] at ran
    split at ran
    next unchanged =>
      cases ran
      exact guarded_goto inv selfAt rfl rfl fun owned => unchanged.trans (computed owned)
    next =>
      split at ran <;> cases ran <;> exact guarded_goto inv selfAt rfl rfl computed
  | donate => exact inv.execDonate selfAt ran
  | storeDonated new ending =>
    cases ran
    exact guarded_store inv selfAt rfl rfl rfl ok
  | release ending =>
    cases ending with
    | acquired | asleep | released =>
      cases ran
      exact guarded_release inv selfAt rfl rfl rfl ok
  | branch | detach transfer =>
    simp only [LaOS.Mutex.execGuarded] at ran
    split at ran <;> cases ran <;> exact guarded_goto inv selfAt rfl rfl trivial
  | detachStore transfer =>
    cases transfer with
    | clear | handOver =>
      cases ran
      exact guarded_store inv selfAt rfl rfl rfl rfl
  | clear wakes =>
    cases ran
    refine guarded_store inv selfAt rfl rfl rfl ?_
    cases wakes with
    | true => exact ok
    | false => exact fun owned => absurd ok owned
  | wake next =>
    simp only [LaOS.Mutex.execGuarded] at ran
    split at ran <;> cases ran
    · exact guarded_goto inv selfAt rfl rfl (.afterWake ok next)
    · exact guarded_store inv selfAt rfl rfl rfl ok
  | ready woken next =>
    cases ran
    exact guarded_goto inv selfAt rfl rfl (.afterWake ok next)

theorem ListStep.waiting (ran : ListStep s after) (queue : QueueInv policy s)
    {t : Thread} (mem : t ∈ (after.mutex id).waiters) : Waiting s t := by
  cases ran with
  | same kept =>
    rw [kept.waiters] at mem
    exact queue.waiting mem
  | block self other selfAt afterEq | scan self other i next selfAt nextEq passes afterEq =>
    subst afterEq
    exact queue.waiting mem
  | insert self other i selfAt stops afterEq =>
    subst afterEq
    rcases mem_waiters_insertWaiter.mp mem with ⟨rfl, rfl⟩ | before
    · exact .inr (by rw [selfAt]; rfl)
    · exact queue.waiting before
  | remove self other next woken rest selfAt first afterEq =>
    subst afterEq
    by_cases same : id = other
    · subst same
      rw [removeWaiter_mutex_self] at mem
      have before : t ∈ (s.mutex id).waiters := by
        rw [first]
        exact List.mem_cons_of_mem woken mem
      exact queue.waiting before
    · rw [removeWaiter_mutex_of_ne same] at mem
      exact queue.waiting mem

theorem FreshInv.step (inv : FreshInv s) (queue : QueueInv policy s)
    (steady : KeepsWaiters policy s action)
    (ran : step policy s action = some after) : FreshInv after := by
  have stale := (step_views ran).sections.guarded inv (fun _ _ _ same => same.fresh)
      (fun _ _ _ _ _ same => same.freshOk) (fun _ _ _ _ => FreshOk.of_entry)
      fun _ _ _ selfAt executed => FreshUnder.execGuarded inv selfAt executed
  have same : ∀ id, (after.mutex id).waiters.head?.map after.priority =
      (after.mutex id).waiters.head?.map s.priority := by
    intro id
    cases first : (after.mutex id).waiters with
    | nil => rfl
    | cons t rest =>
      have waiting :=
        (step_views ran).lists.waiting queue (by rw [first]; exact List.mem_cons_self)
      exact congrArg some (steady after ran t waiting)
  exact stale.transfer (fun _ => rfl) (fun id => Fresh.congr (same id))
    fun _ id _ _ => FreshOk.congr (same id)

theorem fresh_of_reachable (reached : (system policy).ReachableWhere (KeepsWaiters policy) s) :
    FreshInv s := by
  refine reached.invariant ?_ fun _ _ _ before inv steady ran =>
    inv.step (queueInv_of_reachable before.reachable) steady ran
  rintro first ⟨basePriority, rfl⟩
  exact ⟨fun _ _ owned => absurd rfl owned, nofun, nofun⟩

end Instructions

/-- The thread whose effective priority `thread_priority_update_donation` is
about to store. -/
def Phase.donatesTo : Phase Id Thread → Option Thread
  | .guarded _ (.donate .apply target _) => some target
  | _ => none

/-- The thread whose effective priority `thread_set_priority` is about to store. -/
def Phase.reprioritizes : Phase Id Thread → Option Thread
  | .setBase .apply target _ => some target
  | _ => none

/-- No waiting thread receives a donation from the step. -/
def DonatesToNoWaiter (s : State Id Thread) (action : Action Id Thread) : Prop :=
  ∀ target ∈ (s.phase action.thread).donatesTo, ¬ Waiting s target

/-- `thread_set_priority` stores the priority of no waiting thread. -/
def ReprioritizesNoWaiter (s : State Id Thread) (action : Action Id Thread) : Prop :=
  ∀ target ∈ (s.phase action.thread).reprioritizes, ¬ Waiting s target

instance (s : State Id Thread) (action : Action Id Thread) :
    Decidable (DonatesToNoWaiter s action) :=
  inferInstanceAs (Decidable (∀ target ∈ _, _))

instance (s : State Id Thread) (action : Action Id Thread) :
    Decidable (ReprioritizesNoWaiter s action) :=
  inferInstanceAs (Decidable (∀ target ∈ _, _))

/-- Neither of the two stores the priority of a waiting thread. -/
def SparesWaiters (s : State Id Thread) (action : Action Id Thread) : Prop :=
  DonatesToNoWaiter s action ∧ ReprioritizesNoWaiter s action

instance (s : State Id Thread) (action : Action Id Thread) :
    Decidable (SparesWaiters s action) :=
  inferInstanceAs (Decidable (_ ∧ _))

section Runs

variable {policy : Id → Policy} {s after : State Id Thread}

theorem applies_of_piPosition {phase : Phase Id Thread}
    (applies : phase.piPosition = some (target, .apply)) :
    phase.donatesTo = some target ∨ phase.reprioritizes = some target := by
  cases phase with
  | guarded id pc =>
    cases pc with
    | donate stage other donation =>
      cases stage with
      | apply =>
        cases applies
        exact .inl rfl
      | _ => cases applies
    | _ => cases applies
  | setBase stage other prio =>
    cases stage with
    | apply =>
      cases applies
      exact .inr rfl
    | _ => cases applies
  | _ => cases applies

variable [DecidableEq Id] [DecidableEq Thread]

/-- Only the two callers of `thread_apply_effective_priority` change a priority. -/
theorem SparesWaiters.keepsWaiters (spares : SparesWaiters s action) :
    KeepsWaiters policy s action := by
  intro after ran t waiting
  rcases (step_views ran).pi.priority with same | ⟨self, target, selfAt, applied, others⟩
  · rw [same]
  have isSelf : self = action.thread := by
    by_contra isOther
    have unmoved := State.piPosition_eq ((step_views ran).moves.phase self isOther)
    change after.piPosition self = s.piPosition self at unmoved
    rw [applied, selfAt] at unmoved
    cases unmoved
  subst isSelf
  refine others t ?_
  rintro rfl
  rcases applies_of_piPosition selfAt with donated | reprioritized
  · exact spares.1 t donated waiting
  · exact spares.2 t reprioritized waiting

/-- While the priority of no waiting thread is stored, a wait list whose lock is free is in
order of priority, and its mutex donates that of the first waiter. -/
theorem sorted_and_fresh_of_spared
    (reached : (system policy).ReachableWhere SparesWaiters s) (id : Id)
    (isFree : (s.mutex id).waitersLock = none) : (s.mutex id).waiters.Pairwise
        (fun first second => s.priority first ≤ s.priority second) ∧
      ((s.mutex id).owner ≠ none →
        (s.mutex id).donatedPriority = (s.mutex id).waiters.head?.map s.priority) := by
  have steady : (system policy).ReachableWhere (KeepsWaiters policy) s :=
    reached.mono fun _ _ spares => spares.keepsWaiters
  refine ⟨?_, (fresh_of_reachable steady).free id isFree⟩
  exact ((orderInv_of_reachable steady).sorted id).imp Precedes.rank_le

/-- The owner of a mutex runs at least at the priority of each thread that waits for it. -/
theorem owner_inherits [Fintype Id] (reached : (system policy).ReachableWhere SparesWaiters s)
    (id : Id) (t waiter : Thread) (isFree : (s.mutex id).waitersLock = none)
    (settled : s.piLock t = none) (owned : (s.mutex id).owner = some t)
    (waits : waiter ∈ (s.mutex id).waiters) :
    s.priority t ≤ s.priority waiter := by
  have steady : (system policy).ReachableWhere (KeepsWaiters policy) s :=
    reached.mono fun _ _ spares => spares.keepsWaiters
  have donated := (fresh_of_reachable steady).free id isFree (by simp [owned])
  have sorted := (orderInv_of_reachable steady).sorted id
  obtain ⟨first, rest, listed⟩ := List.exists_cons_of_ne_nil (List.ne_nil_of_mem waits)
  rw [listed] at donated sorted waits
  have credit : (s.mutex id).credit = some (t, s.priority first) := by
    rw [((creditInv_of_reachable reached.reachable).free id isFree).1, pledge_eq_some]
    exact ⟨owned, donated⟩
  have counted : s.piDonations t (s.priority first) ≠ 0 := by
    rw [(accountInv_of_reachable reached.reachable).counted]
    exact (@tally_pos _ _ _ _ (fun other => (s.mutex other).credit) id _ credit).ne'
  have applied : s.priority t = effectivePriority _ _ :=
    (shareInv_of_reachable reached.reachable).free t settled
  have bounded : s.priority t ≤ s.priority first :=
    applied ▸ (isLeast_effectivePriority _ _).2 (.inr counted)
  rcases List.mem_cons.mp waits with rfl | later
  · exact bounded
  · exact bounded.trans (Precedes.rank_le ((List.pairwise_cons.mp sorted).1 waiter later))

end Runs

/-- Thread 2 lowers the priority of thread 1 before thread 1 queues up behind
thread 0; thread 3 then overtakes thread 1. -/
def earlyReprioritization : List (Action Unit (Fin 4)) :=
  List.flatten
    [[.dispatch 0, .dispatch 1, .dispatch 2, .dispatch 3],
      .callLock 0 () :: List.replicate 5 (.exec 0),
      .callSetPriority 2 1 50 :: List.replicate 5 (.exec 2),
      .callLock 1 () :: List.replicate 12 (.exec 1),
      .callLock 3 () :: List.replicate 12 (.exec 3)]

def earlyReprioritizationRun : Run (fun _ : Unit => .raw) (Fin 4) earlyReprioritization.length :=
  TransitionSystem.executionOf (initialState fun _ => 32) (initial_initialState _)
    earlyReprioritization (.preempt 0) (by decide +kernel)

theorem sorted_and_fresh_earlyReprioritization :
    ((earlyReprioritizationRun.states 42).mutex ()).waiters = [3, 1] ∧
      ((earlyReprioritizationRun.states 42).mutex ()).donatedPriority =
        ((earlyReprioritizationRun.states 42).mutex ()).waiters.head?.map
          (earlyReprioritizationRun.states 42).priority := by
  have spares : ∀ i < earlyReprioritization.length,
      SparesWaiters (earlyReprioritizationRun.states i)
        (earlyReprioritizationRun.actions i) := by
    decide +kernel
  have reached := earlyReprioritizationRun.reachableWhere spares 42 (by decide)
  refine ⟨by decide +kernel, ?_⟩
  exact (sorted_and_fresh_of_spared reached () (by decide +kernel)).2 (by decide +kernel)

theorem owner_inherits_earlyReprioritization :
    (earlyReprioritizationRun.states 42).priority 0 ≤
      (earlyReprioritizationRun.states 42).priority 3 :=
  owner_inherits (earlyReprioritizationRun.reachableWhere (by decide +kernel) 42 (by decide)) () 0 3
    (by decide +kernel) (by decide +kernel) (by decide +kernel) (by decide +kernel)

/-- Thread 2 finds thread 1 running, threads 1 and 3 queue up behind thread 0, and only then
thread 2 lowers the priority of thread 1. -/
def lateReprioritization : List (Action Unit (Fin 4)) :=
  List.flatten
    [[.dispatch 0, .dispatch 1, .dispatch 2, .dispatch 3],
      .callLock 0 () :: List.replicate 5 (.exec 0),
      .callSetPriority 2 1 50 :: [.exec 2],
      .callLock 1 () :: List.replicate 12 (.exec 1),
      .callLock 3 () :: List.replicate 8 (.exec 3), List.replicate 4 (.exec 2)]

def lateReprioritizationRun : Run (fun _ : Unit => .raw) (Fin 4) lateReprioritization.length :=
  TransitionSystem.executionOf (initialState fun _ => 32) (initial_initialState _)
    lateReprioritization (.preempt 0) (by decide +kernel)

/-- All locks are free, no waiter received a donation, and still the list is out of order and
the donation is stale. -/
theorem lateReprioritization_stale : ∃ s : State Unit (Fin 4),
      (system fun _ => .raw).ReachableWhere DonatesToNoWaiter s ∧
        (∀ id, (s.mutex id).waitersLock = none) ∧ (∀ t, s.piLock t = none) ∧
        (s.mutex ()).owner = some 0 ∧ (s.mutex ()).waiters = [1, 3] ∧
        s.priority 3 < s.priority 1 ∧
        (s.mutex ()).donatedPriority ≠ (s.mutex ()).waiters.head?.map s.priority := by
  have permitted : ∀ i < lateReprioritization.length,
      DonatesToNoWaiter (lateReprioritizationRun.states i)
        (lateReprioritizationRun.actions i) := by
    decide +kernel
  refine ⟨lateReprioritizationRun.states lateReprioritization.length,
    lateReprioritizationRun.reachableWhere permitted _ le_rfl, ?_⟩
  decide +kernel

end LaOS.Mutex
