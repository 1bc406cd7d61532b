import LaOS.MutexEffects

/-!
# The order of a wait list

A wait list stays in order of priority, and of arrival among equal priorities, as long
as the priorities of the threads that are linked or look for their place do not change.
-/

namespace LaOS.Mutex

variable {Id Thread : Type}

/-- The thread is looking for its place on a wait list. -/
def Phase.inserting : Phase Id Thread → Bool
  | .guarded _ (.insert _) => true
  | _ => false

/-- The thread is on a wait list or is looking for its place on one. -/
def Waiting (s : State Id Thread) (t : Thread) : Prop :=
  s.linked t = true ∨ (s.phase t).inserting = true

instance (s : State Id Thread) (t : Thread) : Decidable (Waiting s t) :=
  inferInstanceAs (Decidable (_ ∨ _))

/-- The action changes the priority of no waiting thread. -/
def KeepsWaiters [DecidableEq Id] [DecidableEq Thread] (policy : Id → Policy)
    (s : State Id Thread) (action : Action Id Thread) : Prop :=
  ∀ after ∈ step policy s action,
    ∀ t, Waiting s t → after.priority t = s.priority t

instance [DecidableEq Id] [DecidableEq Thread] [Fintype Thread] (policy : Id → Policy)
    (s : State Id Thread) (action : Action Id Thread) :
    Decidable (KeepsWaiters policy s action) :=
  inferInstanceAs (Decidable (∀ after ∈ step policy s action, _))

/-- Smaller priority number first, and earlier arrival among equals. -/
def State.Before (s : State Id Thread) : Thread → Thread → Prop :=
  Precedes s.priority s.arrival

structure OrderInv (s : State Id Thread) : Prop where
  sorted : ∀ id, (s.mutex id).waiters.Pairwise s.Before
  arrived : ∀ id t, t ∈ (s.mutex id).waiters → s.arrival t < s.clock
  scanned : ∀ t id i, s.phase t = .guarded id (.insert i) →
    Scanned s.priority (s.mutex id).waiters t i

section Steps

variable {policy : Id → Policy} {s after : State Id Thread} {self : Thread} {id : Id}

theorem QueueInv.waiting (queue : QueueInv policy s) {t : Thread}
    (mem : t ∈ (s.mutex id).waiters) : Waiting s t :=
  .inl (queue.queued id t mem).2.1

theorem OrderInv.same (inv : OrderInv s) (queue : QueueInv policy s)
    (lists : SameLists s after)
    (steady : ∀ t, Waiting s t → after.priority t = s.priority t) :
    OrderInv after where
  sorted other := by
    rw [lists.waiters]
    refine (inv.sorted other).imp_of_mem fun firstIn secondIn before => ?_
    unfold State.Before Precedes at before ⊢
    rw [lists.arrival, steady _ (queue.waiting firstIn), steady _ (queue.waiting secondIn)]
    exact before
  arrived other t mem := by
    rw [lists.waiters] at mem
    rw [lists.arrival, lists.clock]
    exact inv.arrived other t mem
  scanned t other i inserting := by
    have before := lists.inserting t other i inserting
    rw [lists.waiters]
    intro earlier passed
    have mem := List.mem_of_mem_take passed
    rw [steady earlier (queue.waiting mem), steady t (.inr (by rw [before]; rfl))]
    exact inv.scanned t other i before earlier passed

variable [DecidableEq Thread]

theorem OrderInv.block (inv : OrderInv s) (selfAt : s.phase self = .guarded id .enqueue) :
    OrderInv ((s.storeStatus self .blocked).goto self (.guarded id (.insert 0))) where
  sorted := inv.sorted
  arrived := inv.arrived
  scanned t other i inserting := by
    by_cases isSelf : t = self
    · subst isSelf
      cases State.phase_goto_self.symm.trans inserting
      exact scanned_zero _ _ _
    · exact inv.scanned t other i
        ((State.phase_goto_of_ne isSelf).symm.trans inserting)

theorem OrderInv.scan (inv : OrderInv s) {i : Nat} {next : Thread}
    (selfAt : s.phase self = .guarded id (.insert i))
    (nextEq : (s.mutex id).waiters[i]? = some next)
    (passes : ¬ s.priority self < s.priority next) :
    OrderInv (s.goto self (.guarded id (.insert (i + 1)))) where
  sorted := inv.sorted
  arrived := inv.arrived
  scanned t other place inserting := by
    by_cases isSelf : t = self
    · subst isSelf
      cases State.phase_goto_self.symm.trans inserting
      exact (inv.scanned t id i selfAt).succ nextEq passes
    · exact inv.scanned t other place
        ((State.phase_goto_of_ne isSelf).symm.trans inserting)

variable [DecidableEq Id]

theorem OrderInv.insert (inv : OrderInv s) (queue : QueueInv policy s)
    (owner : OwnerInv policy s) {i : Nat}
    (selfAt : s.phase self = .guarded id (.insert i))
    (stops : ∀ next, (s.mutex id).waiters[i]? = some next →
      s.priority self < s.priority next) : OrderInv (insertWaiter s self id i) := by
  have arrivalSelf : (insertWaiter s self id i).arrival self = s.clock :=
    Function.update_self _ _ _
  have arrivalOther : ∀ t, t ≠ self →
      (insertWaiter s self id i).arrival t = s.arrival t :=
    fun t isOther => Function.update_of_ne isOther _ _
  have isOther : ∀ other t, t ∈ (s.mutex other).waiters → t ≠ self := by
    rintro other t mem rfl
    have sleeps := (queue.queued other t mem).2.2
    exact sleepless_of_guarded selfAt rfl other sleeps
  have older : ∀ other, (s.mutex other).waiters.Pairwise
      (insertWaiter s self id i).Before := by
    intro other
    refine (inv.sorted other).imp_of_mem fun {first second} firstIn secondIn before => ?_
    unfold State.Before Precedes at before ⊢
    rw [arrivalOther first (isOther other first firstIn),
      arrivalOther second (isOther other second secondIn)]
    exact before
  refine ⟨?_, ?_, ?_⟩
  · intro other
    by_cases same : other = id
    · subst same
      rw [insertWaiter_mutex_self]
      refine (inv.scanned self other i selfAt).pairwise_insertBefore (older other) stops ?_
      intro t mem
      rw [arrivalSelf, arrivalOther t (isOther other t mem)]
      exact inv.arrived other t mem
    · rw [insertWaiter_mutex_of_ne same]
      exact older other
  · intro other t mem
    change _ < s.clock + 1
    rcases mem_waiters_insertWaiter.mp mem with ⟨rfl, rfl⟩ | before
    · rw [arrivalSelf]
      omega
    · rw [arrivalOther t (isOther other t before)]
      have := inv.arrived other t before
      omega
  · intro t other place inserting
    obtain ⟨threadOther, before⟩ := stood_of_update inserting nofun
    have ne : other ≠ id := by
      rintro rfl
      exact threadOther (owner.exclusive selfAt before)
    rw [insertWaiter_mutex_of_ne ne]
    exact inv.scanned t other place before

theorem OrderInv.remove (inv : OrderInv s) (owner : OwnerInv policy s)
    {next : Option Thread} {woken : Thread} {rest : List Thread}
    (selfAt : s.phase self = .guarded id (.wake next))
    (first : (s.mutex id).waiters = woken :: rest) :
    OrderInv (removeWaiter s self id woken rest next) := by
  have sublist : ∀ other, ((removeWaiter s self id woken rest next).mutex other).waiters.Sublist
      (s.mutex other).waiters := by
    intro other
    by_cases same : other = id
    · subst same
      rw [removeWaiter_mutex_self, first]
      exact List.sublist_cons_self woken rest
    · rw [removeWaiter_mutex_of_ne same]
  refine ⟨fun other => (inv.sorted other).sublist (sublist other), ?_, ?_⟩
  · exact fun other t mem => inv.arrived other t ((sublist other).subset mem)
  intro t other place inserting
  obtain ⟨threadOther, before⟩ := stood_of_update inserting nofun
  have ne : other ≠ id := by
    rintro rfl
    exact threadOther (owner.exclusive selfAt before)
  rw [removeWaiter_mutex_of_ne ne]
  exact inv.scanned t other place before

theorem OrderInv.step (inv : OrderInv s) (queue : QueueInv policy s)
    (owner : OwnerInv policy s) {action : Action Id Thread}
    (steady : KeepsWaiters policy s action)
    (ran : step policy s action = some after) : OrderInv after := by
  cases (step_views ran).lists with
  | same kept => exact inv.same queue kept (steady after ran)
  | block self id selfAt afterEq => exact afterEq ▸ inv.block selfAt
  | scan self id i next selfAt nextEq passes afterEq =>
    exact afterEq ▸ inv.scan selfAt nextEq passes
  | insert self id i selfAt stops afterEq =>
    exact afterEq ▸ inv.insert queue owner selfAt stops
  | remove self id next woken rest selfAt first afterEq =>
    exact afterEq ▸ inv.remove owner selfAt first

theorem orderInv_of_reachable
    (reached : (system policy).ReachableWhere (KeepsWaiters policy) s) : OrderInv s := by
  refine reached.invariant ?_ fun _ _ _ before inv steady ran =>
    inv.step (queueInv_of_reachable before.reachable) (ownerInv_of_reachable before.reachable)
      steady ran
  rintro first ⟨basePriority, rfl⟩
  exact ⟨fun _ => List.Pairwise.nil, nofun, nofun⟩

end Steps

end LaOS.Mutex
