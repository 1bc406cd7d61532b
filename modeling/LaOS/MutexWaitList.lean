import LaOS.MutexQueue

/-!
# Changes of a wait list

A waiter blocks, links itself, is removed from the list and becomes ready in
four separate steps.  Each of them keeps the queue invariant.
-/

namespace LaOS.Mutex

open List Function

section Status

variable {Id Thread : Type} [DecidableEq Thread] {policy : Id → Policy}
  {s : State Id Thread} {self t : Thread} {id other : Id} {pc : GuardedPc Thread}

omit [DecidableEq Thread] in
theorem Phase.Sleeps.ne (sleeps : (s.phase t).Sleeps policy other)
    (selfAt : s.phase self = .guarded id pc) (awake : pc.fallsAsleep = false) :
    t ≠ self := by
  rintro rfl
  rw [selfAt] at sleeps
  cases awake.symm.trans sleeps.2

omit [DecidableEq Thread] in
theorem QueueInv.token_ne (inv : QueueInv policy s) (wokenEq : s.woken t = some other)
    (selfAt : s.phase self = .guarded id pc) : t ≠ self := by
  rintro rfl
  have kept := (inv.tokens t other wokenEq).2.2
  simp [selfAt] at kept

theorem QueueInv.startInsert (inv : QueueInv policy s)
    (selfAt : s.phase self = .guarded id .enqueue) : QueueInv policy
      ((s.storeStatus self .blocked).goto self (.guarded id (.insert 0))) := by
  have statusOf : ∀ t, t ≠ self →
      (s.storeStatus self .blocked).status t = s.status t :=
    fun t isOther => update_of_ne isOther _ _
  have phaseOf : ∀ t, t ≠ self →
      (s.goto self (.guarded id (.insert 0))).phase t = s.phase t :=
    fun t isOther => State.phase_goto_of_ne isOther
  refine ⟨inv.nodup, inv.counted, ?_, ?_, ?_, ?_, inv.listed, ?_, ?_, ?_⟩
  · intro other t mem
    have kept := inv.queued other t mem
    have isOther := kept.2.2.ne selfAt rfl
    exact ⟨(statusOf t isOther).trans kept.1, kept.2.1,
      (phaseOf t isOther).symm ▸ kept.2.2⟩
  · intro waker other t next waking
    have kept := inv.readying waker other t next (stood_of_update waking nofun).2
    have isOther := kept.2.2.ne selfAt rfl
    exact ⟨(statusOf t isOther).trans kept.1, kept.2.1,
      (phaseOf t isOther).symm ▸ kept.2.2⟩
  · intro t other i inserting
    by_cases isSelf : t = self
    · subst isSelf
      exact update_self _ _ _
    · exact (statusOf t isSelf).trans
        (inv.inserting t other i ((phaseOf t isSelf).symm.trans inserting))
  · intro t other atTop isBlocked
    obtain ⟨isOther, before⟩ := stood_of_update atTop nofun
    exact inv.parked t other before ((statusOf t isOther).symm.trans isBlocked)
  · intro t isBlocked
    by_cases isSelf : t = self
    · subst isSelf
      exact .inr (.inl ⟨id, 0, State.phase_goto_self⟩)
    refine (inv.blocked t ((statusOf t isSelf).symm.trans isBlocked)).imp_right
      fun isPending => ?_
    have moved : Pending (s.goto self (.guarded id (.insert 0))) t :=
      isPending.goto (by simp [selfAt]) (by simp [selfAt])
    exact moved
  · intro t other wokenEq
    have kept := inv.tokens t other wokenEq
    exact ⟨kept.1, kept.2.1, (phaseOf t (inv.token_ne wokenEq selfAt)).symm ▸ kept.2.2⟩
  · intro other waiting
    exact (inv.stays other waiting).imp_right (And.imp_right (Or.imp_right (Exists.imp
      fun waker waking => stands_of_update waking selfAt (by rintro ⟨⟩))))

theorem QueueInv.makeReady (inv : QueueInv policy s) {woken : Thread} {next : Option Thread}
    (selfAt : s.phase self = .guarded id (.ready woken next))
    (alone : ∀ waker pc, s.phase waker = .guarded id pc → waker = self) : QueueInv policy
      ((s.storeStatus woken .ready).goto self (.guarded id (afterWake next))) := by
  have removed := inv.readying self id woken next selfAt
  have statusOf : ∀ t, t ≠ woken →
      (s.storeStatus woken .ready).status t = s.status t :=
    fun t isOther => update_of_ne isOther _ _
  have notWoken : ∀ t, (s.storeStatus woken .ready).status t = .blocked →
      t ≠ woken := by
    rintro t isBlocked rfl
    simp [State.storeStatus] at isBlocked
  have keptPhase : ∀ t other, (s.phase t).Sleeps policy other →
      (s.goto self (.guarded id (afterWake next))).phase t = s.phase t :=
    fun t other sleeps => State.phase_goto_of_ne (sleeps.ne selfAt rfl)
  refine ⟨inv.nodup, inv.counted, ?_, ?_, ?_, ?_, inv.listed, ?_, ?_, ?_⟩
  · intro other t mem
    have kept := inv.queued other t mem
    have isOther : t ≠ woken := by
      rintro rfl
      cases removed.2.1.symm.trans kept.2.1
    exact ⟨(statusOf t isOther).trans kept.1, kept.2.1,
      (keptPhase t other kept.2.2).symm ▸ kept.2.2⟩
  · intro waker other t ready waking
    obtain ⟨wakerOther, before⟩ := stood_of_update waking (by cases next <;> rintro ⟨⟩)
    have kept := inv.readying waker other t ready before
    have isOther : t ≠ woken := by
      rintro rfl
      cases kept.2.2.unique removed.2.2
      exact wakerOther (alone waker _ before)
    exact ⟨(statusOf t isOther).trans kept.1, kept.2.1,
      (keptPhase t other kept.2.2).symm ▸ kept.2.2⟩
  · intro t other place inserting
    obtain ⟨-, before⟩ := stood_of_update inserting (by cases next <;> rintro ⟨⟩)
    have isOther := (removed.2.2.ne before rfl).symm
    exact (statusOf t isOther).trans (inv.inserting t other place before)
  · intro t other atTop isBlocked
    obtain ⟨-, before⟩ := stood_of_update atTop (by rintro ⟨⟩)
    exact inv.parked t other before
      ((statusOf t (notWoken t isBlocked)).symm.trans isBlocked)
  · intro t isBlocked
    have isOther := notWoken t isBlocked
    refine (inv.blocked t ((statusOf t isOther).symm.trans isBlocked)).imp_right
      fun isPending => ?_
    have moved : Pending (s.goto self (.guarded id (afterWake next))) t :=
      isPending.goto (by simp [selfAt, isOther.symm]) (by simp [selfAt])
    exact moved
  · intro t other wokenEq
    have kept := inv.tokens t other wokenEq
    have phaseEq : (s.goto self (.guarded id (afterWake next))).phase t =
      s.phase t := State.phase_goto_of_ne (inv.token_ne wokenEq selfAt)
    exact ⟨kept.1, kept.2.1, phaseEq.symm ▸ kept.2.2⟩
  · intro other waiting
    exact (inv.stays other waiting).imp_right (And.imp_right (Or.imp_right (Exists.imp
      fun waker waking => stands_of_update waking selfAt (by rintro ⟨⟩))))

end Status

section Lists

variable {Id Thread : Type}

variable [DecidableEq Thread] [DecidableEq Id] {policy : Id → Policy} {s : State Id Thread}
  {self : Thread} {id : Id} {t : Thread} {other : Id}

section InsertWaiter

variable {pos : Nat}

theorem insertWaiter_phase_self :
    (insertWaiter s self id pos).phase self = .guarded id (.refresh .asleep) :=
  update_self _ _ _

theorem insertWaiter_phase_of_ne (isOther : t ≠ self) :
    (insertWaiter s self id pos).phase t = s.phase t :=
  update_of_ne isOther _ _

theorem insertWaiter_linked_self : (insertWaiter s self id pos).linked self = true :=
  update_self _ _ _

theorem insertWaiter_linked_of_ne (isOther : t ≠ self) :
    (insertWaiter s self id pos).linked t = s.linked t :=
  update_of_ne isOther _ _

theorem insertWaiter_mutex_self :
    (insertWaiter s self id pos).mutex id =
      { s.mutex id with
        waiters := insertBefore (s.mutex id).waiters pos self
        count := (s.mutex id).count + 1 } :=
  update_self _ _ _

theorem insertWaiter_mutex_of_ne (ne : other ≠ id) :
    (insertWaiter s self id pos).mutex other = s.mutex other :=
  update_of_ne ne _ _

theorem mem_waiters_insertWaiter :
    t ∈ ((insertWaiter s self id pos).mutex other).waiters ↔
      other = id ∧ t = self ∨ t ∈ (s.mutex other).waiters := by
  by_cases same : other = id
  · subst same
    rw [insertWaiter_mutex_self, mem_insertBefore]
    simp
  · rw [insertWaiter_mutex_of_ne same]
    simp [same]

end InsertWaiter

theorem QueueInv.insertWaiter (inv : QueueInv policy s) {i : Nat}
    (selfAt : s.phase self = .guarded id (.insert i))
    (locked : (s.mutex id).locked = true) (pos : Nat) :
    QueueInv policy (insertWaiter s self id pos) := by
  have absent : ∀ other, self ∉ (s.mutex other).waiters := fun other mem =>
    (inv.queued other self mem).2.2.ne selfAt rfl rfl
  refine ⟨?_, ?_, ?_, ?_, ?_, ?_, ?_, ?_, ?_, ?_⟩
  · intro other
    by_cases same : other = id
    · subst same
      rw [insertWaiter_mutex_self]
      exact nodup_insertBefore.mpr ⟨absent other, inv.nodup other⟩
    · rw [insertWaiter_mutex_of_ne same]
      exact inv.nodup other
  · intro other
    by_cases same : other = id
    · subst same
      rw [insertWaiter_mutex_self, length_insertBefore, inv.counted other]
    · rw [insertWaiter_mutex_of_ne same]
      exact inv.counted other
  · intro other t mem
    rcases mem_waiters_insertWaiter.mp mem with ⟨rfl, rfl⟩ | before
    · have blocked := inv.inserting t other i selfAt
      exact ⟨blocked, insertWaiter_linked_self, by rw [insertWaiter_phase_self]; exact ⟨rfl, rfl⟩⟩
    have kept := inv.queued other t before
    have isOther := kept.2.2.ne selfAt rfl
    rw [insertWaiter_phase_of_ne isOther, insertWaiter_linked_of_ne isOther]
    exact kept
  · intro waker other t next waking
    have kept := inv.readying waker other t next (stood_of_update waking nofun).2
    have isOther := kept.2.2.ne selfAt rfl
    rw [insertWaiter_phase_of_ne isOther, insertWaiter_linked_of_ne isOther]
    exact kept
  · intro t other place inserting
    exact inv.inserting t other place (stood_of_update inserting nofun).2
  · intro t other atTop
    exact inv.parked t other (stood_of_update atTop nofun).2
  · intro t linked
    by_cases isSelf : t = self
    · exact ⟨id, mem_waiters_insertWaiter.mpr (.inl ⟨rfl, isSelf⟩)⟩
    · rw [insertWaiter_linked_of_ne isSelf] at linked
      obtain ⟨other, mem⟩ := inv.listed t linked
      exact ⟨other, mem_waiters_insertWaiter.mpr (.inr mem)⟩
  · intro t isBlocked
    by_cases isSelf : t = self
    · subst isSelf
      exact .inl insertWaiter_linked_self
    rw [insertWaiter_linked_of_ne isSelf]
    refine (inv.blocked t isBlocked).imp_right fun isPending => ?_
    have moved : Pending (s.goto self (.guarded id (.refresh .asleep))) t :=
      isPending.goto (by simp [selfAt]) fun same => absurd same isSelf
    exact moved
  · intro t other wokenEq
    have isOther := inv.token_ne wokenEq selfAt
    rw [insertWaiter_phase_of_ne isOther, insertWaiter_linked_of_ne isOther]
    exact inv.tokens t other wokenEq
  · intro other waiting
    by_cases same : other = id
    · subst same
      left
      rw [insertWaiter_mutex_self]
      exact locked
    rw [insertWaiter_mutex_of_ne same] at waiting ⊢
    exact (inv.stays other waiting).imp_right fun ⟨isRaw, covered⟩ =>
      ⟨isRaw, covered.imp_right fun ⟨waker, waking⟩ => ⟨waker, stands_of_update waking selfAt nofun⟩⟩

section RemoveWaiter

variable {woken : Thread} {rest : List Thread} {next : Option Thread}

theorem removeWaiter_phase_self :
    (removeWaiter s self id woken rest next).phase self = .guarded id (.ready woken next) :=
  update_self _ _ _

theorem removeWaiter_phase_of_ne (isOther : t ≠ self) :
    (removeWaiter s self id woken rest next).phase t = s.phase t :=
  update_of_ne isOther _ _

theorem removeWaiter_linked_woken :
    (removeWaiter s self id woken rest next).linked woken = false :=
  update_self _ _ _

theorem removeWaiter_linked_of_ne (isOther : t ≠ woken) :
    (removeWaiter s self id woken rest next).linked t = s.linked t :=
  update_of_ne isOther _ _

theorem removeWaiter_woken_woken : (removeWaiter s self id woken rest next).woken woken =
      if next = none then some id else none :=
  update_self _ _ _

theorem removeWaiter_woken_of_ne (isOther : t ≠ woken) :
    (removeWaiter s self id woken rest next).woken t = s.woken t :=
  update_of_ne isOther _ _

theorem removeWaiter_mutex_self : (removeWaiter s self id woken rest next).mutex id =
      { s.mutex id with waiters := rest, count := (s.mutex id).count - 1 } :=
  update_self _ _ _

theorem removeWaiter_mutex_of_ne (ne : other ≠ id) :
    (removeWaiter s self id woken rest next).mutex other = s.mutex other :=
  update_of_ne ne _ _

theorem QueueInv.mem_waiters_removeWaiter (inv : QueueInv policy s)
    (first : (s.mutex id).waiters = woken :: rest) :
    t ∈ ((removeWaiter s self id woken rest next).mutex other).waiters ↔
      t ∈ (s.mutex other).waiters ∧ t ≠ woken := by
  have mem : woken ∈ (s.mutex id).waiters := by rw [first]; exact mem_cons_self
  have nodup := inv.nodup id
  rw [first, nodup_cons] at nodup
  by_cases same : other = id
  · subst same
    rw [removeWaiter_mutex_self, first, mem_cons]
    constructor
    · intro inRest
      refine ⟨.inr inRest, ?_⟩
      rintro rfl
      exact nodup.1 inRest
    · rintro ⟨isWoken | inRest, isOther⟩
      · exact absurd isWoken isOther
      · exact inRest
  · rw [removeWaiter_mutex_of_ne same]
    refine ⟨fun before => ⟨before, ?_⟩, fun after => after.1⟩
    rintro rfl
    exact same ((inv.queued other t before).2.2.unique (inv.queued id t mem).2.2)

theorem QueueInv.removeWaiter (inv : QueueInv policy s)
    (selfAt : s.phase self = .guarded id (.wake next))
    (first : (s.mutex id).waiters = woken :: rest)
    (wokenAt : next = none → s.phase woken = .lock id .sched ∨
      s.phase woken = .lock id .tryLock) (raw : next = none → policy id = .raw)
    (handoff : next ≠ none → (s.mutex id).locked = true) :
    QueueInv policy (removeWaiter s self id woken rest next) := by
  have wokenQueued := inv.queued id woken (by rw [first]; exact mem_cons_self)
  have sleeperPhase : ∀ t other, (s.phase t).Sleeps policy other →
      (Mutex.removeWaiter s self id woken rest next).phase t = s.phase t :=
    fun t other sleeps => removeWaiter_phase_of_ne (sleeps.ne selfAt rfl)
  refine ⟨?_, ?_, ?_, ?_, ?_, ?_, ?_, ?_, ?_, ?_⟩
  · intro other
    by_cases same : other = id
    · subst same
      rw [removeWaiter_mutex_self]
      have nodup := inv.nodup other
      rw [first] at nodup
      exact nodup.of_cons
    · rw [removeWaiter_mutex_of_ne same]
      exact inv.nodup other
  · intro other
    by_cases same : other = id
    · subst same
      have counted := inv.counted other
      rw [first, length_cons] at counted
      rw [removeWaiter_mutex_self]
      simp only [counted, Nat.add_sub_cancel]
    · rw [removeWaiter_mutex_of_ne same]
      exact inv.counted other
  · intro other t mem
    obtain ⟨before, isOther⟩ := (inv.mem_waiters_removeWaiter first).mp mem
    have kept := inv.queued other t before
    rw [sleeperPhase t other kept.2.2, removeWaiter_linked_of_ne isOther]
    exact kept
  · intro waker other t ready waking
    by_cases isSelf : waker = self
    · subst isSelf
      rw [removeWaiter_phase_self] at waking
      cases waking
      rw [sleeperPhase woken id wokenQueued.2.2]
      exact ⟨wokenQueued.1, removeWaiter_linked_woken, wokenQueued.2.2⟩
    rw [removeWaiter_phase_of_ne isSelf] at waking
    have kept := inv.readying waker other t ready waking
    have isOther : t ≠ woken := by
      rintro rfl
      cases wokenQueued.2.1.symm.trans kept.2.1
    rw [sleeperPhase t other kept.2.2, removeWaiter_linked_of_ne isOther]
    exact kept
  · intro t other place inserting
    exact inv.inserting t other place (stood_of_update inserting nofun).2
  · intro t other atTop
    exact inv.parked t other (stood_of_update atTop nofun).2
  · intro t linked
    have isOther : t ≠ woken := by
      rintro rfl
      rw [removeWaiter_linked_woken] at linked
      cases linked
    rw [removeWaiter_linked_of_ne isOther] at linked
    obtain ⟨other, mem⟩ := inv.listed t linked
    exact ⟨other, (inv.mem_waiters_removeWaiter first).mpr ⟨mem, isOther⟩⟩
  · intro t isBlocked
    by_cases isWoken : t = woken
    · subst isWoken
      exact .inr (.inr ⟨self, id, next, removeWaiter_phase_self⟩)
    rw [removeWaiter_linked_of_ne isWoken]
    refine (inv.blocked t isBlocked).imp_right fun isPending => ?_
    have moved : Pending (s.goto self (.guarded id (.ready woken next))) t :=
      isPending.goto (by simp [selfAt]) (by simp [selfAt])
    exact moved
  · intro t other wokenEq
    by_cases isWoken : t = woken
    · subst isWoken
      rw [removeWaiter_woken_woken] at wokenEq
      obtain ⟨isNone, ⟨⟩⟩ := Option.ite_none_right_eq_some.mp wokenEq
      rw [sleeperPhase t id wokenQueued.2.2]
      exact ⟨raw isNone, removeWaiter_linked_woken, wokenAt isNone⟩
    rw [removeWaiter_woken_of_ne isWoken] at wokenEq
    rw [removeWaiter_phase_of_ne (inv.token_ne wokenEq selfAt), removeWaiter_linked_of_ne isWoken]
    exact inv.tokens t other wokenEq
  · intro other waiting
    by_cases same : other = id
    · subst same
      by_cases isNone : next = none
      · exact .inr ⟨raw isNone, .inl ⟨woken, by rw [removeWaiter_woken_woken, if_pos isNone]⟩⟩
      · rw [removeWaiter_mutex_self]
        exact .inl (handoff isNone)
    rw [removeWaiter_mutex_of_ne same] at waiting ⊢
    rcases inv.stays other waiting with locked | ⟨isRaw, ⟨t, wokenEq⟩ | ⟨waker, waking⟩⟩
    · exact .inl locked
    · have isOther : t ≠ woken := by
        rintro rfl
        cases wokenQueued.2.1.symm.trans (inv.tokens t other wokenEq).2.1
      exact .inr ⟨isRaw, .inl ⟨t, by rw [removeWaiter_woken_of_ne isOther, wokenEq]⟩⟩
    · refine .inr ⟨isRaw, .inr ⟨waker, stands_of_update waking selfAt ?_⟩⟩
      rintro ⟨⟩
      exact same rfl

end RemoveWaiter

end Lists

end LaOS.Mutex
