import LaOS.SchedPreservation

/-!
# No runnable thread is lost

The invariant holds in every run in which the `spin_unlock` of `rcu_note_context_switch`
does not find a request to reschedule; a run in which it does loses a thread.
-/

namespace LaOS.Sched

open Function

variable {Thread : Type}

/-- What other CPUs may do: no thread starts or stops running or dies, and only ready threads
other than `who` are linked, none while the lock is held. -/
structure Undisturbed (who : Thread) (before after : Core Thread) : Prop where
  current : after.current = before.current
  zombies : after.zombies = before.zombies
  queueLock : after.queueLock = before.queueLock
  running : ∀ t, after.status t = .running ↔ before.status t = .running
  zombie : ∀ t, after.status t = .zombie ↔ before.status t = .zombie
  ready : ∀ t, before.status t = .ready → after.status t = .ready
  kept : ∀ t, before.queue.Linked t → after.queue.Linked t
  linked : ∀ t, after.queue.Linked t → before.queue.Linked t ∨
    after.status t = .ready ∧ t ≠ who
  heads : before.queueLock = true → after.queue.heads = before.queue.heads

section OtherCpus

variable {idle prev next : Thread} {before after : Core Thread} {wasRunning : Bool}

section

variable (same : Undisturbed prev before after)

include same

theorem Undisturbed.counts (counts : Counts idle after prev) : Counts idle before prev := by
  refine ⟨?_, counts.2⟩
  rcases same.linked prev counts.1 with linked | ⟨-, isOther⟩
  · exact linked
  · exact absurd rfl isOther

theorem Undisturbed.runningIn {threads : List Thread}
    (only : RunningIn idle before threads) : RunningIn idle after threads := by
  intro t counts running
  rcases same.linked t counts.1 with linked | ⟨isReady, -⟩
  · exact only t ⟨linked, counts.2⟩ ((same.running t).mp running)
  · cases isReady.symm.trans running

theorem Undisturbed.idling {who : Thread}
    (idling : Idling idle before who) : Idling idle after who := by
  unfold Idling
  rw [same.zombies]
  exact idling

theorem Undisturbed.outside {who : Thread}
    (outside : Outside idle before who) : Outside idle after who where
  current := same.current.trans outside.current
  running := same.runningIn outside.running
  idling := same.idling outside.idling
  corpse dead := same.kept who (outside.corpse ((same.zombie who).mp dead))

theorem Undisturbed.picking
    (picking : Picking idle before prev wasRunning) : Picking idle after prev wasRunning where
  current := same.current.trans picking.current
  running := same.runningIn picking.running
  calm := by
    rw [same.zombies]
    exact picking.calm
  was wasSo := (same.running prev).mpr (picking.was wasSo)

theorem Undisturbed.dying
    (dying : Dying idle before prev wasRunning) : Dying idle after prev wasRunning where
  current := same.current.trans dying.current
  running := same.runningIn dying.running
  dead := (same.zombie prev).mpr dying.dead
  was := dying.was

theorem Undisturbed.alive (alive : before.status next ≠ .zombie) : after.status next ≠ .zombie :=
  fun dead => alive ((same.zombie next).mp dead)

theorem Undisturbed.chosen (chosen : Chosen idle before prev wasRunning next) :
    Chosen idle after prev wasRunning next where
  current := same.current.trans chosen.current
  running := same.runningIn chosen.running
  idling := same.idling chosen.idling
  handed was counts := (chosen.handed was (same.counts counts)).imp_right (same.ready prev)
  alive := same.alive chosen.alive

theorem Undisturbed.pcOk {pc : Pc Thread}
    (ok : PcOk idle before prev wasRunning pc) : PcOk idle after prev wasRunning pc := by
  cases pc with
  | enter | clearResched | zombieTest =>
    have entering := ok
    exact ⟨same.outside entering.toOutside, fun was => (same.running prev).mpr (entering.was was)⟩
  | unlinkZombie => exact ⟨same.dying ok.1, same.kept prev ok.2⟩
  | linkZombie => exact same.dying ok
  | checkZombies =>
    have checking := ok
    refine ⟨same.current.trans checking.current, same.runningIn checking.running, ?_,
      fun was => (same.running prev).mpr (checking.was was)⟩
    intro some counts running
    rw [same.zombies] at some
    exact checking.off some (same.counts counts) ((same.running prev).mp running)
  | readCount | lockQueue => exact same.picking ok
  | scanRank | setNext => exact ⟨same.picking ok.1, same.queueLock.trans ok.2⟩
  | scan | scanSleeper | rotate =>
    obtain ⟨picking, locked, mem⟩ := ok
    refine ⟨same.picking picking, same.queueLock.trans locked, ?_⟩
    rw [same.heads locked]
    exact mem
  | keepPrev found =>
    cases found with
    | none => exact ⟨same.picking ok.1, same.queueLock.trans ok.2⟩
    | some candidate =>
      obtain ⟨picking, locked, mem⟩ := ok
      refine ⟨same.picking picking, same.queueLock.trans locked, ?_⟩
      rw [same.heads locked]
      exact mem
  | setPrev next =>
    have promoted := ok
    refine ⟨same.current.trans promoted.current, same.runningIn promoted.running, ?_,
      fun was => (same.running prev).mpr (promoted.was was), same.alive promoted.alive⟩
    rw [same.zombies]
    exact promoted.calm
  | unlockQueue | compare => exact same.chosen ok
  | noteNesting | noteDisable | noteEnable | noteTest | setCurrent =>
    exact ⟨same.chosen ok.1, ok.2⟩
  | switchTo next =>
    have switching := ok
    exact ⟨same.outside switching.toOutside,
      fun was counts => same.ready prev (switching.handed was (same.counts counts)),
      switching.different⟩
  | finish => exact same.outside ok

end

end OtherCpus

section Steps

variable {idle : Thread} {s after : State Thread}

theorem SchedInv.undisturbed (inv : SchedInv idle s) (framesEq : after.frames = s.frames)
    (executingEq : after.executing = s.executing)
    (same : Undisturbed s.executing s.toCore after.toCore)
    (proper : after.queue.Proper after.priority) (idleCreated : after.created idle = true)
    (fresh : ∀ t, after.created t = false → s.created t = false ∧
      ¬ after.queue.Linked t) : SchedInv idle after := by
  have chosenEq : after.chosen = s.chosen := by
    rw [State.chosen, framesEq, executingEq]
    rfl
  refine ⟨proper, ?_, idleCreated, same.alive inv.idleAlive, ?_, ?_⟩
  · intro t isFresh
    obtain ⟨wasFresh, unlinked⟩ := fresh t isFresh
    obtain ⟨-, isOther, unchosen, isReady⟩ := inv.fresh t wasFresh
    exact ⟨unlinked, executingEq ▸ isOther, chosenEq ▸ unchosen, same.ready t isReady⟩
  · intro t isOther frame below threadAt
    rw [executingEq] at isOther
    rw [framesEq] at threadAt
    obtain ⟨single, prevEq, finished, handed⟩ := inv.parked t isOther frame below threadAt
    refine ⟨single, prevEq, finished, fun was counts => ?_⟩
    rw [chosenEq]
    rcases same.linked t counts.1 with linked | ⟨isReady, -⟩
    · exact (handed was ⟨linked, counts.2⟩).imp_left (same.ready t)
    · exact .inl isReady
  · rw [framesEq, executingEq]
    have top := inv.top
    cases framesAt : s.frames s.executing with
    | nil =>
      rw [framesAt] at top
      change Outside idle after.toCore after.executing
      rw [executingEq]
      exact same.outside top
    | cons frame below =>
      rw [framesAt] at top
      cases below with
      | nil =>
        obtain ⟨prevEq, ok⟩ := top
        rw [← prevEq] at same
        exact ⟨prevEq.trans executingEq.symm, same.pcOk ok⟩
      | cons => exact top

variable [DecidableEq Thread] {t : Thread}

theorem SchedInv.wake (inv : SchedInv idle s) (isBlocked : s.status t = .blocked) :
    SchedInv idle (s.storeStatus t .ready) := by
  have statusSelf : (s.storeStatus t .ready).status t = .ready := update_self _ _ _
  have statusOther : ∀ other, other ≠ t →
      (s.storeStatus t .ready).status other = s.status other :=
    fun other isOther => update_of_ne isOther _ _
  have sameAs : ∀ other status, status ≠ .blocked → status ≠ .ready →
      ((s.storeStatus t .ready).status other = status ↔ s.status other = status) := by
    intro other status notBlocked notReady
    by_cases isSelf : other = t
    · rw [isSelf, statusSelf, isBlocked]
      exact iff_of_false notReady.symm notBlocked.symm
    · rw [statusOther other isSelf]
  have same : Undisturbed s.executing s.toCore
      (s.storeStatus t .ready).toCore := by
    refine ⟨rfl, rfl, rfl, fun other => sameAs other _ nofun nofun,
      fun other => sameAs other _ nofun nofun, ?_, fun _ linked => linked,
      fun _ linked => .inl linked, fun _ => rfl⟩
    intro other isReady
    by_cases isSelf : other = t
    · rw [isSelf]
      exact statusSelf
    · exact (statusOther other isSelf).trans isReady
  exact inv.undisturbed rfl rfl same inv.proper inv.idleCreated
    fun other isFresh => ⟨isFresh, (inv.fresh other isFresh).1⟩

theorem SchedInv.enqueue (inv : SchedInv idle s) (atTail : Bool)
    (isFresh : s.created t = false) (unlocked : s.queueLock = false) :
    SchedInv idle (enqueue s t atTail) := by
  obtain ⟨unlinked, isOther, -, isReady⟩ := inv.fresh t isFresh
  have statusEq : (LaOS.Sched.enqueue s t atTail).status = s.status := by
    change update s.status t .ready = s.status
    rw [← isReady, update_eq_self]
  have linkedIff : ∀ other, (LaOS.Sched.enqueue s t atTail).queue.Linked other ↔
      other = t ∨ s.queue.Linked other := by
    intro other
    cases atTail with
    | false => exact Buckets.linked_addFront
    | true => exact Buckets.linked_addBack
  have same : Undisturbed s.executing s.toCore
      (LaOS.Sched.enqueue s t atTail).toCore := by
    refine ⟨rfl, rfl, rfl, ?_, ?_, ?_, ?_, ?_, ?_⟩
    · intro other
      rw [statusEq]
    · intro other
      rw [statusEq]
    · intro other otherReady
      rw [statusEq]
      exact otherReady
    · exact fun other linked => (linkedIff other).mpr (.inr linked)
    · intro other linked
      rcases (linkedIff other).mp linked with rfl | before
      · rw [statusEq]
        exact .inr ⟨isReady, isOther⟩
      · exact .inl before
    · intro locked
      rw [unlocked] at locked
      cases locked
  have proper : (LaOS.Sched.enqueue s t atTail).queue.Proper s.priority := by
    cases atTail with
    | false => exact inv.proper.addFront unlinked
    | true => exact inv.proper.addBack unlinked
  have createdOther : ∀ other, other ≠ t →
      (LaOS.Sched.enqueue s t atTail).created other = s.created other :=
    fun other notThread => update_of_ne notThread _ _
  have createdSelf : (LaOS.Sched.enqueue s t atTail).created t = true :=
    update_self _ _ _
  refine inv.undisturbed rfl rfl same proper ?_ ?_
  · by_cases isIdle : idle = t
    · rw [isIdle]
      exact createdSelf
    · rw [createdOther idle isIdle]
      exact inv.idleCreated
  intro other stillFresh
  have notThread : other ≠ t := by
    rintro rfl
    cases createdSelf.symm.trans stillFresh
  rw [createdOther other notThread] at stillFresh
  refine ⟨stillFresh, fun linked => ?_⟩
  rcases (linkedIff other).mp linked with isThread | before
  · exact notThread isThread
  · exact (inv.fresh other stillFresh).1 before

def Pc.isNoteTest : Pc Thread → Bool
  | .noteTest _ => true
  | _ => false

/-- The `spin_unlock` of `rcu_note_context_switch` finds no request to reschedule. -/
def NoteUnrequested (s : State Thread) (action : Action Thread) : Prop :=
  action = .exec → ∀ frame ∈ (s.frames s.executing).head?,
    frame.pc.isNoteTest = true → s.needResched = false

instance (s : State Thread) (action : Action Thread) :
    Decidable (NoteUnrequested s action) :=
  inferInstanceAs (Decidable (_ → ∀ frame ∈ _, _ → _))

theorem SchedInv.exec (inv : SchedInv idle s) (quiet : NoteUnrequested s .exec)
    (ran : step idle s .exec = some after) : SchedInv idle after := by
  unfold LaOS.Sched.step at ran
  split at ran
  · cases ran
  simp only at ran
  split at ran <;> cases ran
  next frame below framesAt =>
    have top := inv.top
    rw [framesAt] at top
    cases below with
    | nil =>
      refine inv.execFrame framesAt fun next pcEq => ?_
      exact quiet rfl frame (by rw [framesAt]; rfl) (by rw [pcEq]; rfl)
    | cons => exact top.elim

theorem SchedInv.step (inv : SchedInv idle s) {action : Action Thread}
    (quiet : NoteUnrequested s action) (ran : step idle s action = some after) :
    SchedInv idle after := by
  by_cases isExec : action = .exec
  · subst isExec
    exact inv.exec quiet ran
  unfold LaOS.Sched.step at ran
  split at ran
  · cases ran
  cases action with
  | exec => exact absurd rfl isExec
  | kick | tick =>
    cases ran
    exact { inv with }
  | wake t =>
    obtain ⟨isBlocked, ⟨⟩⟩ := Option.ite_none_right_eq_some.mp ran
    exact inv.wake isBlocked
  | enqueue t atTail =>
    obtain ⟨guards, ⟨⟩⟩ := Option.ite_none_right_eq_some.mp ran
    exact inv.enqueue atTail guards.1 guards.2
  | _ =>
    obtain ⟨framesAt, ran⟩ := Option.ite_none_right_eq_some.mp ran
    exact inv.execThread framesAt ran

theorem schedInv_bootState {boot : Thread} (notIdle : boot ≠ idle) (isMain : Bool)
    (priority : Thread → Priority) : SchedInv idle (bootState idle boot isMain priority) := by
  have proper : (bootState idle boot isMain priority).queue.Proper priority := by
    cases isMain with
    | false => exact Buckets.proper_empty
    | true =>
      refine Buckets.proper_empty.addFront ?_
      rintro ⟨rank, mem⟩
      cases mem
  have linked : ∀ t, (bootState idle boot isMain priority).queue.Linked t →
      t = boot := by
    intro t isLinked
    cases isMain with
    | false =>
      obtain ⟨rank, mem⟩ := isLinked
      cases mem
    | true =>
      rcases Buckets.linked_addFront.mp isLinked with isBoot | ⟨rank, mem⟩
      · exact isBoot
      · cases mem
  refine ⟨proper, ?_, ?_, ?_, ?_, ?_⟩
  · intro t isFresh
    have others : t ≠ boot ∧ t ≠ idle := by
      simpa [bootState] using isFresh
    refine ⟨fun isLinked => others.1 (linked t isLinked), others.1, nofun, ?_⟩
    simp [bootState, others.1]
  · simp [bootState]
  · simp [bootState, Ne.symm notIdle]
  · exact fun _ _ _ _ => nofun
  · refine ⟨rfl, ?_, fun some => absurd rfl some, ?_⟩
    · intro t counts _
      exact List.mem_singleton.mpr (linked t counts.1)
    · simp [bootState]

theorem schedInv_of_reachable
    (reached : (system idle).ReachableWhere NoteUnrequested s) : SchedInv idle s := by
  refine reached.invariant ?_ fun _ _ _ _ inv quiet ran => inv.step quiet ran
  rintro first ⟨boot, isMain, priority, notIdle, rfl⟩
  exact schedInv_bootState notIdle isMain priority

/-- Outside `__schedule` the only running thread on the run queue is the current one, and a
thread switched out while running is ready, unless a request to reschedule arrives at the end of
`rcu_note_context_switch`. -/
theorem no_runnable_lost (reached : (system idle).ReachableWhere NoteUnrequested s)
    (outside : s.frames s.executing = []) {t : Thread}
    (linked : s.queue.Linked t) (notIdle : t ≠ idle) :
    (s.status t = .running → t = s.current) ∧
      ∀ frame, s.frames t = [frame] → frame.wasRunning = true →
        s.status t = .ready := by
  have inv := schedInv_of_reachable reached
  have top := inv.top
  rw [outside] at top
  have settled := top
  refine ⟨fun running => ?_, fun frame framesAt was => ?_⟩
  · rw [settled.current]
    exact List.mem_singleton.mp (settled.running t ⟨linked, notIdle⟩ running)
  have isOther : t ≠ s.executing := by
    rintro rfl
    rw [outside] at framesAt
    cases framesAt
  obtain ⟨-, -, -, handed⟩ := inv.parked t isOther frame [] framesAt
  rcases handed was ⟨linked, notIdle⟩ with isReady | isChosen
  · exact isReady
  · rw [State.chosen, outside] at isChosen
    cases isChosen

end Steps

/-- Thread 0 runs in a section, thread 1 of the same priority is enqueued, and an interrupt
switches from 0 to 1. Thread 2 is idle. -/
def preemptedReader : List (Action (Fin 3)) :=
  [.enqueue 1 true, .rcuReadLock, .kick, .interrupt] ++ List.replicate 22 .exec

theorem initial_bootState : (system (2 : Fin 3)).initial (bootState 2 0 true fun _ => 32) :=
  ⟨0, true, _, by decide, rfl⟩

def preemptedReaderRun : (system (2 : Fin 3)).Execution preemptedReader.length :=
  TransitionSystem.executionOf _ initial_bootState preemptedReader .kick (by decide +kernel)

theorem no_runnable_lost_preemptedReader : (preemptedReaderRun.states 26).current = 1 ∧
      (preemptedReaderRun.states 26).status 0 = .ready := by
  have quiet : ∀ i < preemptedReader.length, NoteUnrequested (preemptedReaderRun.states i)
      (preemptedReaderRun.actions i) := by
    decide +kernel
  have reached := preemptedReaderRun.reachableWhere quiet 26 (by decide)
  have linked : (preemptedReaderRun.states 26).queue.Linked 0 := by
    decide +kernel
  refine ⟨by decide +kernel, ?_⟩
  exact (no_runnable_lost reached (by decide +kernel) linked (by decide)).2
    ⟨0, true, .finish⟩ (by decide +kernel) rfl

/-- Another CPU requests a reschedule inside `rcu_note_context_switch`: the nested activation
picks thread 0, and the outer one still switches to thread 1. -/
def kickedReader : List (Action (Fin 3)) :=
  [.enqueue 1 true, .rcuReadLock, .kick, .interrupt] ++ List.replicate 16 .exec ++ [.kick] ++
    List.replicate 19 .exec

def kickedReaderLost : State (Fin 3) :=
  ((system 2).run (bootState 2 0 true fun _ => 32) kickedReader).getD
    (bootState 2 0 true fun _ => 32)

/-- Outside `__schedule`, thread 0 is running but not current, so `pick_next`
passes it over from now on. -/
theorem kickedReader_lost : (system (2 : Fin 3)).Reachable kickedReaderLost ∧
      kickedReaderLost.frames kickedReaderLost.executing = [] ∧
      kickedReaderLost.queue.Linked 0 ∧ kickedReaderLost.status 0 = .running ∧
      kickedReaderLost.current = 1 := by
  refine ⟨TransitionSystem.Reachable.getD_run (.start initial_bootState) _, ?_⟩
  decide +kernel

end LaOS.Sched
