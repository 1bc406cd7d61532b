import LaOS.SchedInvariant

/-!
# The assertions hold along runs without nested activations

One lemma for the accesses of `__schedule`, one for the moves of the executing
thread between activations, and one for what other CPUs do.
-/

namespace LaOS.Sched

open Option List Function

variable {Thread : Type} {idle : Thread} {s after : State Thread} {frame : Frame Thread}
  {prev next : Thread} {wasRunning : Bool}

theorem SchedInv.parked_cases (inv : SchedInv idle s) {t : Thread}
    (isOther : t ≠ s.executing) : s.frames t = [] ∨
      ∃ frame, s.frames t = [frame] ∧ frame.prev = t ∧ frame.pc = .finish := by
  cases framesEq : s.frames t with
  | nil => exact .inl rfl
  | cons frame below =>
    obtain ⟨rfl, prevEq, finished, -⟩ := inv.parked t isOther frame below framesEq
    exact .inr ⟨frame, rfl, prevEq, finished⟩

variable [DecidableEq Thread]

section

variable (inv : SchedInv idle s)

include inv

theorem SchedInv.zombieTest
    (framesAt : s.frames s.executing = [⟨prev, wasRunning, .zombieTest⟩]) :
    SchedInv idle (execFrame idle s ⟨prev, wasRunning, .zombieTest⟩ []) := by
  have entering := (inv.pcOk framesAt).2
  simp only [execFrame]
  split
  next dead =>
    have was : wasRunning = false := by
      by_contra wasSo
      have running := entering.was (Bool.eq_true_of_not_eq_false wasSo)
      rw [dead] at running
      cases running
    exact inv.goto framesAt (.inl rfl)
      ⟨⟨entering.current, entering.running, dead, was⟩, entering.corpse dead⟩
  next =>
    refine inv.goto framesAt (.inl rfl) ⟨entering.current, entering.running, ?_, entering.was⟩
    intro some counts
    exact absurd (entering.idling some) counts.2

theorem SchedInv.unlinkZombie
    (framesAt : s.frames s.executing = [⟨prev, wasRunning, .unlinkZombie⟩]) :
    SchedInv idle (execFrame idle s ⟨prev, wasRunning, .unlinkZombie⟩ []) := by
  obtain ⟨dying, linked⟩ :
    Dying idle s.toCore prev wasRunning ∧ s.queue.Linked prev := (inv.pcOk framesAt).2
  refine inv.move rfl rfl (inv.proper.remove linked) (fun _ => Buckets.linked_of_remove)
    inv.idleAlive framesAt rfl (fun _ _ isReady => .inl isReady) (.inl rfl)
    ⟨dying.current, fun t counts => ?_, dying.dead, dying.was⟩
  exact dying.running t ⟨Buckets.linked_of_remove counts.1, counts.2⟩

theorem SchedInv.checkZombies
    (framesAt : s.frames s.executing = [⟨prev, wasRunning, .checkZombies⟩]) :
    SchedInv idle (execFrame idle s ⟨prev, wasRunning, .checkZombies⟩ []) := by
  have checking := (inv.pcOk framesAt).2
  simp only [execFrame]
  split
  next calm =>
    exact inv.goto framesAt (.inl rfl) ⟨checking.current, checking.running, calm, checking.was⟩
  next some =>
    refine inv.goto framesAt (.inr ⟨rfl, ?_⟩)
      ⟨checking.current, ?_, fun _ => rfl, ?_, inv.idleAlive⟩
    · rintro t ⟨⟩
      exact inv.idleCreated
    · intro t counts running
      have isPrev := mem_singleton.mp (checking.running t counts running)
      subst isPrev
      exact absurd running (checking.off some counts)
    · intro was counts
      exact absurd (checking.was was) (checking.off some counts)

theorem SchedInv.readCount
    (framesAt : s.frames s.executing = [⟨prev, wasRunning, .readCount⟩]) :
    SchedInv idle (execFrame idle s ⟨prev, wasRunning, .readCount⟩ []) := by
  have picking := (inv.pcOk framesAt).2
  simp only [execFrame]
  split
  next isZero =>
    refine inv.goto framesAt (.inr ⟨rfl, ?_⟩)
      ⟨picking.current, ?_, fun _ => rfl, ?_, inv.idleAlive⟩
    · rintro t ⟨⟩
      exact inv.idleCreated
    · intro t counts _
      exact absurd isZero (inv.proper.count_pos counts.1)
    · intro _ counts
      exact absurd isZero (inv.proper.count_pos counts.1)
  next => exact inv.goto framesAt (.inl rfl) picking

theorem SchedInv.keepPrev {found : Option (Thread × Priority)}
    (framesAt : s.frames s.executing = [⟨prev, wasRunning, .keepPrev found⟩]) :
    SchedInv idle (execFrame idle s ⟨prev, wasRunning, .keepPrev found⟩ []) := by
  obtain ⟨prevEq, ok⟩ := inv.pcOk framesAt
  have prevCreated : s.created prev = true := by
    rw [prevEq]
    exact inv.created_executing
  have picking : Picking idle s.toCore prev wasRunning ∧ s.queueLock = true := by
    cases found with
    | none => exact ok
    | some candidate => exact ⟨ok.1, ok.2.1⟩
  simp only [execFrame]
  split
  next =>
    refine inv.goto framesAt (.inr ⟨rfl, ?_⟩) picking
    rintro t ⟨⟩
    exact prevCreated
  next =>
    cases found with
    | none =>
      refine inv.goto framesAt (.inr ⟨rfl, ?_⟩) picking
      rintro t ⟨⟩
      exact inv.idleCreated
    | some candidate =>
      simp only
      split
      next isPrev =>
        refine inv.goto framesAt (.inr ⟨rfl, ?_⟩) picking
        rintro t ⟨⟩
        rw [isPrev]
        exact prevCreated
      next => exact inv.goto framesAt (.inl rfl) ok

theorem SchedInv.rotate {priority : Priority}
    (framesAt : s.frames s.executing = [⟨prev, wasRunning, .rotate next priority⟩]) :
    SchedInv idle (execFrame idle s ⟨prev, wasRunning, .rotate next priority⟩ []) := by
  obtain ⟨picking, locked, mem⟩ : Picking idle s.toCore prev wasRunning ∧
    s.queueLock = true ∧ next ∈ s.queue.heads priority := (inv.pcOk framesAt).2
  have linked : s.queue.Linked next := ⟨priority, mem⟩
  have ranked := inv.proper.placed priority next mem
  have stays : ∀ t, (s.queue.move priority priority next).Linked t →
      s.queue.Linked t := by
    intro t nowLinked
    rcases Buckets.linked_of_move nowLinked with rfl | before
    · exact linked
    · exact before
  refine inv.move rfl rfl ?_ stays inv.idleAlive framesAt rfl (fun _ _ isReady => .inl isReady)
    (.inr ⟨rfl, ?_⟩) ⟨⟨picking.current, ?_, picking.calm, picking.was⟩, locked⟩
  · have moved : Buckets.Proper s.priority
        (s.queue.move (s.priority next) (s.priority next) next) :=
      inv.proper.move linked fun _ _ => rfl
    rw [ranked] at moved
    exact moved
  · rintro t ⟨⟩
    exact inv.created_of_linked linked
  · exact fun t counts => picking.running t ⟨stays t counts.1, counts.2⟩

theorem SchedInv.setNext
    (framesAt : s.frames s.executing = [⟨prev, wasRunning, .setNext next⟩]) :
    SchedInv idle (execFrame idle s ⟨prev, wasRunning, .setNext next⟩ []) := by
  obtain ⟨picking, -⟩ : Picking idle s.toCore prev wasRunning ∧ s.queueLock = true :=
    (inv.pcOk framesAt).2
  have statusSelf : (s.storeStatus next .running).status next = .running := update_self _ _ _
  have statusOther : ∀ t, t ≠ next →
      (s.storeStatus next .running).status t = s.status t :=
    fun t isOther => update_of_ne isOther _ _
  have notZombie : ∀ t, s.status t ≠ .zombie →
      (s.storeStatus next .running).status t ≠ .zombie := by
    intro t alive
    by_cases isNext : t = next
    · rw [isNext, statusSelf]
      nofun
    · rw [statusOther t isNext]
      exact alive
  refine inv.move rfl rfl inv.proper (fun _ linked => linked) (notZombie idle inv.idleAlive)
    framesAt rfl ?_ (.inl rfl) ⟨picking.current, ?_, picking.calm, ?_, ?_⟩
  · intro t _ isReady
    by_cases isNext : t = next
    · rw [isNext]
      exact .inr rfl
    · exact .inl ((statusOther t isNext).trans isReady)
  · intro t counts running
    by_cases isNext : t = next
    · simp [isNext]
    · have before := picking.running t counts ((statusOther t isNext).symm.trans running)
      simp [mem_singleton.mp before]
  · intro was
    by_cases isNext : prev = next
    · rw [isNext]
      exact statusSelf
    · exact (statusOther _ isNext).trans (picking.was was)
  · change (s.storeStatus next .running).status next ≠ .zombie
    rw [statusSelf]
    nofun

theorem SchedInv.setPrev
    (framesAt : s.frames s.executing = [⟨prev, wasRunning, .setPrev next⟩]) :
    SchedInv idle (execFrame idle s ⟨prev, wasRunning, .setPrev next⟩ []) := by
  obtain ⟨prevEq, promoted⟩ : prev = s.executing ∧
    Promoted idle s.toCore prev wasRunning next := inv.pcOk framesAt
  simp only [execFrame]
  split
  next outgoing =>
    have statusSelf : (s.storeStatus prev .ready).status prev = .ready := update_self _ _ _
    have statusOther : ∀ t, t ≠ prev →
        (s.storeStatus prev .ready).status t = s.status t :=
      fun t isOther => update_of_ne isOther _ _
    refine inv.move rfl rfl inv.proper (fun _ linked => linked) ?_ framesAt rfl ?_ (.inl rfl)
      ⟨promoted.current, ?_, fun some => absurd promoted.calm some, ?_, ?_⟩
    · change (s.storeStatus prev .ready).status idle ≠ .zombie
      by_cases isPrev : idle = prev
      · rw [isPrev, statusSelf]
        nofun
      · rw [statusOther idle isPrev]
        exact inv.idleAlive
    · intro t isOther isReady
      rw [← prevEq] at isOther
      exact .inl ((statusOther t isOther).trans isReady)
    · intro t counts running
      have isOther : t ≠ prev := by
        rintro rfl
        cases statusSelf.symm.trans running
      have before := promoted.running t counts
        ((statusOther t isOther).symm.trans running)
      simpa [isOther] using before
    · exact fun _ _ => .inr statusSelf
    · change (s.storeStatus prev .ready).status next ≠ .zombie
      rw [statusOther next (Ne.symm outgoing.1)]
      exact promoted.alive
  next kept =>
    refine inv.goto framesAt (.inl rfl)
      ⟨promoted.current, ?_, fun some => absurd promoted.calm some, ?_, promoted.alive⟩
    · intro t counts running
      rcases mem_pair.mp (promoted.running t counts running) with rfl | isNext
      · by_contra notNext
        have ne : t ≠ next := fun same => notNext (by simp [same])
        exact kept ⟨ne, running⟩
      · simp [isNext]
    · intro was _
      by_cases same : next = prev
      · exact .inl same
      · exact absurd ⟨Ne.symm same, promoted.was was⟩ kept

theorem SchedInv.switchTo
    (framesAt : s.frames s.executing = [⟨prev, wasRunning, .switchTo next⟩]) :
    SchedInv idle (execFrame idle s ⟨prev, wasRunning, .switchTo next⟩ []) := by
  obtain ⟨prevEq, switching⟩ : prev = s.executing ∧
    Switching idle s.toCore prev wasRunning next := inv.pcOk framesAt
  have chosenEq : s.chosen = some next := congrArg chosenBy framesAt
  have isOther := prevEq ▸ switching.different
  have framesNext : update s.frames s.executing [⟨prev, wasRunning, .finish⟩] next =
      s.frames next :=
    update_of_ne isOther _ _
  have unchosen : chosenBy (s.frames next) = none := by
    rcases inv.parked_cases isOther with nothing | ⟨parked, framesEq, -, finished⟩
    · rw [nothing]
      rfl
    · rw [framesEq, chosenBy, finished]
      rfl
  refine ⟨inv.proper, ?_, inv.idleCreated, inv.idleAlive, ?_, ?_⟩
  · intro t isFresh
    obtain ⟨unlinked, -, notChosen, isReady⟩ := inv.fresh t isFresh
    refine ⟨unlinked, ?_, ?_, isReady⟩
    · rintro rfl
      exact notChosen chosenEq
    change chosenBy (update s.frames s.executing _ next) ≠ some t
    rw [framesNext, unchosen]
    nofun
  · intro t notNext parked below threadAt
    change update s.frames s.executing _ t = parked :: below at threadAt
    by_cases isSelf : t = s.executing
    · subst isSelf
      rw [update_self] at threadAt
      cases threadAt
      refine ⟨rfl, prevEq, rfl, fun was counts => .inl ?_⟩
      rw [← prevEq] at counts ⊢
      exact switching.handed was counts
    rw [update_of_ne isSelf] at threadAt
    obtain ⟨single, samePrev, finished, handed⟩ := inv.parked t isSelf parked below threadAt
    refine ⟨single, samePrev, finished, fun was counts => ?_⟩
    rcases handed was counts with isReady | isChosen
    · exact .inl isReady
    · rw [chosenEq] at isChosen
      exact absurd (some.inj isChosen).symm notNext
  · change TopOk idle _ (update s.frames s.executing _ next)
    rw [framesNext]
    rcases inv.parked_cases isOther with nothing | ⟨parked, framesEq, samePrev, finished⟩
    · rw [nothing]
      exact switching.toOutside
    rw [framesEq]
    refine ⟨samePrev, ?_⟩
    rw [finished, samePrev]
    exact switching.toOutside

theorem SchedInv.execFrame (framesAt : s.frames s.executing = [frame])
    (quiet : ∀ next, frame.pc = .noteTest next → s.needResched = false) :
    SchedInv idle (execFrame idle s frame []) := by
  obtain ⟨prev, wasRunning, pc⟩ := frame
  obtain ⟨-, ok⟩ := inv.pcOk framesAt
  cases pc with
  | enter preemptive =>
    have entering := ok
    simp only [LaOS.Sched.execFrame]
    split
    · split
      · exact inv.leave framesAt (.inl rfl) entering.toOutside
      · exact { inv with }
    · exact inv.goto framesAt (.inl rfl) entering
  | clearResched | noteDisable next => exact inv.goto framesAt (.inl rfl) ok
  | zombieTest => exact inv.zombieTest framesAt
  | unlinkZombie => exact inv.unlinkZombie framesAt
  | linkZombie =>
    have dying := ok
    refine inv.goto framesAt (.inl rfl)
      ⟨dying.current, dying.running, fun _ _ running => ?_, fun was => ?_⟩
    · cases dying.dead.symm.trans running
    · cases dying.was.symm.trans was
  | checkZombies => exact inv.checkZombies framesAt
  | readCount => exact inv.readCount framesAt
  | lockQueue =>
    have picking := ok
    exact inv.goto framesAt (.inl rfl) ⟨{ picking with }, rfl⟩
  | scanRank remaining =>
    cases remaining with
    | nil => exact inv.goto framesAt (.inl rfl) ok
    | cons priority remaining =>
      exact inv.goto framesAt (.inl rfl) ⟨ok.1, ok.2, fun _ mem => mem⟩
  | scan priority remaining rest =>
    obtain ⟨picking, locked, members⟩ := ok
    cases rest with
    | nil => exact inv.goto framesAt (.inl rfl) ⟨picking, locked⟩
    | cons pos rest =>
      simp only [LaOS.Sched.execFrame]
      split
      · exact inv.goto framesAt (.inl rfl) ⟨picking, locked, members pos mem_cons_self⟩
      · exact inv.goto framesAt (.inl rfl) ⟨picking, locked, members⟩
  | scanSleeper priority remaining pos rest =>
    obtain ⟨picking, locked, members⟩ := ok
    simp only [LaOS.Sched.execFrame]
    split
    · exact inv.goto framesAt (.inl rfl) ⟨picking, locked, members pos mem_cons_self⟩
    · exact inv.goto framesAt (.inl rfl)
        ⟨picking, locked, fun t mem => members t (mem_cons_of_mem pos mem)⟩
  | keepPrev => exact inv.keepPrev framesAt
  | rotate => exact inv.rotate framesAt
  | setNext => exact inv.setNext framesAt
  | setPrev => exact inv.setPrev framesAt
  | unlockQueue next =>
    have chosen := ok
    exact inv.goto framesAt (.inl rfl) { chosen with }
  | compare next =>
    have chosen := ok
    simp only [LaOS.Sched.execFrame]
    split
    next isPrev =>
      subst isPrev
      exact inv.leave framesAt (.inr rfl)
        ⟨chosen.current, chosen.running, chosen.idling, fun dead => absurd dead chosen.alive⟩
    next ne => exact inv.goto framesAt (.inl rfl) ⟨chosen, ne⟩
  | noteNesting next =>
    simp only [LaOS.Sched.execFrame]
    split <;> exact inv.goto framesAt (.inl rfl) ok
  | noteEnable next =>
    simp only [LaOS.Sched.execFrame]
    split
    · exact { inv with }
    · exact inv.goto framesAt (.inl rfl) ok
  | noteTest next =>
    simp only [LaOS.Sched.execFrame, State.schedulePreempt, quiet next rfl, and_false,
      Bool.false_eq_true, if_false]
    exact inv.goto framesAt (.inl rfl) ok
  | setCurrent next =>
    obtain ⟨chosen, ne⟩ : Chosen idle s.toCore prev wasRunning next ∧ next ≠ prev := ok
    refine inv.goto framesAt (.inl rfl)
      ⟨⟨rfl, chosen.running, chosen.idling, fun dead => absurd dead chosen.alive⟩, ?_, ne⟩
    intro was counts
    rcases chosen.handed was counts with same | isReady
    · exact absurd same ne
    · exact isReady
  | switchTo => exact inv.switchTo framesAt
  | finish => exact inv.leave framesAt (.inl rfl) ok

theorem SchedInv.outside_step (framesAt : s.frames s.executing = [])
    (framesEq : after.frames = s.frames)
    (executingEq : after.executing = s.executing) (createdEq : after.created = s.created)
    (queueEq : after.queue = s.queue) (priorityEq : after.priority = s.priority)
    (statusKept : ∀ t, t ≠ s.executing → after.status t = s.status t)
    (idleAlive : after.status idle ≠ .zombie)
    (ok : Outside idle after.toCore after.executing) : SchedInv idle after := by
  have chosenEq : s.chosen = none := congrArg chosenBy framesAt
  have sameFrames : after.frames = update s.frames s.executing [] := by
    rw [framesEq, ← framesAt, update_eq_self]
  refine inv.replace executingEq createdEq ?_ ?_ idleAlive sameFrames ?_ ?_ nofun ok
  · rw [queueEq, priorityEq]
    exact inv.proper
  · intro t nowLinked
    rwa [queueEq] at nowLinked
  · intro t isOther isReady
    exact .inl ((statusKept t isOther).trans isReady)
  · intro t _ isChosen
    rw [chosenEq] at isChosen
    cases isChosen

theorem SchedInv.call (framesAt : s.frames s.executing = []) (preemptive : Bool)
    (count : Nat) : SchedInv idle ({ s with preemptCount := count }.call preemptive []) := by
  have outside : Outside idle s.toCore s.executing := by
    have top := inv.top
    rwa [framesAt] at top
  have chosenEq : s.chosen = none := congrArg chosenBy framesAt
  refine inv.replace rfl rfl inv.proper (fun _ linked => linked) inv.idleAlive rfl
    (fun _ _ isReady => .inl isReady) ?_ nofun ⟨outside.current, ?_⟩
  · intro t _ isChosen
    rw [chosenEq] at isChosen
    cases isChosen
  · change Entering idle s.toCore s.current (decide (s.status s.current = .running))
    rw [outside.current]
    exact ⟨outside, fun was => of_decide_eq_true was⟩

theorem SchedInv.retire (framesAt : s.frames s.executing = []) {status : Status}
    (notIdle : s.current ≠ idle) (notRunning : status ≠ .running)
    (linked : status = .zombie → s.queue.Linked s.current) :
    SchedInv idle (s.storeStatus s.current status) := by
  have outside : Outside idle s.toCore s.executing := by
    have top := inv.top
    rwa [framesAt] at top
  have currentEq := outside.current
  have statusSelf : (s.storeStatus s.current status).status s.current = status :=
    update_self _ _ _
  have statusOther : ∀ t, t ≠ s.current →
      (s.storeStatus s.current status).status t = s.status t :=
    fun t isOther => update_of_ne isOther _ _
  refine inv.outside_step framesAt rfl rfl rfl rfl rfl ?_ ?_ ⟨currentEq, ?_, outside.idling, ?_⟩
  · intro t isOther
    exact statusOther t (currentEq ▸ isOther)
  · rw [statusOther idle (Ne.symm notIdle)]
    exact inv.idleAlive
  · intro t counts running
    by_cases isCurrent : t = s.current
    · subst isCurrent
      exact absurd (statusSelf.symm.trans running) notRunning
    · exact outside.running t counts ((statusOther t isCurrent).symm.trans running)
  · intro dead
    change (s.storeStatus s.current status).status s.executing = .zombie at dead
    rw [← currentEq, statusSelf] at dead
    exact currentEq ▸ linked dead

end

theorem reapZombie_eq (s : State Thread) :
    ∃ zombies, reapZombie s = { s with zombies := zombies } := by
  unfold reapZombie
  split
  · exact ⟨_, rfl⟩
  · split <;> exact ⟨_, rfl⟩

theorem SchedInv.execThread (inv : SchedInv idle s)
    (framesAt : s.frames s.executing = []) {action : Action Thread}
    (ran : execThread idle s action = some after) : SchedInv idle after := by
  have outside : Outside idle s.toCore s.executing := by
    have top := inv.top
    rwa [framesAt] at top
  cases action with
  | interrupt =>
    obtain ⟨-, ⟨⟩⟩ := ite_none_right_eq_some.mp ran
    exact inv.call framesAt true _
  | schedule =>
    cases ran
    exact inv.call framesAt false _
  | rcuReadLock | preemptDisable | setWakeup =>
    cases ran
    exact inv.outside_step framesAt rfl rfl rfl rfl rfl (fun _ _ => rfl) inv.idleAlive outside
  | rcuReadUnlock =>
    obtain ⟨-, ⟨⟩⟩ := ite_none_right_eq_some.mp ran
    exact inv.outside_step framesAt rfl rfl rfl rfl rfl (fun _ _ => rfl) inv.idleAlive outside
  | preemptEnable =>
    simp only [LaOS.Sched.execThread] at ran
    split at ran <;> cases ran
    · exact inv.outside_step framesAt rfl rfl rfl rfl rfl (fun _ _ => rfl) inv.idleAlive outside
    unfold State.schedulePreempt
    split
    · exact inv.call framesAt true _
    refine inv.outside_step framesAt ?_ rfl rfl rfl rfl (fun _ _ => rfl) inv.idleAlive
      outside
    change update s.frames s.executing [] = s.frames
    rw [← framesAt, update_eq_self]
  | block | sleep =>
    obtain ⟨guards, ⟨⟩⟩ := ite_none_right_eq_some.mp ran
    exact inv.retire framesAt guards.1 nofun nofun
  | exit =>
    obtain ⟨guards, ⟨⟩⟩ := ite_none_right_eq_some.mp ran
    exact inv.retire framesAt guards.1 nofun fun _ => guards.2.2.1
  | reap =>
    obtain ⟨isIdle, ⟨⟩⟩ := ite_none_right_eq_some.mp ran
    obtain ⟨zombies, reaped⟩ := reapZombie_eq s
    rw [reaped]
    refine inv.outside_step framesAt rfl rfl rfl rfl rfl (fun _ _ => rfl) inv.idleAlive
      { outside with idling := fun _ => ?_ }
    exact outside.current.symm.trans isIdle
  | _ => cases ran

end LaOS.Sched
