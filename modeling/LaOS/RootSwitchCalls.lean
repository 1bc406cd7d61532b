import LaOS.RootSwitchPick

/-!
# Calls from outside `__schedule`

`cpu_enqueue`, the functions that change priorities, wake-ups, reaping, and what
the current threads do.  Together with `__schedule` these are all the moves of the
queue machine.
-/

namespace LaOS.RootSwitch

open Option Function
open Runqueue (Config Context Kind Node Pc compareNext)
open Sched (Priority RunQueue Status)

variable {Cpu Agent Thread : Type} [DecidableEq Cpu] [DecidableEq Agent] [DecidableEq Thread]
  {cfg : Config Cpu Thread} {s after : Runqueue.State Cpu Agent Thread}
  {notes : Notes Cpu Thread} {cpu : Cpu} {t : Thread}

section

variable (inv : Inv cfg s notes)

include inv

variable {agent : Agent}

theorem Inv.execEnqueue
    (ran : Runqueue.execEnqueue cfg s (.agent agent) (s.pc (.agent agent)) =
      some after) : Inv cfg after notes := by
  have entering := inv.agents agent
  generalize s.pc (.agent agent) = pc at ran entering
  cases pc with
  | enqueue t atTail =>
    cases ran
    have notAdmitted : (s.node t).admitted ≠ true := by
      rw [show s.node t = _ from entering]
      exact nofun
    have stored : (s.storeStatus t .ready).status t = .ready := update_self ..
    have kept : ∀ other, other ≠ t →
        (s.storeStatus t .ready).status other = s.status other :=
      fun other ne => update_of_ne ne ..
    refine inv.moveAgent ?_ ?_ ?_ ?_
    · refine ⟨rfl, fun _ _ => id, fun _ => id, ?_, ?_, fun _ _ _ => .inl⟩
      · intro other
        by_cases same : other = t
        · rw [same, stored]
          refine iff_of_false nofun fun exited => notAdmitted ?_
          exact inv.links.admitted t exited
        · rw [kept other same]
      · intro other admitted
        rw [kept other fun same => notAdmitted (same ▸ admitted)]
    · rfl
    · exact fun _ _ _ _ => rfl
    · exact entering
  | enqueueLock t atTail =>
    obtain ⟨-, ⟨⟩⟩ := ite_none_right_eq_some.mp ran
    exact inv.moveAgent .relock rfl (fun _ _ _ _ => rfl) entering
  | enqueueLink t atTail rank =>
    cases ran
    refine inv.moveAgent ?_ rfl ?_ trivial
    · refine .storeQueue (.inl rfl) rfl rfl rfl (fun other _ => ne_run _ other)
        (admitted_storeNode rfl) ?_
      intro subject inQueue
      have extended : subject = t ∨
          (s.queue (.run, cfg.home t)).Linked subject := by
        split at inQueue
        next => exact Buckets.linked_addBack.mp inQueue
        next => exact Buckets.linked_addFront.mp inQueue
      rcases extended with rfl | before
      · refine .inr ⟨⟨rfl, ?_⟩, nofun⟩
        rw [node_storeNode_self]
        rfl
      · exact .inl before
    · intro other _ notEntering _
      refine update_of_ne ?_ ..
      rintro rfl
      exact notEntering entering
  | _ => cases ran

omit [DecidableEq Thread] in
theorem Inv.agentStep {mid : Runqueue.State Cpu Agent Thread} {pc : Pc Thread}
    (current : mid.current = s.current) (queues : mid.queues = s.queues)
    (node : mid.node = s.node) (status : mid.status = s.status)
    (pcs : mid.pc = s.pc)
    (ok : ∀ node : Thread → Node Cpu Agent, Runqueue.AgentOk node agent pc) :
    Inv cfg (mid.goto (.agent agent) pc) notes :=
  inv.moveAgent (.of_eq current queues node status) pcs (fun other _ _ _ => congrFun node other)
    (ok _)

omit [DecidableEq Thread] in
theorem Inv.agentLock {home : Cpu}
    {lock : Option (Context Cpu Agent)} {priority : Thread → Priority} {pc : Pc Thread}
    (ok : ∀ node : Thread → Node Cpu Agent, Runqueue.AgentOk node agent pc) :
    Inv cfg ({ s.storeQueue (.run, home) (s.queue (.run, home)) lock with
      priority }.goto (.agent agent) pc) notes := by
  have quiet : Quiet cfg s (s.storeQueue (.run, home) (s.queue (.run, home)) lock) :=
    .relock
  exact inv.moveAgent { quiet with } rfl (fun _ _ _ _ => rfl) (ok _)

theorem Inv.execPriority
    (ran : Runqueue.execPriority cfg s (.agent agent) (s.pc (.agent agent)) =
      some after) : Inv cfg after notes := by
  have panics : Inv cfg { s with panicked := true } notes := inv.of_eq rfl rfl rfl rfl rfl
  generalize s.pc (.agent agent) = pc at ran
  cases pc with
  | testBlocked t rank =>
    cases ran
    refine inv.agentStep rfl rfl rfl rfl rfl fun node => ?_
    split
    next => trivial
    next => trivial
  | piLock t request =>
    obtain ⟨-, ⟨⟩⟩ := ite_none_right_eq_some.mp ran
    refine inv.agentStep rfl rfl rfl rfl rfl ?_
    exact fun _ => trivial
  | update t request =>
    cases request with
    | setBase rank =>
      cases ran
      refine inv.agentStep rfl rfl rfl rfl rfl ?_
      exact fun _ => trivial
    | donate old new =>
      simp only [Runqueue.execPriority] at ran
      split at ran <;> cases ran
      · exact panics
      · refine inv.agentStep rfl rfl rfl rfl rfl ?_
        exact fun _ => trivial
  | apply t rank =>
    cases ran
    refine inv.agentStep rfl rfl rfl rfl rfl fun node => ?_
    split
    next => trivial
    next =>
      split
      next => trivial
      next => trivial
  | store t rank | piUnlock t =>
    cases ran
    refine inv.agentStep rfl rfl rfl rfl rfl ?_
    exact fun _ => trivial
  | lockRun t old rank =>
    obtain ⟨-, ⟨⟩⟩ := ite_none_right_eq_some.mp ran
    refine inv.agentLock fun node => ?_
    split
    next => trivial
    next => trivial
  | move t old rank =>
    simp only [Runqueue.execPriority] at ran
    split at ran <;> cases ran
    next linked =>
      have admitted := admitted_of_isLinked linked
      refine inv.moveAgent ?_ rfl (fun other notAdmitted _ _ =>
        node_storeNode_of_admitted admitted other notAdmitted) trivial
      refine .storeQueue (.inr ⟨t, rfl⟩) rfl rfl rfl (fun other _ => ne_run _ other)
        (admitted_storeNode rfl) ?_
      intro subject inQueue
      rcases Buckets.linked_addBack.mp inQueue with rfl | before
      · refine .inr ⟨⟨rfl, ?_⟩, nofun⟩
        rw [node_storeNode_self]
        rfl
      · exact .inl (linked_listDel (Buckets.linked_clearIfEmpty.mp before))
    next => exact panics
  | storeLocked t rank =>
    cases ran
    refine inv.agentLock ?_
    exact fun _ => trivial
  | _ => cases ran

theorem Inv.callEnqueue (fresh : s.node t = .fresh)
    (living : notes.destroying t = false) (atTail : Bool) :
    Inv cfg ((s.storeNode t (.entering (.agent agent))).goto (.agent agent)
      (.enqueue t atTail)) notes := by
  have quiet : Quiet cfg s (s.storeNode t (.entering (.agent agent))) := by
    refine .of_status rfl rfl (fun _ _ => id) ?_ fun _ _ _ => .inl
    intro other admitted
    have ne : other ≠ t := by
      rintro rfl
      rw [fresh] at admitted
      cases admitted
    have kept : (s.storeNode t (.entering (.agent agent))).node other = s.node other :=
      update_of_ne ne ..
    rwa [kept]
  refine inv.moveAgent quiet rfl ?_ (node_storeNode_self _)
  intro other _ _ destroyed
  refine update_of_ne ?_ ..
  rintro rfl
  cases living.symm.trans (destroyed fresh)

end

omit [DecidableEq Cpu] [DecidableEq Agent] in
theorem Inv.wake (inv : Inv cfg s notes) (blocked : s.status t = .blocked) :
    Inv cfg (s.storeStatus t .ready) notes := by
  have stored : (s.storeStatus t .ready).status t = .ready := update_self ..
  have kept : ∀ other, other ≠ t →
      (s.storeStatus t .ready).status other = s.status other :=
    fun other ne => update_of_ne ne ..
  have sameAs : ∀ other status, status ≠ .blocked → status ≠ .ready →
      ((s.storeStatus t .ready).status other = status ↔ s.status other = status) := by
    intro other status notBlocked notReady
    by_cases same : other = t
    · rw [same, stored, blocked]
      exact iff_of_false notReady.symm notBlocked.symm
    · rw [kept other same]
  refine inv.stay ?_ rfl fun _ _ => rfl
  exact ⟨rfl, fun _ _ => id, fun _ => id, fun other => sameAs other .zombie nofun nofun,
    fun other _ => sameAs other .running nofun nofun, fun _ _ _ => .inl⟩

omit [DecidableEq Agent] in
theorem Inv.reapZombie (inv : Inv cfg s notes) (pcAt : s.pc (.cpu cpu) = .idle)
    (ran : Runqueue.reapZombie s cpu = some after) : Inv cfg after notes := by
  have panics : Inv cfg { s with panicked := true } notes := inv.of_eq rfl rfl rfl rfl rfl
  obtain ⟨-, ran⟩ := ite_none_left_eq_some.mp ran
  split at ran
  next =>
    cases ran
    exact inv
  next =>
    split at ran
    next =>
      cases ran
      exact panics
    next rank _ _ =>
      split at ran <;> cases ran
      next => exact panics
      next t last =>
        have mem := List.mem_of_getLast? last
        have admitted := (inv.links.linked .zombie cpu t ⟨rank, mem⟩).2
        refine inv.stay ?_ rfl (node_storeNode_of_admitted admitted)
        refine .storeQueue (.inr ⟨t, rfl⟩) rfl rfl rfl ?_ (admitted_storeNode rfl) ?_
        · rintro other isAt ⟨⟩
          cases pcAt.symm.trans isAt
        · exact fun subject inQueue =>
            .inl (linked_listDel (Buckets.linked_clearIfEmpty.mp inQueue))

omit [DecidableEq Cpu] [DecidableEq Agent] in
theorem Inv.storeOwn (inv : Inv cfg s notes) (pcAt : s.pc (.cpu cpu) = .idle)
    (status : Status) (alive : s.status (s.current cpu) ≠ .zombie)
    (dies : status = .zombie → (s.node (s.current cpu)).admitted = true ∧
      s.current cpu ≠ cfg.idle cpu ∧ notes.outer (s.current cpu) = [])
    (current : after.current = s.current) (queues : after.queues = s.queues)
    (node : after.node = s.node)
    (statuses : after.status = update s.status (s.current cpu) status)
    (pcs : after.pc = s.pc) : Inv cfg after notes := by
  have settles : Settles cfg s after notes cpu (s.current cpu) status := by
    refine ⟨inv.links.home cpu, alive,
      inv.suspended.unclaimed (not_promoted_current inv.links), fun isZombie => ?_, current,
      queues, node, statuses⟩
    obtain ⟨admitted, notIdle, outside⟩ := dies isZombie
    exact ⟨admitted, notIdle, outside, rfl⟩
  refine settles.inv inv (inv.unswitched fun next isAt => ?_) (fun ctx _ => congrFun pcs _) ?_
  · cases pcAt.symm.trans isAt
  · rw [pcs, pcAt]
    trivial

variable {action : Runqueue.Action Cpu Agent Thread}

theorem Inv.execThread (inv : Inv cfg s notes) (pcAt : s.pc (.cpu cpu) = .idle)
    (outside : notes.outer (s.current cpu) = [])
    (ran : Runqueue.execThread cfg s cpu action = some after) :
    Inv cfg after notes := by
  cases action with
  | callSchedule _ =>
    cases ran
    exact inv.goto (inv.unswitched fun next isAt => nomatch pcAt.symm.trans isAt) trivial
  | block _ =>
    obtain ⟨enabled, ⟨⟩⟩ := ite_none_right_eq_some.mp ran
    exact inv.storeOwn pcAt .blocked enabled.2 nofun rfl rfl rfl rfl rfl
  | sleep _ _ =>
    obtain ⟨enabled, ⟨⟩⟩ := ite_none_right_eq_some.mp ran
    exact inv.storeOwn pcAt .sleeping enabled.2 nofun rfl rfl rfl rfl rfl
  | exit _ =>
    obtain ⟨enabled, ⟨⟩⟩ := ite_none_right_eq_some.mp ran
    refine inv.storeOwn pcAt .zombie enabled.2.1 (fun _ => ⟨?_, enabled.1, outside⟩)
      rfl rfl rfl rfl rfl
    rw [enabled.2.2]
    rfl
  | reap _ =>
    obtain ⟨-, ran⟩ := ite_none_right_eq_some.mp ran
    exact inv.reapZombie pcAt ran
  | _ => cases ran

/-- The CPU whose current thread acts outside `__schedule`. -/
def actsOn : Runqueue.Action Cpu Agent Thread → Option Cpu
  | .callSchedule cpu | .block cpu | .sleep cpu _ | .exit cpu | .reap cpu => some cpu
  | _ => none

/-- A move of the queue machine that respects interrupted activations.  A CPU stores
`current` after `__switch_mm`. -/
theorem Inv.step (inv : Inv cfg s notes)
    (outside : ∀ cpu, actsOn action = some cpu → notes.outer (s.current cpu) = [])
    (notAt : ∀ cpu, action = .exec (.cpu cpu) → ∀ next, s.pc (.cpu cpu) ≠ .setCurrent next)
    (living : ∀ agent t atTail, action = .callEnqueue agent t atTail →
      notes.destroying t = false)
    (ran : Runqueue.step cfg s action = some after) : Inv cfg after notes := by
  obtain ⟨-, ran⟩ := ite_none_left_eq_some.mp ran
  cases action with
  | exec ctx =>
    cases ctx with
    | cpu cpu =>
      have unswitched := inv.unswitched (notAt cpu rfl)
      rcases or_eq_some_iff.mp ran with inZombie | ⟨_, inPick⟩
      · exact inv.execZombie unswitched inZombie
      · exact inv.execPick unswitched (notAt cpu rfl) inPick
    | agent agent =>
      rcases or_eq_some_iff.mp ran with inEnqueue | ⟨_, inPriority⟩
      · exact inv.execEnqueue inEnqueue
      · exact inv.execPriority inPriority
  | callEnqueue agent t atTail =>
    obtain ⟨enabled, ⟨⟩⟩ := ite_none_right_eq_some.mp ran
    exact inv.callEnqueue enabled.2.1 (living agent t atTail rfl) atTail
  | callSetPriority agent t priority =>
    obtain ⟨-, ran⟩ := ite_none_right_eq_some.mp ran
    split at ran <;> cases ran
    · exact inv
    · refine inv.agentStep rfl rfl rfl rfl rfl ?_
      exact fun _ => trivial
  | callUpdateDonation agent t old new =>
    obtain ⟨-, ⟨⟩⟩ := ite_none_right_eq_some.mp ran
    refine inv.agentStep rfl rfl rfl rfl rfl ?_
    exact fun _ => trivial
  | wake t =>
    obtain ⟨blocked, ⟨⟩⟩ := ite_none_right_eq_some.mp ran
    exact inv.wake blocked
  | tick =>
    cases ran
    exact inv.of_eq rfl rfl rfl rfl rfl
  | callSchedule cpu | block cpu | sleep cpu duration | exit cpu | reap cpu =>
    obtain ⟨pcAt, ran⟩ := ite_none_right_eq_some.mp ran
    exact inv.execThread pcAt (outside cpu rfl) ran

end LaOS.RootSwitch
