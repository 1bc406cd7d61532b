import LaOS.RootSwitchInvariant

/-!
# Quiet moves, and `sched_idle_zombie`

Most moves of the queue machine change neither `current` nor the statuses that a
choice of `__schedule` depends on.
-/

namespace LaOS.RootSwitch

open Function
open Runqueue (Config Context Kind Node Pc compareNext)
open Sched (Priority RunQueue Status)

variable {Cpu Agent Thread : Type} {cfg : Config Cpu Thread}
  {s mid after : Runqueue.State Cpu Agent Thread} {outer : Thread → List Thread}
  {notes : Notes Cpu Thread} {cpu : Cpu} {t : Thread}

theorem Suspended.unclaimed (suspended : Suspended cfg s outer)
    (notPromoted : ¬ Promoted cfg s (cfg.home t) t) (prev : Thread)
    (isIn : t ∈ outer prev) : t = cfg.idle (cfg.home prev) := by
  rcases suspended.claim prev t isIn with isIdle | promoted
  · exact isIdle
  · rw [promoted.1.1] at notPromoted
    exact absurd promoted notPromoted

theorem Suspended.unclaimed_idle (suspended : Suspended cfg s outer) (prev : Thread)
    (isIn : cfg.idle cpu ∈ outer prev) : cfg.idle cpu = cfg.idle (cfg.home prev) := by
  rcases suspended.claim prev _ isIn with isIdle | promoted
  · exact isIdle
  · rw [← promoted.1.1, cfg.home_idle]

theorem not_promoted_current (links : Links cfg s) :
    ¬ Promoted cfg s (cfg.home (s.current cpu)) (s.current cpu) := by
  rintro ⟨-, -, notCurrent⟩
  rw [links.home] at notCurrent
  exact notCurrent rfl

theorem Candidate.not_promoted (candidate : Candidate cfg s cpu t) :
    ¬ Promoted cfg s (cfg.home t) t :=
  fun promoted => candidate.2.2 promoted.2.1

theorem Suspended.unclaimed_of_not_promoted (suspended : Suspended cfg s outer)
    (atHome : cfg.home t = cpu)
    (notPromoted : ¬ Promoted cfg s (cfg.home t) t) :
    Unclaimed cfg outer cpu t := by
  by_cases isIdle : t = cfg.idle cpu
  · exact .inl isIdle
  refine .inr fun prev isIn => ?_
  have idleEq := suspended.unclaimed notPromoted prev isIn
  have homeEq : cfg.home prev = cpu := by
    rw [← atHome, idleEq, cfg.home_idle]
  rw [homeEq] at idleEq
  exact isIdle idleEq

theorem Quiet.of_eq (current : after.current = s.current) (queues : after.queues = s.queues)
    (node : after.node = s.node) (status : after.status = s.status) :
    Quiet cfg s after where
  current := current
  count cpu _ positive := by
    rw [Runqueue.State.queue, queues]
    exact positive
  admitted t admitted := by rwa [node]
  zombie t := by rw [status]
  running t _ := by rw [status]
  linked kind cpu t isLinked := by
    rw [Runqueue.State.queue, queues] at isLinked
    exact .inl isLinked

theorem Quiet.of_status (current : after.current = s.current)
    (status : after.status = s.status) (count : ∀ cpu, s.pc (.cpu cpu) = .checkZombies →
      (s.queue (.zombie, cpu)).count ≠ 0 → (after.queue (.zombie, cpu)).count ≠ 0)
    (admitted : ∀ t, (s.node t).admitted = true → (after.node t).admitted = true)
    (linked : ∀ kind cpu t, (after.queue (kind, cpu)).Linked t →
      (s.queue (kind, cpu)).Linked t ∨
        Member cfg after cpu t ∧ (kind = .zombie → s.status t = .zombie)) :
    Quiet cfg s after where
  current := current
  count := count
  admitted := admitted
  zombie t := by rw [status]
  running t _ := by rw [status]
  linked := linked

variable {stage : Node Cpu Agent}

theorem admitted_of_isLinked (linked : stage.isLinked = true) : stage.admitted = true := by
  cases stage with
  | queued kind => rfl
  | _ => cases linked

theorem Inv.stay (inv : Inv cfg s notes) (quiet : Quiet cfg s after)
    (pcs : after.pc = s.pc) (nodes : ∀ t, (s.node t).admitted = false →
      after.node t = s.node t) : Inv cfg after notes := by
  refine quiet.inv inv none (fun _ _ => congrFun pcs _) nofun nofun ?_ ?_
  · intro agent
    rw [pcs]
    exact (inv.agents agent).frame fun other entering => nodes other (by rw [entering]; rfl)
  · exact fun t _ fresh => (nodes t (by rw [fresh]; rfl)).trans fresh

theorem Inv.of_eq (inv : Inv cfg s notes) (current : after.current = s.current)
    (queues : after.queues = s.queues) (node : after.node = s.node)
    (status : after.status = s.status) (pcs : after.pc = s.pc) :
    Inv cfg after notes := by
  refine inv.stay (.of_eq current queues node status) pcs fun _ _ => ?_
  rw [node]

theorem ne_run (home other : Cpu) : ((Kind.zombie, other) : Kind × Cpu) ≠ (.run, home) := by
  intro same
  cases same

variable {key other : Kind × Cpu} {queue : RunQueue Thread} {lock : Option (Context Cpu Agent)}

section Moves

variable [DecidableEq Cpu]

theorem queue_storeQueue_self (key : Kind × Cpu) (queue : RunQueue Thread)
    (lock : Option (Context Cpu Agent)) : (s.storeQueue key queue lock).queue key = queue :=
  congrArg Runqueue.LockedQueue.queue (update_self key _ s.queues)

theorem queue_storeQueue_of_ne (ne : other ≠ key)
    (queue : RunQueue Thread) (lock : Option (Context Cpu Agent)) :
    (s.storeQueue key queue lock).queue other = s.queue other :=
  congrArg Runqueue.LockedQueue.queue (update_of_ne ne _ s.queues)

theorem linked_storeQueue (linked : ((s.storeQueue key queue lock).queue other).Linked t) :
    other = key ∧ queue.Linked t ∨ (s.queue other).Linked t := by
  by_cases same : other = key
  · subst same
    rw [queue_storeQueue_self] at linked
    exact .inl ⟨rfl, linked⟩
  · rw [queue_storeQueue_of_ne same] at linked
    exact .inr linked

theorem queue_relock :
    (s.storeQueue key (s.queue key) lock).queue other = s.queue other := by
  by_cases same : other = key
  · rw [same]
    exact queue_storeQueue_self ..
  · exact queue_storeQueue_of_ne same ..

theorem Quiet.relock : Quiet cfg s (s.storeQueue key (s.queue key) lock) := by
  refine .of_status rfl rfl ?_ (fun _ => id) ?_
  · intro other _ positive
    rwa [queue_relock]
  · intro kind other t linked
    rw [queue_relock] at linked
    exact .inl linked

variable [DecidableEq Agent]

theorem pc_goto_self (ctx : Context Cpu Agent) (pc : Pc Thread) :
    (s.goto ctx pc).pc ctx = pc :=
  update_self ..

theorem pc_goto_of_ne {ctx other : Context Cpu Agent} (ne : other ≠ ctx)
    (pc : Pc Thread) : (s.goto ctx pc).pc other = s.pc other :=
  update_of_ne ne ..

theorem pc_goto_of_eq (pcs : mid.pc = s.pc) (mover : Context Cpu Agent) (pc : Pc Thread)
    (ctx : Context Cpu Agent) (stays : some mover ≠ some ctx) :
    (mid.goto mover pc).pc ctx = s.pc ctx :=
  (pc_goto_of_ne (fun same => stays (congrArg some same.symm)) pc).trans (congrFun pcs ctx)

theorem Quiet.goto (quiet : Quiet cfg s mid) (ctx : Context Cpu Agent)
    (pc : Pc Thread) : Quiet cfg s (mid.goto ctx pc) :=
  { quiet with }

variable {pc : Pc Thread}

theorem Inv.moveCpu (inv : Inv cfg s notes) (unswitched : notes.switched cpu = false)
    (quiet : Quiet cfg s mid) (pcs : mid.pc = s.pc)
    (nodes : ∀ t, (s.node t).admitted = false →
      mid.node t = s.node t) (ok : CpuOk cfg mid notes.outer cpu pc) :
    Inv cfg (mid.goto (.cpu cpu) pc) notes := by
  have pcOf := pc_goto_of_eq pcs (.cpu cpu) pc
  refine (quiet.goto _ _).inv inv (some (.cpu cpu)) pcOf ?_ ?_ ?_ ?_
  · intro other mover
    cases mover
    rw [pc_goto_self]
    have moved : Quiet cfg mid (mid.goto (.cpu cpu) pc) := .of_eq rfl rfl rfl rfl
    refine (moved.undisturbed cpu).cpuOk ?_ (fun _ => id) ok
    exact (quiet.links inv.links).home cpu
  · intro other mover
    cases mover
    exact unswitched
  · intro agent
    rw [pcOf (.agent agent) nofun]
    exact (inv.agents agent).frame fun other entering => nodes other (by rw [entering]; rfl)
  · exact fun other _ fresh => (nodes other (by rw [fresh]; rfl)).trans fresh

theorem Inv.goto (inv : Inv cfg s notes) (unswitched : notes.switched cpu = false)
    (ok : CpuOk cfg s notes.outer cpu pc) : Inv cfg (s.goto (.cpu cpu) pc) notes :=
  inv.moveCpu unswitched (.of_eq rfl rfl rfl rfl) rfl (fun _ _ => rfl) ok

/-- A caller of another function moves; it may change the node of a thread that it enqueues, or
of a new one that is not being destroyed. -/
theorem Inv.moveAgent (inv : Inv cfg s notes) {agent : Agent}
    (quiet : Quiet cfg s mid) (pcs : mid.pc = s.pc)
    (nodes : ∀ t, (s.node t).admitted = false →
      s.node t ≠ .entering (.agent agent) →
      (s.node t = .fresh → notes.destroying t = true) →
      mid.node t = s.node t) (ok : Runqueue.AgentOk mid.node agent pc) :
    Inv cfg (mid.goto (.agent agent) pc) notes := by
  have pcOf := pc_goto_of_eq pcs (.agent agent) pc
  refine (quiet.goto _ _).inv inv (some (.agent agent)) pcOf nofun nofun ?_ ?_
  · intro other
    by_cases same : other = agent
    · subst same
      rw [pc_goto_self]
      exact ok
    have ne : (.agent other : Context Cpu Agent) ≠ .agent agent :=
      fun equal => same (Context.agent.inj equal)
    rw [pcOf _ fun equal => ne (Option.some.inj equal).symm]
    refine (inv.agents other).frame fun t entering => nodes t ?_ ?_ ?_
    · rw [entering]
      rfl
    · rw [entering]
      exact fun equal => ne (Node.entering.inj equal)
    · rw [entering]
      exact nofun
  · intro t destroying fresh
    refine (nodes t ?_ ?_ fun _ => destroying).trans fresh
    · rw [fresh]
      rfl
    · rw [fresh]
      exact nofun

end Moves

variable [DecidableEq Thread]

theorem cpuOk_compareNext {next : Thread} (chosen : next = s.current cpu ∨
      Claim cfg s cpu next ∧ Unclaimed cfg outer cpu next)
    (exited : s.status (s.current cpu) = .zombie → next = cfg.idle cpu) :
    CpuOk cfg s outer cpu (compareNext s cpu next) := by
  unfold compareNext
  split
  next => trivial
  next ne =>
    obtain ⟨claim, unclaimed⟩ := chosen.resolve_left ne
    exact ⟨ne, claim, unclaimed, exited⟩

theorem cpuOk_compareNext_idle :
    CpuOk cfg s outer cpu (compareNext s cpu (cfg.idle cpu)) :=
  cpuOk_compareNext (.inr ⟨.inl rfl, .inl rfl⟩) fun _ => rfl

theorem admitted_storeNode (admitted : stage.admitted = true)
    (other : Thread) (before : (s.node other).admitted = true) :
    ((s.storeNode t stage).node other).admitted = true := by
  by_cases same : other = t
  · have stored : (s.storeNode t stage).node other = stage := by
      rw [same]
      exact update_self ..
    rw [stored]
    exact admitted
  · have kept : (s.storeNode t stage).node other = s.node other :=
      update_of_ne same ..
    rw [kept]
    exact before

theorem node_storeNode_self (stage : Node Cpu Agent) :
    (s.storeNode t stage).node t = stage :=
  update_self ..

theorem node_storeNode_of_admitted (admitted : (s.node t).admitted = true) (other : Thread)
    (notAdmitted : (s.node other).admitted = false) :
    (s.storeNode t stage).node other = s.node other := by
  refine update_of_ne ?_ ..
  rintro rfl
  cases admitted.symm.trans notAdmitted

theorem linked_listDel {other : Thread}
    (linked : ((s.listDel other).queue key).Linked t) : (s.queue key).Linked t :=
  Buckets.linked_of_erase linked

variable [DecidableEq Cpu]

theorem Quiet.storeQueue {base : Runqueue.State Cpu Agent Thread}
    (shrunk : base = s ∨ ∃ subject, base = s.listDel subject)
    (current : after.current = s.current) (status : after.status = s.status)
    (queues : after.queues = (base.storeQueue key queue lock).queues)
    (notHere : ∀ cpu, s.pc (.cpu cpu) = .checkZombies → (.zombie, cpu) ≠ key)
    (admitted : ∀ t, (s.node t).admitted = true → (after.node t).admitted = true)
    (added : ∀ t, queue.Linked t → (s.queue key).Linked t ∨
      Member cfg after key.2 t ∧ (key.1 = .zombie → s.status t = .zombie)) :
    Quiet cfg s after := by
  have kept : ∀ other, (base.queue other).count = (s.queue other).count ∧
      ∀ t, (base.queue other).Linked t → (s.queue other).Linked t := by
    intro other
    rcases shrunk with rfl | ⟨subject, rfl⟩
    · exact ⟨rfl, fun _ => id⟩
    · exact ⟨rfl, fun _ => linked_listDel⟩
  have queueEq : ∀ other, after.queue other = (base.storeQueue key queue lock).queue other := by
    intro other
    rw [Runqueue.State.queue, queues]
    rfl
  refine .of_status current status ?_ admitted ?_
  · intro cpu isAt positive
    rw [queueEq, queue_storeQueue_of_ne (notHere cpu isAt), (kept _).1]
    exact positive
  · intro kind cpu t linked
    rw [queueEq] at linked
    rcases linked_storeQueue linked with ⟨rfl, inQueue⟩ | before
    · exact added t inQueue
    · exact .inl ((kept _).2 t before)

variable [DecidableEq Agent]

theorem Inv.execZombie (inv : Inv cfg s notes) (unswitched : notes.switched cpu = false)
    (ran : Runqueue.execZombie cfg s cpu (s.pc (.cpu cpu)) = some after) :
    Inv cfg after notes := by
  have ok := inv.cpus cpu
  generalize pcAt : s.pc (.cpu cpu) = pc at ran ok
  have elsewhere : pc ≠ .checkZombies → ∀ other, s.pc (.cpu other) = .checkZombies →
      ((Kind.zombie, other) : Kind × Cpu) ≠ (.zombie, cpu) := by
    rintro ne other isAt ⟨⟩
    exact ne (pcAt.symm.trans isAt)
  cases pc with
  | zombieTest =>
    cases ran
    refine inv.goto unswitched ?_
    split
    next exited => exact ⟨rfl, exited⟩
    next alive => exact fun exited => absurd exited alive
  | unlink prev =>
    obtain ⟨-, ⟨⟩⟩ := Option.ite_none_right_eq_some.mp ran
    refine inv.moveCpu unswitched ?_ rfl
      (node_storeNode_of_admitted (inv.links.admitted prev ok.2)) ok
    refine .storeQueue (.inr ⟨prev, rfl⟩) rfl rfl rfl (fun other _ => ne_run cpu other)
      (admitted_storeNode rfl) ?_
    exact fun t inQueue => .inl (linked_listDel inQueue)
  | unlinkClear prev =>
    cases ran
    refine inv.moveCpu unswitched ?_ rfl (fun _ _ => rfl) ok
    refine .storeQueue (.inl rfl) rfl rfl rfl (fun other _ => ne_run cpu other) (fun _ => id) ?_
    exact fun t inQueue => .inl (Buckets.linked_clearIfEmpty.mp inQueue)
  | zombieLink prev =>
    obtain ⟨-, ⟨⟩⟩ := Option.ite_none_right_eq_some.mp ran
    obtain ⟨rfl, exited⟩ := ok
    have admitted := inv.links.admitted _ exited
    refine inv.moveCpu unswitched ?_ rfl (node_storeNode_of_admitted admitted) ⟨rfl, exited⟩
    refine .storeQueue (.inl rfl) rfl rfl rfl (elsewhere nofun) (admitted_storeNode rfl) ?_
    intro t inQueue
    rcases Buckets.linked_pushFront.mp inQueue with rfl | before
    · exact .inr ⟨⟨inv.links.home cpu, admitted_storeNode rfl _ admitted⟩, fun _ => exited⟩
    · exact .inl before
  | zombieFlag prev =>
    cases ran
    refine inv.moveCpu unswitched ?_ rfl (fun _ _ => rfl) fun _ => ?_
    · refine .storeQueue (.inl rfl) rfl rfl rfl (elsewhere nofun) (fun _ => id) ?_
      exact fun t inQueue => .inl inQueue
    · rw [queue_storeQueue_self]
      exact Nat.succ_ne_zero _
  | checkZombies =>
    cases ran
    refine inv.goto unswitched ?_
    split
    next isZero => exact fun exited => ok exited isZero
    next => exact cpuOk_compareNext_idle
  | _ => cases ran

end LaOS.RootSwitch
