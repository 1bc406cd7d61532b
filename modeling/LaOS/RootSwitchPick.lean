import LaOS.RootSwitchMoves

/-!
# `pick_next`, and the switch to its choice

`pick_next` stores the status of a thread that no interrupted activation has
chosen, and the thread that becomes current is one that has not exited.
-/

namespace LaOS.RootSwitch

open Function
open Runqueue (Config Context Kind Node Pc compareNext)
open Sched (Priority RunQueue Status)

variable {Cpu Agent Thread : Type} [DecidableEq Cpu] [DecidableEq Agent] [DecidableEq Thread]
  {cfg : Config Cpu Thread} {s after : Runqueue.State Cpu Agent Thread}
  {notes : Notes Cpu Thread} {cpu : Cpu} {t : Thread}

/-- A CPU stores a status of a thread of its own that has not exited, is not the choice of an
interrupted activation, and may exit if it is current. -/
structure Settles (cfg : Config Cpu Thread) (s after : Runqueue.State Cpu Agent Thread)
    (notes : Notes Cpu Thread) (cpu : Cpu) (t : Thread) (status : Status) : Prop where
  atHome : cfg.home t = cpu
  alive : s.status t ≠ .zombie
  unclaimed : ∀ prev, t ∈ notes.outer prev → t = cfg.idle (cfg.home prev)
  dies : status = .zombie → (s.node t).admitted = true ∧ t ≠ cfg.idle cpu ∧
    notes.outer t = [] ∧ t = s.current cpu
  current : after.current = s.current
  queues : after.queues = s.queues
  node : after.node = s.node
  statuses : after.status = Function.update s.status t status

namespace Settles

omit [DecidableEq Cpu] [DecidableEq Agent]

variable {status : Status} (settles : Settles cfg s after notes cpu t status)

include settles

theorem stored : after.status t = status := by
  rw [settles.statuses]
  exact update_self ..

theorem kept {other : Thread} (ne : other ≠ t) :
    after.status other = s.status other := by
  rw [settles.statuses]
  exact update_of_ne ne ..

theorem queue : after.queue = s.queue := by
  funext key
  rw [Runqueue.State.queue, settles.queues]
  rfl

theorem dead {other : Thread} (exited : s.status other = .zombie) :
    after.status other = .zombie := by
  rw [settles.kept fun same => settles.alive (same ▸ exited)]
  exact exited

theorem elsewhere {other : Cpu} (ne : other ≠ cpu) :
    Undisturbed cfg other s after := by
  have keeps : ∀ mem, cfg.home mem = other →
      after.status mem = s.status mem := by
    intro mem home
    refine settles.kept fun same => ne ?_
    rw [← home, same, settles.atHome]
  refine ⟨congrFun settles.current other, ?_, ?_, ?_⟩
  · intro mem admitted
    rwa [settles.node]
  · intro mem home
    rw [keeps mem home]
  · intro mem isMember
    rw [keeps mem isMember.1]

theorem links (links : Links cfg s) : Links cfg after := by
  refine ⟨?_, ?_, ?_, ?_, ?_⟩
  · rw [settles.current]
    exact links.home
  · intro other
    by_cases same : cfg.idle other = t
    · rw [same, settles.stored]
      intro isZombie
      refine (settles.dies isZombie).2.1 ?_
      rw [← settles.atHome, ← same, cfg.home_idle]
    · rw [settles.kept same]
      exact links.idle other
  · intro other exited
    rw [settles.node]
    by_cases same : other = t
    · subst same
      exact (settles.dies (settles.stored.symm.trans exited)).1
    · rw [settles.kept same] at exited
      exact links.admitted other exited
  · rw [settles.queue, settles.node]
    exact links.linked
  · rw [settles.queue]
    exact fun cpu other linked => settles.dead (links.zombies cpu other linked)

theorem suspended (suspended : Suspended cfg s notes.outer) :
    Suspended cfg after notes.outer := by
  refine ⟨?_, suspended.different, ?_, suspended.once, suspended.apart⟩
  · intro prev next isIn
    by_cases same : next = t
    · subst same
      exact .inl (settles.unclaimed prev isIn)
    refine (suspended.claim prev next isIn).imp_right fun promoted => ?_
    refine ⟨?_, ?_, ?_⟩
    · rw [Member, settles.node]
      exact promoted.1
    · rw [settles.kept same]
      exact promoted.2.1
    · rw [settles.current]
      exact promoted.2.2
  · intro prev next isIn exited
    by_cases same : prev = t
    · subst same
      rw [(settles.dies (settles.stored.symm.trans exited)).2.2.1] at isIn
      cases isIn
    · rw [settles.kept same] at exited
      exact suspended.exited prev next isIn exited

theorem loadedOk (unswitched : notes.switched cpu = false) {other : Cpu} {subject : Thread}
    (loaded : LoadedOk cfg s (notes.switched other) other subject) :
    LoadedOk cfg after (notes.switched other) other subject := by
  refine ⟨?_, ?_⟩
  · rw [Member, settles.node]
    exact loaded.1
  rw [settles.current]
  by_cases same : subject = t
  · subst same
    have otherEq := loaded.1.1.symm.trans settles.atHome
    subst otherEq
    by_cases isZombie : status = .zombie
    · exact .inr ⟨(settles.dies isZombie).2.2.2, unswitched⟩
    · rw [settles.stored]
      exact .inl isZombie
  · rw [settles.kept same]
    exact loaded.2

theorem inv (inv : Inv cfg s notes) (unswitched : notes.switched cpu = false)
    (pcs : ∀ ctx, ctx ≠ .cpu cpu → after.pc ctx = s.pc ctx)
    (ok : CpuOk cfg after notes.outer cpu (after.pc (.cpu cpu))) : Inv cfg after notes := by
  have pcOf : ∀ other, other ≠ cpu → after.pc (.cpu other) = s.pc (.cpu other) :=
    fun other ne => pcs _ fun equal => ne (Context.cpu.inj equal)
  refine ⟨settles.links inv.links, settles.suspended inv.suspended, ?_, ?_, ?_, ?_, ?_⟩
  · intro other
    by_cases same : other = cpu
    · subst same
      exact ok
    rw [pcOf other same]
    refine (settles.elsewhere same).cpuOk (inv.links.home other) ?_ (inv.cpus other)
    rw [settles.queue]
    exact fun _ => id
  · intro agent
    rw [pcs (.agent agent) nofun, settles.node]
    exact inv.agents agent
  · exact fun other subject isLoaded =>
      settles.loadedOk unswitched (inv.loaded other subject isLoaded)
  · exact inv.switched_elsewhere unswitched pcOf
  · rw [settles.node]
    exact fun other destroying => (inv.gone other destroying).imp_left settles.dead

end Settles

variable {next : Thread}

theorem Inv.setNext (inv : Inv cfg s notes) (unswitched : notes.switched cpu = false)
    (ok : CpuOk cfg s notes.outer cpu (.setNext next)) :
    Inv cfg ((s.storeStatus next .running).goto (.cpu cpu) (.setPrev next)) notes := by
  obtain ⟨alive, chosen⟩ := ok
  have atHome : cfg.home next = cpu := by
    rcases chosen with rfl | rfl | candidate
    · exact cfg.home_idle cpu
    · exact inv.links.home cpu
    · exact candidate.1.1
  have nextAlive : s.status next ≠ .zombie := by
    rcases chosen with rfl | rfl | candidate
    · exact inv.links.idle cpu
    · exact alive
    · exact candidate.2.1
  have unclaimed : ∀ prev, next ∈ notes.outer prev → next = cfg.idle (cfg.home prev) := by
    rcases chosen with rfl | rfl | candidate
    · exact inv.suspended.unclaimed_idle
    · exact inv.suspended.unclaimed (not_promoted_current inv.links)
    · exact inv.suspended.unclaimed candidate.not_promoted
  have running : (s.storeStatus next .running).status next = .running := update_self ..
  have settles : Settles cfg s
      ((s.storeStatus next .running).goto (.cpu cpu) (.setPrev next)) notes cpu next .running :=
    ⟨atHome, nextAlive, unclaimed, nofun, rfl, rfl, rfl, rfl⟩
  refine settles.inv inv unswitched ?_ ?_
  · exact fun ctx ne => pc_goto_of_ne ne _
  rw [pc_goto_self]
  refine ⟨?_, ?_⟩
  · intro exited
    by_cases same : s.current cpu = next
    · subst same
      cases running.symm.trans exited
    · exact alive ((update_of_ne same ..).symm.trans exited)
  by_cases isCurrent : next = s.current cpu
  · exact .inl isCurrent
  right
  rcases chosen with rfl | isCurrent' | candidate
  · exact ⟨.inl rfl, .inl rfl⟩
  · exact absurd isCurrent' isCurrent
  · refine ⟨.inr ⟨candidate.1, running, isCurrent⟩, ?_⟩
    exact inv.suspended.unclaimed_of_not_promoted atHome candidate.not_promoted

omit [DecidableEq Thread] in
theorem Inv.relock (inv : Inv cfg s notes) (unswitched : notes.switched cpu = false)
    (lock : Option (Context Cpu Agent))
    {pc : Pc Thread} (ok : CpuOk cfg s notes.outer cpu pc) :
    Inv cfg ((s.storeQueue (.run, cpu) (s.queue (.run, cpu)) lock).goto (.cpu cpu) pc)
      notes := by
  refine inv.moveCpu unswitched .relock rfl (fun _ _ => rfl) ?_
  refine (Quiet.relock.undisturbed cpu).cpuOk (inv.links.home cpu) ?_ ok
  rw [queue_relock]
  exact fun _ => id

omit [DecidableEq Cpu] [DecidableEq Agent] in
theorem Inv.leaveCurrent (inv : Inv cfg s notes) (unswitched : notes.switched cpu = false)
    {next : Thread}
    (pcAt : s.pc (.cpu cpu) = .setPrev next) (ne : s.current cpu ≠ next) :
    Inv cfg (s.storeStatus (s.current cpu) .ready) notes := by
  obtain ⟨alive, chosen⟩ : CpuOk cfg s notes.outer cpu (.setPrev next) := pcAt ▸ inv.cpus cpu
  have stored : (s.storeStatus (s.current cpu) .ready).status (s.current cpu) =
      .ready := update_self ..
  have kept : (s.storeStatus (s.current cpu) .ready).status next = s.status next :=
    update_of_ne ne.symm ..
  have settles : Settles cfg s (s.storeStatus (s.current cpu) .ready) notes cpu
      (s.current cpu) .ready :=
    ⟨inv.links.home cpu, alive, inv.suspended.unclaimed (not_promoted_current inv.links), nofun,
      rfl, rfl, rfl, rfl⟩
  refine settles.inv inv unswitched (fun _ _ => rfl) ?_
  change CpuOk cfg _ notes.outer cpu (s.pc (.cpu cpu))
  rw [pcAt]
  refine ⟨fun exited => ?_, .inr ?_⟩
  · cases stored.symm.trans exited
  · obtain ⟨claim, unclaimed⟩ := chosen.resolve_left ne.symm
    refine ⟨claim.imp_right fun promoted => ?_, unclaimed⟩
    exact ⟨promoted.1, kept.trans promoted.2.1, promoted.2.2⟩

theorem Inv.setPrev (inv : Inv cfg s notes) (unswitched : notes.switched cpu = false)
    (pcAt : s.pc (.cpu cpu) = .setPrev next)
    (ran : Runqueue.execPick cfg s cpu (.setPrev next) = some after) :
    Inv cfg after notes := by
  simp only [Runqueue.execPick, Option.some.injEq] at ran
  subst ran
  split
  next leaves =>
    have settled := inv.leaveCurrent unswitched pcAt leaves.1
    obtain ⟨alive, chosen⟩ : CpuOk cfg _ notes.outer cpu (.setPrev next) := pcAt ▸ settled.cpus cpu
    exact settled.relock unswitched none (cpuOk_compareNext chosen fun exited => absurd exited alive)
  next =>
    obtain ⟨alive, chosen⟩ : CpuOk cfg s notes.outer cpu (.setPrev next) := pcAt ▸ inv.cpus cpu
    exact inv.relock unswitched none (cpuOk_compareNext chosen fun exited => absurd exited alive)

theorem Inv.setCurrent (inv : Inv cfg s notes) (isSwitched : notes.switched cpu = true)
    (pcAt : s.pc (.cpu cpu) = .setCurrent next) :
    Inv cfg ({ s with current := update s.current cpu next }.goto (.cpu cpu)
      .idle) { notes with switched := update notes.switched cpu false } := by
  obtain ⟨ne, claim, unclaimed, exited⟩ :
      CpuOk cfg s notes.outer cpu (.setCurrent next) := pcAt ▸ inv.cpus cpu
  have atHome := claim.home
  have stored : update s.current cpu next cpu = next := update_self ..
  have elsewhere : ∀ other, other ≠ cpu → Undisturbed cfg other s
      ({ s with current := update s.current cpu next }.goto (.cpu cpu) .idle) :=
    fun other apart => ⟨update_of_ne apart .., fun _ => id, fun _ _ => .rfl, fun _ _ => .rfl⟩
  have pcOf : ∀ other, other ≠ cpu → ({ s with
      current := update s.current cpu next }.goto (.cpu cpu) .idle).pc (.cpu other) =
        s.pc (.cpu other) :=
    fun other apart => pc_goto_of_ne (fun equal => apart (Context.cpu.inj equal)) _
  refine ⟨⟨?_, inv.links.idle, inv.links.admitted, inv.links.linked, inv.links.zombies⟩,
    ⟨?_, inv.suspended.different, inv.suspended.exited, inv.suspended.once,
      inv.suspended.apart⟩, ?_, ?_, ?_, ?_, inv.gone⟩
  · intro other
    change cfg.home (update s.current cpu next other) = other
    by_cases same : other = cpu
    · rw [same, stored, atHome]
    · rw [update_of_ne same]
      exact inv.links.home other
  · intro prev chosen isIn
    refine (inv.suspended.claim prev chosen isIn).elim .inl fun promoted => ?_
    by_cases here : cfg.home prev = cpu
    · by_cases same : chosen = next
      · rw [here]
        refine .inl (same.trans (unclaimed.resolve_right fun notIn => notIn prev ?_))
        exact same ▸ isIn
      · refine .inr ⟨promoted.1, promoted.2.1, ?_⟩
        change chosen ≠ update s.current cpu next (cfg.home prev)
        rwa [here, stored]
    · exact (elsewhere _ here).claim (.inr promoted)
  · intro other
    by_cases same : other = cpu
    · subst same
      rw [pc_goto_self]
      trivial
    · rw [pcOf other same]
      exact (elsewhere other same).cpuOk (inv.links.home other) (fun _ => id) (inv.cpus other)
  · intro agent
    exact inv.agents agent
  · intro other t isLoaded
    have loaded := inv.loaded other t isLoaded
    by_cases same : other = cpu
    · subst same
      rw [isSwitched] at loaded
      exact ⟨loaded.1, .inl (loaded.2.resolve_right nofun)⟩
    · change LoadedOk cfg _ (update notes.switched cpu false other) other t
      rw [update_of_ne same]
      exact (elsewhere other same).loadedOk loaded
  · intro other switchedNow
    have apart : other ≠ cpu := by
      rintro rfl
      cases (update_self ..).symm.trans switchedNow
    rw [pcOf other apart]
    exact inv.switched other ((update_of_ne apart ..).symm.trans switchedNow)

theorem Inv.execPick (inv : Inv cfg s notes) (unswitched : notes.switched cpu = false)
    (notAt : ∀ next, s.pc (.cpu cpu) ≠ .setCurrent next)
    (ran : Runqueue.execPick cfg s cpu (s.pc (.cpu cpu)) = some after) :
    Inv cfg after notes := by
  have ok := inv.cpus cpu
  generalize pcAt : s.pc (.cpu cpu) = pc at ran ok
  cases pc with
  | readCount =>
    cases ran
    refine inv.goto unswitched ?_
    split
    next => exact cpuOk_compareNext_idle
    next => exact ok
  | lockQueue =>
    obtain ⟨-, ⟨⟩⟩ := Option.ite_none_right_eq_some.mp ran
    exact inv.relock unswitched _ ok
  | scanRank remaining =>
    cases remaining with
    | nil =>
      cases ran
      exact inv.goto unswitched ⟨ok, nofun⟩
    | cons rank remaining =>
      cases ran
      refine inv.goto unswitched ⟨ok, fun pos isIn => ?_⟩
      exact inv.links.linked .run cpu pos ⟨rank, isIn⟩
  | scan rank remaining rest =>
    cases rest with
    | nil =>
      cases ran
      exact inv.goto unswitched ok.1
    | cons pos rest =>
      cases ran
      refine inv.goto unswitched ?_
      split
      next isReady =>
        refine ⟨ok.1, fun next isIn => ?_⟩
        cases isIn
        refine ⟨ok.2 pos List.mem_cons_self, ?_, ?_⟩
        all_goals
          rw [isReady]
          exact nofun
      next => exact ok
  | scanSleeper rank remaining pos rest =>
    cases ran
    refine inv.goto unswitched ?_
    split
    next isDue =>
      refine ⟨ok.1, fun next isIn => ?_⟩
      cases isIn
      refine ⟨ok.2 pos List.mem_cons_self, ?_, ?_⟩
      all_goals
        rw [isDue.1]
        exact nofun
    next => exact ⟨ok.1, fun other isIn => ok.2 other (List.mem_cons_of_mem pos isIn)⟩
  | keepPrev found =>
    cases ran
    refine inv.goto unswitched ?_
    unfold Runqueue.afterScan
    split
    next => exact ⟨ok.1, .inr (.inl rfl)⟩
    next =>
      cases found with
      | none => exact ⟨ok.1, .inl rfl⟩
      | some choice =>
        have candidate := ok.2 choice.1 rfl
        simp only
        split
        next => exact ⟨ok.1, .inr (.inr candidate)⟩
        next => exact ⟨ok.1, candidate⟩
  | rotate next rank =>
    cases ran
    have quiet : Quiet cfg s (((s.listDel next).storeQueue (.run, cpu)
        (((s.listDel next).queue (.run, cpu)).clearIfEmpty rank)
          (some (.cpu cpu))).storeNode next .rotating) := by
      refine .storeQueue (.inr ⟨next, rfl⟩) rfl rfl rfl (fun other _ => ne_run cpu other)
        (admitted_storeNode rfl) ?_
      exact fun t inQueue => .inl (linked_listDel (Buckets.linked_clearIfEmpty.mp inQueue))
    refine inv.moveCpu unswitched quiet rfl (node_storeNode_of_admitted ok.2.1.2) ?_
    exact (quiet.undisturbed cpu).cpuOk (inv.links.home cpu) nofun ok
  | rotateLink next rank =>
    cases ran
    have quiet : Quiet cfg s ((s.storeQueue (.run, cpu)
        ((s.queue (.run, cpu)).addBack rank next)
          (some (.cpu cpu))).storeNode next (.queued .run)) := by
      refine .storeQueue (.inl rfl) rfl rfl rfl (fun other _ => ne_run cpu other)
        (admitted_storeNode rfl) ?_
      intro t inQueue
      rcases Buckets.linked_addBack.mp inQueue with rfl | before
      · exact .inr ⟨⟨ok.2.1.1, admitted_storeNode rfl _ ok.2.1.2⟩, nofun⟩
      · exact .inl before
    refine inv.moveCpu unswitched quiet rfl (node_storeNode_of_admitted ok.2.1.2) ?_
    exact ⟨ok.1, .inr (.inr ((quiet.undisturbed cpu).candidate ok.2))⟩
  | setNext next =>
    cases ran
    exact inv.setNext unswitched ok
  | setPrev next =>
    exact inv.setPrev unswitched pcAt ran
  | setCurrent next =>
    exact absurd pcAt (notAt next)
  | _ => cases ran

end LaOS.RootSwitch
