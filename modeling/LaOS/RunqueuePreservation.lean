import LaOS.RunqueueInvariant

/-!
# Queue sections keep the invariant

One lemma for every position of `sched_idle_zombie`, `pick_next` and
`cpu_enqueue`.  None of them changes a priority.
-/

namespace LaOS.Runqueue

open Option Function
open Sched (Priority RunQueue Status)

variable {Cpu Agent Thread : Type} [DecidableEq Thread]
  {cfg : Config Cpu Thread} {s : State Cpu Agent Thread} {ctx : Context Cpu Agent}
  {pc next : Pc Thread} {key : Kind × Cpu} {queue : RunQueue Thread} {cpu : Cpu}
  {prev : Thread} {rank : Priority}

variable {chosen : Thread}

theorem cpuOk_compareNext (atHome : cfg.home chosen = cpu) (alive : ¬ s.dead chosen) :
    CpuOk cfg s.dead s.node cpu (s.current cpu) (compareNext s cpu chosen) := by
  unfold compareNext
  split
  next isCurrent =>
    intro isDead
    rw [← isCurrent] at isDead
    exact absurd isDead alive
  next => exact ⟨atHome, alive⟩

theorem outside_compareNext (cpu : Cpu) (chosen : Thread) :
    cfg.section (.cpu cpu : Context Cpu Agent) (compareNext s cpu chosen) = none ∧
      (compareNext s cpu chosen).piSection = none ∧
      OldOk s.priority (compareNext s cpu chosen) := by
  unfold compareNext
  split <;> exact ⟨rfl, rfl, trivial⟩

namespace QueueInv

section

variable (inv : QueueInv cfg s)

include inv

theorem cpuOk (pcAt : s.pc (.cpu cpu) = pc) :
    CpuOk cfg s.dead s.node cpu (s.current cpu) pc := by
  rw [← pcAt]
  exact inv.stages.contexts (.cpu cpu)

theorem agentOk {agent : Agent}
    (pcAt : s.pc (.agent agent) = pc) : AgentOk s.node agent pc := by
  rw [← pcAt]
  exact inv.stages.contexts (.agent agent)

theorem alive_of_entering {t : Thread}
    (entering : s.node t = .entering ctx) : ¬ s.dead t := by
  intro isDead
  have mortal := inv.stages.mortal t isDead
  rw [entering] at mortal
  cases mortal

theorem ok (pcAt : s.pc ctx = pc) (inside : cfg.section ctx pc = some key) :
    SectionOk s.priority (s.queue key) pc := by
  refine inv.sections.inside ctx key pc ?_
  rw [position_of cfg pcAt, inside]
  rfl

theorem proper (isFree : (s.queues key).lock = none) :
    (s.queue key).Proper s.priority :=
  inv.sections.free key isFree

theorem home_of_member {t : Thread} {kind : Kind}
    (mem : t ∈ (s.queue (kind, cpu)).heads rank) :
    cfg.home t = cpu ∧ s.node t = .queued kind :=
  (inv.linked (kind, cpu) t).mp ⟨rank, mem⟩

theorem storeStatus {t : Thread} (status : Status)
    (alive : ¬ s.dead t) (staysAlive : status ≠ .zombie) :
    QueueInv cfg (s.storeStatus t status) :=
  { inv with
    stages := by
      rw [State.dead_storeStatus alive staysAlive]
      exact inv.stages }

end

variable [DecidableEq Cpu] [DecidableEq Agent] {after : State Cpu Agent Thread}

section

variable (inv : QueueInv cfg s)

include inv

theorem sections_keep (pcAt : s.pc ctx = pc)
    (same : cfg.section ctx next = cfg.section ctx pc)
    (ok : ∀ key, cfg.section ctx pc = some key →
      SectionOk s.priority (s.queue key) next) :
    SectionsOk cfg s.priority (update s.pc ctx next) s.queues := by
  rw [SectionsOk, position_update, same]
  cases inside : cfg.section ctx pc with
  | none =>
    refine inv.sections.move_outside ?_
    rw [position_of cfg pcAt, inside]
    rfl
  | some key =>
    have selfAt := position_of cfg pcAt
    rw [inside] at selfAt
    exact inv.sections.step_same selfAt (ok key inside)

theorem sections_step (pcAt : s.pc ctx = pc) (inside : cfg.section ctx pc = some key)
    (stays : cfg.section ctx next = some key) (ok : SectionOk s.priority queue next) :
    SectionsOk cfg s.priority (update s.pc ctx next)
      (update s.queues key ⟨queue, some ctx⟩) := by
  have selfAt := position_of cfg pcAt
  rw [inside] at selfAt
  rw [SectionsOk, position_update, stays]
  exact inv.sections.step selfAt rfl ok

theorem sections_acquire (isFree : (s.queues key).lock = none)
    (enters : cfg.section ctx next = some key) (ok : SectionOk s.priority queue next) :
    SectionsOk cfg s.priority (update s.pc ctx next)
      (update s.queues key ⟨queue, some ctx⟩) := by
  rw [SectionsOk, position_update, enters]
  exact inv.sections.acquire isFree rfl ok

theorem sections_release (pcAt : s.pc ctx = pc)
    (inside : cfg.section ctx pc = some key)
    (leaves : cfg.section ctx next = none) (ok : queue.Proper s.priority) :
    SectionsOk cfg s.priority (update s.pc ctx next)
      (update s.queues key ⟨queue, none⟩) := by
  have selfAt := position_of cfg pcAt
  rw [inside] at selfAt
  rw [SectionsOk, position_update, leaves]
  exact inv.sections.release selfAt ok

theorem pi_keep (pcAt : s.pc ctx = pc)
    (same : next.piSection = pc.piSection) (ok : OldOk s.priority next) :
    Guarded id (fun _ _ => True) (fun _ _ _ pc => OldOk s.priority pc)
      (piPosition (update s.pc ctx next)) s.piLock := by
  rw [piPosition_update, same]
  have at' : piPosition s.pc ctx = pc.piSection.map (·, pc) := by
    rw [← pcAt]
    rfl
  cases inside : pc.piSection with
  | none => exact inv.pi.move_outside (at'.trans (by rw [inside]; rfl))
  | some t => exact inv.pi.step_same (at'.trans (by rw [inside]; rfl)) ok

theorem goto (pcAt : s.pc ctx = pc)
    (sectionSame : cfg.section ctx next = cfg.section ctx pc)
    (sectionOk : ∀ key, cfg.section ctx pc = some key →
      SectionOk s.priority (s.queue key) next)
    (piSame : next.piSection = pc.piSection) (oldOk : OldOk s.priority next)
    (stageOk : ContextOk cfg s.dead s.node s.current ctx next) :
    QueueInv cfg (s.goto ctx next) where
  stages := inv.stages.goto stageOk
  linked := inv.linked
  sections := inv.sections_keep pcAt sectionSame sectionOk
  pi := inv.pi_keep pcAt piSame oldOk

theorem goto_compareNext (pcAt : s.pc (.cpu cpu) = pc)
    (outside : cfg.section (.cpu cpu : Context Cpu Agent) pc = none)
    (piOutside : pc.piSection = none) (atHome : cfg.home chosen = cpu)
    (alive : ¬ s.dead chosen) :
    QueueInv cfg (s.goto (.cpu cpu) (compareNext s cpu chosen)) := by
  obtain ⟨noSection, noPi, oldOk⟩ := @outside_compareNext _ _ _ _ cfg s cpu chosen
  refine inv.goto pcAt (noSection.trans outside.symm) ?_ (noPi.trans piOutside.symm) oldOk
    (cpuOk_compareNext atHome alive)
  intro key inside
  rw [outside] at inside
  cases inside

theorem unlink (pcAt : s.pc (.cpu cpu) = .unlink prev)
    (ran : execZombie cfg s cpu (.unlink prev) = some after) : QueueInv cfg after := by
  obtain ⟨isFree, ⟨⟩⟩ := ite_none_right_eq_some.mp ran
  obtain ⟨rfl, isDead, queued⟩ := inv.cpuOk pcAt
  have proper := inv.proper isFree
  have linked : (s.queue (.run, cfg.home prev)).Linked prev :=
    (inv.linked _ _).mpr ⟨rfl, queued⟩
  rw [inv.listDel queued]
  refine ⟨?_, ?_, ?_, ?_⟩
  · exact inv.stages.renode_cpu rfl (fun _ entering => nomatch queued.symm.trans entering)
      ⟨rfl, isDead, update_self ..⟩ fun _ => rfl
  · exact linked_of_remove inv.linked rfl proper queued rfl nofun
  · exact inv.sections_acquire isFree rfl ⟨_, proper, linked, rfl⟩
  · exact inv.pi_keep pcAt rfl trivial

theorem unlinkClear (pcAt : s.pc (.cpu cpu) = .unlinkClear prev)
    (ran : execZombie cfg s cpu (.unlinkClear prev) = some after) : QueueInv cfg after := by
  cases ran
  obtain ⟨before, proper, linked, queueEq⟩ := inv.ok pcAt rfl
  refine ⟨inv.stages.goto (inv.cpuOk pcAt), ?_, ?_, inv.pi_keep pcAt rfl trivial⟩
  · exact linked_of_heads inv.linked (Buckets.heads_clearIfEmpty _ _)
  · refine inv.sections_release pcAt rfl rfl ?_
    rw [queueEq]
    exact proper.remove linked

theorem zombieLink (pcAt : s.pc (.cpu cpu) = .zombieLink prev)
    (ran : execZombie cfg s cpu (.zombieLink prev) = some after) : QueueInv cfg after := by
  obtain ⟨isFree, ⟨⟩⟩ := ite_none_right_eq_some.mp ran
  obtain ⟨atHome, isDead, leaving⟩ := inv.cpuOk pcAt
  have absent : ¬ (s.queue (.zombie, cpu)).Linked prev := by
    rw [inv.linked, leaving]
    exact fun both => nomatch both.2
  refine ⟨?_, ?_, ?_, inv.pi_keep pcAt rfl trivial⟩
  · exact inv.stages.renode_cpu atHome (fun _ entering => nomatch leaving.symm.trans entering)
      ⟨atHome, isDead, update_self ..⟩ fun _ => rfl
  · refine linked_of_insert inv.linked atHome ?_ fun _ => Buckets.linked_pushFront
    exact fun _ staged => nomatch leaving.symm.trans staged
  · exact inv.sections_acquire isFree rfl ⟨_, inv.proper isFree, absent, rfl⟩

theorem zombieFlag (pcAt : s.pc (.cpu cpu) = .zombieFlag prev)
    (ran : execZombie cfg s cpu (.zombieFlag prev) = some after) : QueueInv cfg after := by
  cases ran
  obtain ⟨before, proper, absent, queueEq⟩ := inv.ok pcAt rfl
  refine ⟨inv.stages.goto trivial, linked_of_heads inv.linked rfl, ?_, inv.pi_keep pcAt rfl trivial⟩
  refine inv.sections_release pcAt rfl rfl ?_
  rw [queueEq]
  exact proper.addFront absent

theorem execZombie (pcAt : s.pc (.cpu cpu) = pc)
    (ran : LaOS.Runqueue.execZombie cfg s cpu pc = some after) :
    QueueInv cfg after := by
  cases pc with
  | zombieTest =>
    cases ran
    split
    next isDead =>
      exact inv.goto pcAt rfl nofun rfl trivial
        ⟨inv.stages.homed cpu, isDead, inv.cpuOk pcAt isDead⟩
    next => exact inv.goto pcAt rfl nofun rfl trivial trivial
  | unlink prev => exact inv.unlink pcAt ran
  | unlinkClear prev => exact inv.unlinkClear pcAt ran
  | zombieLink prev => exact inv.zombieLink pcAt ran
  | zombieFlag prev => exact inv.zombieFlag pcAt ran
  | checkZombies =>
    cases ran
    split
    · exact inv.goto pcAt rfl nofun rfl trivial trivial
    · exact inv.goto_compareNext pcAt rfl rfl (cfg.home_idle cpu) (inv.stages.idleAlive cpu)
  | _ => cases ran

theorem scanning (pcAt : s.pc (.cpu cpu) = pc)
    (inside : pc.cpuSection = some .run) (stays : next.cpuSection = some .run)
    (piSame : next.piSection = pc.piSection) (oldOk : OldOk s.priority next)
    (ok : SectionOk s.priority (s.queue (.run, cpu)) next)
    (stageOk : CpuOk cfg s.dead s.node cpu (s.current cpu) next) :
    QueueInv cfg (s.goto (.cpu cpu) next) := by
  have insideEq : cfg.section (.cpu cpu : Context Cpu Agent) pc = some (.run, cpu) := by
    simp only [Config.section, inside, map_some]
  have staysEq : cfg.section (.cpu cpu : Context Cpu Agent) next = some (.run, cpu) := by
    simp only [Config.section, stays, map_some]
  refine inv.goto pcAt (staysEq.trans insideEq.symm) ?_ piSame oldOk stageOk
  intro key atKey
  rw [insideEq] at atKey
  cases atKey
  exact ok

variable {remaining : List Priority} {rest : List Thread}

theorem scan {pos : Thread} (pcAt : s.pc (.cpu cpu) = .scan rank remaining (pos :: rest))
    (ran : execPick cfg s cpu (.scan rank remaining (pos :: rest)) = some after) :
    QueueInv cfg after := by
  cases ran
  obtain ⟨proper, members⟩ := inv.ok pcAt rfl
  split
  next isReady =>
    have mem := members pos List.mem_cons_self
    refine inv.scanning pcAt rfl rfl rfl trivial ⟨proper, mem⟩
      ⟨(inv.home_of_member mem).1, ?_⟩
    intro isDead
    cases isReady.symm.trans isDead
  next => exact inv.scanning pcAt rfl rfl rfl trivial ⟨proper, members⟩ trivial

theorem scanSleeper (pcAt : s.pc (.cpu cpu) = .scanSleeper rank remaining pos rest)
    (ran : execPick cfg s cpu (.scanSleeper rank remaining pos rest) = some after) :
    QueueInv cfg after := by
  cases ran
  obtain ⟨proper, members⟩ := inv.ok pcAt rfl
  split
  next expired =>
    have mem := members pos List.mem_cons_self
    refine inv.scanning pcAt rfl rfl rfl trivial ⟨proper, mem⟩
      ⟨(inv.home_of_member mem).1, ?_⟩
    intro isDead
    cases expired.1.symm.trans isDead
  next =>
    exact inv.scanning pcAt rfl rfl rfl trivial
      ⟨proper, fun t inRest => members t (List.mem_cons_of_mem pos inRest)⟩ trivial

theorem keepPrev (pcAt : s.pc (.cpu cpu) = .keepPrev found)
    (ran : execPick cfg s cpu (.keepPrev found) = some after) : QueueInv cfg after := by
  cases ran
  have sectionOk := inv.ok pcAt rfl
  have stageOk := inv.cpuOk pcAt
  have proper : (s.queue (.run, cpu)).Proper s.priority := by
    cases found with
    | none => exact sectionOk
    | some found => exact sectionOk.1
  unfold afterScan
  split
  next keeps =>
    simp only [keepsPrev, decide_eq_true_eq] at keeps
    refine inv.scanning pcAt rfl rfl rfl trivial proper ⟨inv.stages.homed cpu, ?_⟩
    intro isDead
    cases keeps.2.1.symm.trans isDead
  next =>
    cases found with
    | none =>
      exact inv.scanning pcAt rfl rfl rfl trivial proper
        ⟨cfg.home_idle cpu, inv.stages.idleAlive cpu⟩
    | some found =>
      dsimp only
      split
      · exact inv.scanning pcAt rfl rfl rfl trivial proper stageOk
      · exact inv.scanning pcAt rfl rfl rfl trivial sectionOk stageOk

theorem rotate (pcAt : s.pc (.cpu cpu) = .rotate chosen rank)
    (ran : execPick cfg s cpu (.rotate chosen rank) = some after) : QueueInv cfg after := by
  cases ran
  obtain ⟨proper, mem⟩ := inv.ok pcAt rfl
  obtain ⟨rfl, queued⟩ := inv.home_of_member mem
  obtain ⟨_, alive⟩ := inv.cpuOk pcAt
  rw [inv.listDel queued]
  refine ⟨?_, ?_, ?_, inv.pi_keep pcAt rfl trivial⟩
  · exact inv.stages.renode_cpu rfl (fun _ entering => nomatch queued.symm.trans entering)
      ⟨rfl, alive, update_self ..⟩ fun isDead => absurd isDead alive
  · exact linked_of_remove inv.linked rfl proper queued (Buckets.heads_clearIfEmpty _ _) nofun
  · exact inv.sections_step pcAt rfl rfl
      ⟨_, proper, ⟨rank, mem⟩, proper.placed rank chosen mem, rfl⟩

theorem rotateLink (pcAt : s.pc (.cpu cpu) = .rotateLink chosen rank)
    (ran : execPick cfg s cpu (.rotateLink chosen rank) = some after) :
    QueueInv cfg after := by
  cases ran
  obtain ⟨before, proper, linked, rfl, queueEq⟩ := inv.ok pcAt rfl
  obtain ⟨atHome, alive, rotating⟩ := inv.cpuOk pcAt
  refine ⟨?_, ?_, ?_, inv.pi_keep pcAt rfl trivial⟩
  · exact inv.stages.renode_cpu atHome (fun _ entering => nomatch rotating.symm.trans entering)
      ⟨atHome, alive⟩ fun _ => rfl
  · refine linked_of_insert inv.linked atHome ?_ fun _ => Buckets.linked_addBack
    exact fun _ staged => nomatch rotating.symm.trans staged
  · refine inv.sections_step pcAt rfl rfl ?_
    rw [queueEq]
    exact proper.move linked fun _ _ => rfl

theorem unlockQueue (pcAt : s.pc (.cpu cpu) = .setPrev chosen) :
    QueueInv cfg ((s.storeQueue (.run, cpu) (s.queue (.run, cpu)) none).goto (.cpu cpu)
      (compareNext s cpu chosen)) := by
  obtain ⟨atHome, alive⟩ := inv.cpuOk pcAt
  obtain ⟨noSection, noPi, oldOk⟩ := @outside_compareNext _ _ _ _ cfg s cpu chosen
  exact ⟨inv.stages.goto (cpuOk_compareNext atHome alive), linked_of_heads inv.linked rfl,
    inv.sections_release pcAt rfl noSection (inv.ok pcAt rfl), inv.pi_keep pcAt noPi oldOk⟩

theorem setPrev (pcAt : s.pc (.cpu cpu) = .setPrev chosen)
    (ran : execPick cfg s cpu (.setPrev chosen) = some after) : QueueInv cfg after := by
  cases ran
  split
  next wasRunning =>
    have alive : ¬ s.dead (s.current cpu) := by
      intro isDead
      cases wasRunning.2.symm.trans isDead
    exact (inv.storeStatus .ready alive nofun).unlockQueue pcAt
  next => exact inv.unlockQueue pcAt

theorem setCurrent (pcAt : s.pc (.cpu cpu) = .setCurrent chosen)
    (ran : execPick cfg s cpu (.setCurrent chosen) = some after) : QueueInv cfg after := by
  cases ran
  obtain ⟨atHome, alive⟩ := inv.cpuOk pcAt
  refine ⟨⟨?_, inv.stages.idleAlive, ?_, inv.stages.mortal⟩, inv.linked,
    inv.sections_keep pcAt rfl nofun, inv.pi_keep pcAt rfl trivial⟩
  · intro other
    by_cases same : other = cpu
    · subst same
      exact (congrArg cfg.home (update_self ..)).trans atHome
    · exact (congrArg cfg.home (update_of_ne same ..)).trans (inv.stages.homed other)
  intro ctx
  change ContextOk cfg s.dead s.node (update s.current cpu chosen) ctx
    (update s.pc (.cpu cpu) .idle ctx)
  by_cases same : ctx = .cpu cpu
  · subst same
    rw [update_self]
    intro isDead
    rw [update_self] at isDead
    exact absurd isDead alive
  rw [update_of_ne same]
  have before := inv.stages.contexts ctx
  cases ctx with
  | agent agent => exact before
  | cpu other =>
    have elsewhere : other ≠ cpu := fun isSame => same (congrArg Context.cpu isSame)
    simp only [ContextOk, update_of_ne elsewhere]
    exact before

theorem execPick (pcAt : s.pc (.cpu cpu) = pc)
    (ran : LaOS.Runqueue.execPick cfg s cpu pc = some after) : QueueInv cfg after := by
  cases pc with
  | readCount =>
    cases ran
    split
    · exact inv.goto_compareNext pcAt rfl rfl (cfg.home_idle cpu) (inv.stages.idleAlive cpu)
    · exact inv.goto pcAt rfl nofun rfl trivial trivial
  | lockQueue =>
    obtain ⟨isFree, ⟨⟩⟩ := ite_none_right_eq_some.mp ran
    exact ⟨inv.stages.goto trivial, linked_of_heads inv.linked rfl,
      inv.sections_acquire isFree rfl (inv.proper isFree), inv.pi_keep pcAt rfl trivial⟩
  | scanRank remaining =>
    have proper := inv.ok pcAt rfl
    cases remaining with
    | nil =>
      cases ran
      exact inv.scanning pcAt rfl rfl rfl trivial proper trivial
    | cons rank remaining =>
      cases ran
      exact inv.scanning pcAt rfl rfl rfl trivial ⟨proper, fun _ mem => mem⟩ trivial
  | scan rank remaining rest =>
    have sectionOk := inv.ok pcAt rfl
    cases rest with
    | nil =>
      cases ran
      exact inv.scanning pcAt rfl rfl rfl trivial sectionOk.1 trivial
    | cons pos rest => exact inv.scan pcAt ran
  | scanSleeper rank remaining pos rest => exact inv.scanSleeper pcAt ran
  | keepPrev found => exact inv.keepPrev pcAt ran
  | rotate chosen rank => exact inv.rotate pcAt ran
  | rotateLink chosen rank => exact inv.rotateLink pcAt ran
  | setNext chosen =>
    cases ran
    obtain ⟨atHome, alive⟩ := inv.cpuOk pcAt
    have sectionOk := inv.ok pcAt rfl
    have stored := inv.storeStatus .running alive nofun
    have stageOk := stored.cpuOk pcAt
    exact stored.scanning pcAt rfl rfl rfl trivial sectionOk stageOk
  | setPrev chosen => exact inv.setPrev pcAt ran
  | setCurrent chosen => exact inv.setCurrent pcAt ran
  | _ => cases ran

end

variable {agent : Agent} {t : Thread} {atTail : Bool}

section

variable (inv : QueueInv cfg s)

include inv

theorem enqueueLink (pcAt : s.pc (.agent agent) = .enqueueLink t atTail rank)
    (ran : execEnqueue cfg s (.agent agent) (.enqueueLink t atTail rank) = some after) :
    QueueInv cfg after := by
  cases ran
  obtain ⟨proper, rfl⟩ := inv.ok pcAt rfl
  have entering := inv.agentOk pcAt
  have absent : ¬ (s.queue (.run, cfg.home t)).Linked t := by
    rw [inv.linked, entering]
    exact fun both => nomatch both.2
  refine ⟨?_, ?_, ?_, inv.pi_keep pcAt rfl trivial⟩
  · refine inv.stages.renode_agent ?_ ?_ trivial (inv.alive_of_entering entering)
    · rw [entering]
      rfl
    · intro ctx same
      cases entering.symm.trans same
      rfl
  · refine linked_of_insert inv.linked rfl ?_ fun other => ?_
    · exact fun _ staged => nomatch entering.symm.trans staged
    cases atTail with
    | true => exact Buckets.linked_addBack
    | false => exact Buckets.linked_addFront
  · refine inv.sections_release pcAt rfl rfl ?_
    cases atTail with
    | true => exact proper.addBack absent
    | false => exact proper.addFront absent

theorem execEnqueue (pcAt : s.pc (.agent agent) = pc)
    (ran : LaOS.Runqueue.execEnqueue cfg s (.agent agent) pc = some after) :
    QueueInv cfg after := by
  cases pc with
  | enqueue t atTail =>
    cases ran
    have entering := inv.agentOk pcAt
    have stored := inv.storeStatus .ready (inv.alive_of_entering entering) nofun
    exact stored.goto pcAt rfl nofun rfl trivial entering
  | enqueueLock t atTail =>
    obtain ⟨isFree, ⟨⟩⟩ := ite_none_right_eq_some.mp ran
    have entering := inv.agentOk pcAt
    exact ⟨inv.stages.goto entering, linked_of_heads inv.linked rfl,
      inv.sections_acquire isFree rfl ⟨inv.proper isFree, rfl⟩, inv.pi_keep pcAt rfl trivial⟩
  | enqueueLink t atTail rank => exact inv.enqueueLink pcAt ran
  | _ => cases ran

end

end QueueInv

end LaOS.Runqueue
