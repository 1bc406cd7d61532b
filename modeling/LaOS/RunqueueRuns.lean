import LaOS.RunqueuePriority

/-!
# Every orderly step keeps the invariant of the queues

The steps of the sections, reaping, exit and the calls, and from them the
invariant in every state that is reached by orderly steps.
-/

namespace LaOS.Runqueue

open Option Function
open Sched (Priority RunQueue Status)

variable {Cpu Agent Thread : Type} [DecidableEq Thread] {cfg : Config Cpu Thread}
  {s after : State Cpu Agent Thread}

theorem queueInv_bootState {boot : Cpu → Thread} (homed : ∀ cpu, cfg.home (boot cpu) = cpu)
    (priority : Thread → Priority) :
    QueueInv cfg (bootState boot priority : State Cpu Agent Thread) where
  stages := by
    refine ⟨homed, nofun, ?_, nofun⟩
    intro ctx
    cases ctx with
    | cpu cpu => exact nofun
    | agent agent => trivial
  linked key t := iff_of_false (fun linked => nomatch linked) fun both => nomatch both.2
  sections := by
    refine ⟨fun key _ => Buckets.proper_empty, ?_, ?_⟩
    all_goals
      intro ctx key pc inside
      cases ctx with
      | cpu cpu | agent agent => cases inside
  pi := ⟨fun _ _ => trivial, nofun, nofun⟩

variable [DecidableEq Cpu] [DecidableEq Agent]

/-- The flow of control that an action lets move on. -/
def Action.mover : Action Cpu Agent Thread → Option (Context Cpu Agent)
  | .exec ctx => some ctx
  | _ => none

/-- The step finds the node of a thread whose priority it changes in its place. -/
def Orderly (cfg : Config Cpu Thread) (s : State Cpu Agent Thread)
    (action : Action Cpu Agent Thread) : Prop :=
  ∀ ctx ∈ action.mover, Settled cfg s (s.pc ctx)

instance [Fintype Cpu] [Fintype Agent] (cfg : Config Cpu Thread)
    (s : State Cpu Agent Thread) (action : Action Cpu Agent Thread) :
    Decidable (Orderly cfg s action) :=
  inferInstanceAs (Decidable (∀ ctx ∈ action.mover, Settled cfg s (s.pc ctx)))

namespace QueueInv

section

variable (inv : QueueInv cfg s)

include inv

theorem exec {ctx : Context Cpu Agent} (settled : Settled cfg s (s.pc ctx))
    (ran : LaOS.Runqueue.exec cfg s ctx = some after) : QueueInv cfg after := by
  cases ctx with
  | cpu cpu =>
    rcases or_eq_some_iff.mp ran with inZombie | ⟨_, inPick⟩
    · exact inv.execZombie rfl inZombie
    · exact inv.execPick rfl inPick
  | agent agent =>
    rcases or_eq_some_iff.mp ran with inEnqueue | ⟨_, inPriority⟩
    · exact inv.execEnqueue rfl inEnqueue
    · exact inv.execPriority rfl settled inPriority

variable {cpu : Cpu} {t : Thread}

theorem reaped {rank : Priority}
    (pcAt : s.pc (.cpu cpu) = .idle) (isFree : (s.queues (.zombie, cpu)).lock = none)
    (currentAlive : ¬ s.dead (s.current cpu))
    (mem : t ∈ (s.queue (.zombie, cpu)).heads rank) :
    QueueInv cfg (((s.listDel t).storeQueue (.zombie, cpu)
      (((s.queue (.zombie, cpu)).erase t).clearIfEmpty rank).subCount none).storeNode
        t .reaped) := by
  have proper := inv.proper isFree
  obtain ⟨rfl, queued⟩ := inv.home_of_member mem
  have ranked := proper.placed rank t mem
  subst ranked
  rw [inv.listDel queued]
  refine ⟨?_, ?_, ?_, inv.pi⟩
  · have pcEq : update s.pc (.cpu (cfg.home t)) .idle = s.pc := by
      rw [← pcAt]
      exact update_eq_self _ s.pc
    change Stages cfg s.dead (update s.node t .reaped) s.current
      s.pc
    rw [← pcEq]
    refine inv.stages.renode_cpu rfl ?_ (fun isDead => absurd isDead currentAlive) fun _ => rfl
    intro ctx entering
    cases queued.symm.trans entering
  · exact linked_of_remove inv.linked rfl proper queued (Buckets.heads_clearIfEmpty _ _) nofun
  · exact inv.sections.atomic isFree (proper.remove ⟨_, mem⟩)

theorem reapZombie (pcAt : s.pc (.cpu cpu) = .idle)
    (currentAlive : ¬ s.dead (s.current cpu))
    (ran : LaOS.Runqueue.reapZombie s cpu = some after) : QueueInv cfg after := by
  obtain ⟨isFree, ran⟩ := ite_none_left_eq_some.mp ran
  split at ran
  · cases ran
    exact inv
  split at ran
  · cases ran
    exact ⟨inv.stages, inv.linked, inv.sections, inv.pi⟩
  split at ran <;> cases ran
  next => exact ⟨inv.stages, inv.linked, inv.sections, inv.pi⟩
  next last =>
    exact inv.reaped pcAt (not_not.mp isFree) currentAlive (List.mem_of_getLast? last)

theorem exited (pcAt : s.pc (.cpu cpu) = .idle) (notIdle : s.current cpu ≠ cfg.idle cpu)
    (queued : s.node (s.current cpu) = .queued .run) :
    QueueInv cfg (s.storeStatus (s.current cpu) .zombie) := by
  have homed := inv.stages.homed cpu
  have deadElsewhere : ∀ t, t ≠ s.current cpu →
      ((s.storeStatus (s.current cpu) .zombie).dead t ↔ s.dead t) := by
    intro t ne
    have same : (s.storeStatus (s.current cpu) .zombie).status t =
        s.status t := update_of_ne ne ..
    simp only [State.dead, same]
  have pcEq : update s.pc (.cpu cpu) .idle = s.pc := by
    rw [← pcAt]
    exact update_eq_self _ s.pc
  refine ⟨?_, inv.linked, inv.sections, inv.pi⟩
  change Stages cfg _ s.node s.current s.pc
  rw [← pcEq]
  refine inv.stages.update (fun _ => queued) ?_ ?_ ?_ (fun _ _ _ => rfl) (fun _ _ _ _ => rfl)
  · intro other isDead
    have ne : cfg.idle other ≠ s.current cpu := by
      intro same
      have cpuEq : other = cpu := by
        rw [← cfg.home_idle other, same, homed]
      exact notIdle (cpuEq ▸ same.symm)
    exact inv.stages.idleAlive other ((deadElsewhere _ ne).mp isDead)
  · intro t isDead
    by_cases same : t = s.current cpu
    · rw [same, queued]
      rfl
    · exact inv.stages.mortal t ((deadElsewhere t same).mp isDead)
  · intro t elsewhere
    refine deadElsewhere t ?_
    rintro rfl
    exact elsewhere (congrArg Context.cpu homed)

variable {action : Action Cpu Agent Thread}

theorem execThread (pcAt : s.pc (.cpu cpu) = .idle)
    (ran : LaOS.Runqueue.execThread cfg s cpu action = some after) :
    QueueInv cfg after := by
  cases action with
  | callSchedule _ =>
    cases ran
    have stageOk := inv.cpuOk pcAt
    exact inv.goto pcAt rfl nofun rfl trivial stageOk
  | block _ =>
    obtain ⟨alive, ⟨⟩⟩ := ite_none_right_eq_some.mp ran
    exact inv.storeStatus .blocked alive.2 nofun
  | sleep _ duration =>
    obtain ⟨alive, ⟨⟩⟩ := ite_none_right_eq_some.mp ran
    have stored := inv.storeStatus .sleeping alive.2 nofun
    exact ⟨stored.stages, stored.linked, stored.sections, stored.pi⟩
  | exit _ =>
    obtain ⟨living, ⟨⟩⟩ := ite_none_right_eq_some.mp ran
    exact inv.exited pcAt living.1 living.2.2
  | reap _ =>
    obtain ⟨isIdle, ran⟩ := ite_none_right_eq_some.mp ran
    refine inv.reapZombie pcAt ?_ ran
    rw [isIdle]
    exact inv.stages.idleAlive cpu
  | _ => cases ran

theorem callEnqueue {agent : Agent} {atTail : Bool}
    (pcAt : s.pc (.agent agent) = .idle) (fresh : s.node t = .fresh) :
    QueueInv cfg ((s.storeNode t (.entering (.agent agent))).goto (.agent agent)
      (.enqueue t atTail)) := by
  have alive : ¬ s.dead t := by
    intro isDead
    have mortal := inv.stages.mortal t isDead
    rw [fresh] at mortal
    cases mortal
  refine ⟨?_, ?_, inv.sections_keep pcAt rfl nofun, inv.pi_keep pcAt rfl trivial⟩
  · refine inv.stages.renode_agent ?_ ?_ (update_self ..) alive
    · rw [fresh]
      rfl
    · intro ctx entering
      cases fresh.symm.trans entering
  intro key other
  change (s.queue key).Linked other ↔ cfg.home other = key.2 ∧
    update s.node t _ other = _
  by_cases same : other = t
  · subst same
    rw [inv.linked, update_self, fresh]
    exact iff_of_false (fun both => nomatch both.2) fun both => nomatch both.2
  · rw [update_of_ne same, inv.linked]

theorem step (orderly : Orderly cfg s action)
    (ran : LaOS.Runqueue.step cfg s action = some after) : QueueInv cfg after := by
  unfold LaOS.Runqueue.step at ran
  split at ran
  · cases ran
  cases action with
  | exec ctx => exact inv.exec (orderly ctx rfl) ran
  | callEnqueue agent t atTail =>
    obtain ⟨enabled, ⟨⟩⟩ := ite_none_right_eq_some.mp ran
    exact inv.callEnqueue enabled.1 enabled.2.1
  | callSetPriority agent t priority =>
    obtain ⟨pcAt, ran⟩ := ite_none_right_eq_some.mp ran
    split at ran <;> cases ran
    · exact inv
    · exact inv.goto pcAt rfl (by rintro _ ⟨⟩) rfl trivial trivial
  | callUpdateDonation agent t old new =>
    obtain ⟨pcAt, ⟨⟩⟩ := ite_none_right_eq_some.mp ran
    exact inv.goto pcAt rfl (by rintro _ ⟨⟩) rfl trivial trivial
  | wake t =>
    obtain ⟨blocked, ⟨⟩⟩ := ite_none_right_eq_some.mp ran
    refine inv.storeStatus .ready ?_ (by rintro ⟨⟩)
    intro isDead
    cases blocked.symm.trans isDead
  | tick =>
    cases ran
    exact ⟨inv.stages, inv.linked, inv.sections, inv.pi⟩
  | callSchedule cpu | block cpu | sleep cpu duration | exit cpu | reap cpu =>
    obtain ⟨pcAt, ran⟩ := ite_none_right_eq_some.mp ran
    exact inv.execThread pcAt ran

end

end QueueInv

theorem queueInv_of_reachable (reached : (system cfg).ReachableWhere (Orderly cfg) s) :
    QueueInv cfg s := by
  refine reached.invariant ?_ fun _ _ _ _ inv orderly ran => inv.step orderly ran
  rintro first ⟨boot, priority, homed, _, rfl⟩
  exact queueInv_bootState homed priority

end LaOS.Runqueue
