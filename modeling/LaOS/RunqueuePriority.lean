import LaOS.RunqueuePreservation

/-!
# Priority changes keep the invariant

`thread_apply_effective_priority` moves the node of the thread between lists of its run
queue or stores the priority alone.  Nothing in the code guarantees that the node is
where the choice between the two needs it.
-/

namespace LaOS.Runqueue

open Function
open Sched (Priority RunQueue Status)

variable {Cpu Agent Thread : Type} [DecidableEq Thread]
  {cfg : Config Cpu Thread} {s : State Cpu Agent Thread} {ctx : Context Cpu Agent}
  {pc next : Pc Thread} {key : Kind × Cpu} {t : Thread} {rank : Priority} {agent : Agent}

def Pc.storing : Pc Thread → Option Thread
  | .store t _ | .storeLocked t _ => some t
  | _ => none

def Pc.moving : Pc Thread → Option Thread
  | .move t _ _ => some t
  | _ => none

/-- A position may store the priority of a thread whose node is on no list and in no section,
and move a node on the run queue. -/
def Settled (cfg : Config Cpu Thread) (s : State Cpu Agent Thread) (pc : Pc Thread) : Prop :=
  (∀ t ∈ pc.storing, (s.node t).isLinked = false ∧
    ∀ other, (s.pc other).inHand ≠ some t) ∧
  ∀ t ∈ pc.moving, (s.queue (.run, cfg.home t)).Linked t

instance [Fintype Cpu] [Fintype Agent] (cfg : Config Cpu Thread)
    (s : State Cpu Agent Thread) (pc : Pc Thread) : Decidable (Settled cfg s pc) :=
  inferInstanceAs (Decidable ((∀ t ∈ pc.storing, _ ∧ ∀ other, (s.pc other).inHand ≠ _) ∧
    ∀ t ∈ pc.moving, (s.queue (.run, cfg.home t)).Linked t))

namespace QueueInv

theorem unlinked_of_inHand (inv : QueueInv cfg s) (pcAt : s.pc ctx = pc)
    (inside : cfg.section ctx pc = some key) (inHand : pc.inHand = some t) :
    (s.node t).isLinked = false := by
  cases ctx with
  | cpu cpu =>
    have stageOk := inv.cpuOk pcAt
    cases pc with
    | unlinkClear prev | rotateLink chosen rank =>
      cases inHand
      rw [stageOk.2.2]
      rfl
    | enqueueLink => cases inside
    | _ => cases inHand
  | agent agent =>
    have stageOk := inv.agentOk pcAt
    cases pc with
    | enqueueLink other atTail rank =>
      cases inHand
      rw [show s.node t = _ from stageOk]
      rfl
    | unlinkClear | rotateLink => cases inside
    | _ => cases inHand

theorem not_linked_of_unlinked (inv : QueueInv cfg s)
    (unlinked : (s.node t).isLinked = false) (key : Kind × Cpu) :
    ¬ (s.queue key).Linked t := by
  rw [inv.linked]
  rintro ⟨_, queued⟩
  rw [queued] at unlinked
  cases unlinked

theorem sections_storePriority (inv : QueueInv cfg s)
    (unlinked : (s.node t).isLinked = false)
    (unhandled : ∀ other, (s.pc other).inHand ≠ some t) (rank : Priority) :
    SectionsOk cfg (update s.priority t rank) s.pc s.queues := by
  have linkedSame : ∀ key other, (s.queue key).Linked other →
      update s.priority t rank other = s.priority other := by
    intro key other linked
    refine update_of_ne ?_ ..
    rintro rfl
    exact inv.not_linked_of_unlinked unlinked key linked
  refine inv.sections.transfer (fun _ => rfl) ?_ ?_
  · exact fun key proper => Buckets.Proper.congr proper (linkedSame key)
  intro ctx key pc inside sectionOk
  refine sectionOk.reprioritize (linkedSame key) ?_
  intro other inHand
  refine update_of_ne ?_ ..
  rintro rfl
  rw [← (position_eq_some inside).1] at inHand
  exact unhandled ctx inHand

variable [DecidableEq Cpu] [DecidableEq Agent] {after : State Cpu Agent Thread}

section

variable (inv : QueueInv cfg s)

include inv

theorem pi_storePriority (pcAt : s.pc ctx = pc)
    (inside : pc.piSection = some t) (rank : Priority) : Guarded id (fun _ _ => True)
      (fun _ _ _ pc => OldOk (update s.priority t rank) pc)
      (piPosition (update s.pc ctx (.piUnlock t))) s.piLock := by
  have stepped : Guarded id (fun _ _ => True) (fun _ _ _ pc => OldOk s.priority pc)
      (piPosition (update s.pc ctx (.piUnlock t))) s.piLock :=
    inv.pi_keep pcAt inside.symm trivial
  have selfAt : piPosition (update s.pc ctx (.piUnlock t)) ctx =
      some (t, .piUnlock t) := by
    simp [piPosition, Pc.piSection]
  refine stepped.transfer (fun _ => rfl) (fun _ _ => trivial) ?_
  intro other key at' otherAt oldOk
  obtain ⟨atEq, atKey⟩ := piPosition_eq_some otherAt
  have elsewhere : at' ≠ .piUnlock t → key ≠ t := by
    rintro ne rfl
    have isSelf := stepped.exclusive selfAt otherAt
    subst isSelf
    rw [update_self] at atEq
    exact ne atEq.symm
  cases at' with
  | lockRun subject old _ | move subject old _ =>
    cases atKey
    exact oldOk.trans (update_of_ne (elsewhere (by rintro ⟨⟩)) ..).symm
  | _ => trivial

theorem piLock {request : Request} (pcAt : s.pc (.agent agent) = .piLock t request)
    (ran : execPriority cfg s (.agent agent) (.piLock t request) = some after) :
    QueueInv cfg after := by
  obtain ⟨isFree, ⟨⟩⟩ := Option.ite_none_right_eq_some.mp ran
  refine ⟨inv.stages.goto trivial, inv.linked, inv.sections_keep pcAt rfl nofun, ?_⟩
  change Guarded _ _ _ (piPosition (update s.pc _ _))
    (update s.piLock t _)
  rw [piPosition_update]
  exact inv.pi.acquire isFree rfl trivial

theorem piUnlock (pcAt : s.pc (.agent agent) = .piUnlock t)
    (ran : execPriority cfg s (.agent agent) (.piUnlock t) = some after) :
    QueueInv cfg after := by
  cases ran
  refine ⟨inv.stages.goto trivial, inv.linked, inv.sections_keep pcAt rfl nofun, ?_⟩
  change Guarded _ _ _ (piPosition (update s.pc _ _))
    (update s.piLock t _)
  have selfAt : piPosition s.pc (.agent agent) = some (t, .piUnlock t) := by
    rw [piPosition, pcAt]
    rfl
  rw [piPosition_update]
  exact inv.pi.release selfAt trivial

theorem store (pcAt : s.pc (.agent agent) = .store t rank)
    (settled : Settled cfg s (.store t rank))
    (ran : execPriority cfg s (.agent agent) (.store t rank) = some after) :
    QueueInv cfg after := by
  cases ran
  obtain ⟨unlinked, unhandled⟩ := settled.1 t rfl
  refine ⟨inv.stages.goto trivial, inv.linked, ?_, inv.pi_storePriority pcAt rfl rank⟩
  have stored := inv.sections_storePriority unlinked unhandled rank
  change Guarded _ _ _ (position cfg (update s.pc _ _)) s.queues
  rw [position_update]
  exact stored.move_outside (position_of cfg pcAt)

variable {old : Priority}

theorem lockRun (pcAt : s.pc (.agent agent) = .lockRun t old rank)
    (ran : execPriority cfg s (.agent agent) (.lockRun t old rank) = some after) :
    QueueInv cfg after := by
  obtain ⟨isFree, ⟨⟩⟩ := Option.ite_none_right_eq_some.mp ran
  have proper := inv.proper isFree
  have selfAt : piPosition s.pc (.agent agent) = some (t, .lockRun t old rank) := by
    rw [piPosition, pcAt]
    rfl
  have oldOk : old = s.priority t := inv.pi.inside _ _ _ selfAt
  split
  · exact ⟨inv.stages.goto trivial, linked_of_heads inv.linked rfl,
      inv.sections_acquire isFree rfl proper, inv.pi_keep pcAt rfl oldOk⟩
  · exact ⟨inv.stages.goto trivial, linked_of_heads inv.linked rfl,
      inv.sections_acquire isFree rfl proper, inv.pi_keep pcAt rfl trivial⟩

theorem storeLocked (pcAt : s.pc (.agent agent) = .storeLocked t rank)
    (settled : Settled cfg s (.storeLocked t rank))
    (ran : execPriority cfg s (.agent agent) (.storeLocked t rank) = some after) :
    QueueInv cfg after := by
  cases ran
  obtain ⟨unlinked, unhandled⟩ := settled.1 t rfl
  refine ⟨inv.stages.goto trivial, linked_of_heads inv.linked rfl, ?_,
    inv.pi_storePriority pcAt rfl rank⟩
  have stored := inv.sections_storePriority unlinked unhandled rank
  have selfAt : position cfg s.pc (.agent agent) =
    some ((.run, cfg.home t), .storeLocked t rank) := position_of cfg pcAt
  change Guarded _ _ _ (position cfg (update s.pc _ _)) (update _ _ _)
  rw [position_update]
  exact stored.release selfAt (stored.inside _ _ _ selfAt)

theorem sections_move {queue : RunQueue Thread}
    (pcAt : s.pc (.agent agent) = .move t old rank)
    (queued : s.node t = .queued .run)
    (moved : queue.Proper (update s.priority t rank)) :
    SectionsOk cfg (update s.priority t rank)
      (update s.pc (.agent agent) (.piUnlock t))
      (update s.queues (.run, cfg.home t) ⟨queue, none⟩) := by
  have selfAt := position_of cfg pcAt
  have linkedSame : ∀ key other, key ≠ (.run, cfg.home t) →
      (s.queue key).Linked other →
      update s.priority t rank other = s.priority other := by
    intro key other elsewhere linked
    refine update_of_ne ?_ ..
    rintro rfl
    obtain ⟨atHome, staged⟩ := (inv.linked key other).mp linked
    have kindEq := Node.queued.inj (queued.symm.trans staged)
    exact elsewhere (Prod.ext kindEq.symm atHome.symm)
  have idem : update s.queues (.run, cfg.home t) ⟨queue, none⟩ =
      update (update s.queues (.run, cfg.home t)
        ⟨queue, (s.queues (.run, cfg.home t)).lock⟩) (.run, cfg.home t)
          ⟨queue, none⟩ := (update_idem ..).symm
  rw [SectionsOk, position_update, idem]
  refine Guarded.release (inv.sections.transfer ?_ ?_ ?_) selfAt moved
  · intro key
    by_cases same : key = (.run, cfg.home t)
    · subst same
      rw [update_self]
    · rw [update_of_ne same]
  · intro key proper
    by_cases same : key = (.run, cfg.home t)
    · subst same
      rw [update_self]
      exact moved
    · rw [update_of_ne same]
      exact Buckets.Proper.congr proper fun other => linkedSame key other same
  · intro ctx key at' otherAt sectionOk
    by_cases same : key = (.run, cfg.home t)
    · subst same
      rw [update_self]
      have isSelf := inv.sections.exclusive selfAt otherAt
      subst isSelf
      cases selfAt.symm.trans otherAt
      exact moved
    rw [update_of_ne same]
    refine sectionOk.reprioritize (fun other => linkedSame key other same) ?_
    intro other inHand
    refine update_of_ne ?_ ..
    rintro rfl
    obtain ⟨atEq, atKey⟩ := position_eq_some otherAt
    have unlinked := inv.unlinked_of_inHand atEq atKey inHand
    rw [queued] at unlinked
    cases unlinked

theorem move (pcAt : s.pc (.agent agent) = .move t old rank)
    (settled : Settled cfg s (.move t old rank))
    (ran : execPriority cfg s (.agent agent) (.move t old rank) = some after) :
    QueueInv cfg after := by
  simp only [execPriority] at ran
  split at ran <;> cases ran
  swap
  · exact ⟨inv.stages, inv.linked, inv.sections, inv.pi⟩
  have linked := settled.2 t rfl
  have proper := inv.ok pcAt rfl
  obtain ⟨_, queued⟩ := (inv.linked _ _).mp linked
  have piAt : piPosition s.pc (.agent agent) = some (t, .move t old rank) := by
    rw [piPosition, pcAt]
    rfl
  have oldOk := inv.pi.inside _ _ _ piAt
  subst oldOk
  have moved := proper.move linked fun other ne =>
    update_of_ne ne rank s.priority
  rw [update_self] at moved
  have nodeEq : update s.node t (.queued .run) = s.node := by
    rw [← queued]
    exact update_eq_self t s.node
  rw [inv.listDel queued]
  refine ⟨?_, ?_, ?_, inv.pi_storePriority pcAt rfl rank⟩
  · change Stages cfg s.dead (update s.node _ _) s.current _
    rw [nodeEq]
    exact inv.stages.goto trivial
  · refine linked_of_insert inv.linked rfl ?_ fun other => ?_
    · exact fun _ staged => Node.queued.inj (staged.symm.trans queued)
    refine Buckets.linked_addBack.trans (or_congr_right' fun ne => ?_)
    exact Buckets.linked_clearIfEmpty.trans (Buckets.linked_erase_of_ne ne)
  · exact inv.sections_move pcAt queued moved

theorem execPriority (pcAt : s.pc (.agent agent) = pc) (settled : Settled cfg s pc)
    (ran : LaOS.Runqueue.execPriority cfg s (.agent agent) pc = some after) :
    QueueInv cfg after := by
  cases pc with
  | testBlocked t rank =>
    cases ran
    split <;> exact inv.goto pcAt rfl (by rintro _ ⟨⟩) rfl trivial trivial
  | piLock t request => exact inv.piLock pcAt ran
  | update t request =>
    have based : ∀ (basePriority : Thread → Priority) (piDonations : Thread → Priority → Nat),
        QueueInv cfg { s with basePriority, piDonations } :=
      fun _ _ => ⟨inv.stages, inv.linked, inv.sections, inv.pi⟩
    cases request with
    | setBase rank =>
      cases ran
      exact (based _ s.piDonations).goto pcAt rfl (by rintro _ ⟨⟩) rfl trivial trivial
    | donate old new =>
      simp only [LaOS.Runqueue.execPriority] at ran
      split at ran <;> cases ran
      next => exact ⟨inv.stages, inv.linked, inv.sections, inv.pi⟩
      next donations _ =>
        exact (based s.basePriority _).goto pcAt rfl (by rintro _ ⟨⟩) rfl trivial trivial
  | apply t rank =>
    cases ran
    split
    · exact inv.goto pcAt rfl (by rintro _ ⟨⟩) rfl trivial trivial
    · split
      · exact inv.goto pcAt rfl (by rintro _ ⟨⟩) rfl rfl trivial
      · exact inv.goto pcAt rfl (by rintro _ ⟨⟩) rfl trivial trivial
  | store t rank => exact inv.store pcAt settled ran
  | lockRun t old rank => exact inv.lockRun pcAt ran
  | move t old rank => exact inv.move pcAt settled ran
  | storeLocked t rank => exact inv.storeLocked pcAt settled ran
  | piUnlock t => exact inv.piUnlock pcAt ran
  | _ => cases ran

end

end QueueInv

end LaOS.Runqueue
