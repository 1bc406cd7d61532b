import LaOS.RunqueueRuns

/-!
# The representation of the queues, and exited threads

While priority changes find the node of the thread where they expect it, no thread that
has exited comes back to a run queue.
-/

namespace LaOS.Runqueue

open Option Function
open Sched (Priority RunQueue Status)

variable {Cpu Agent Thread : Type} [DecidableEq Thread] {cfg : Config Cpu Thread}
  {s after : State Cpu Agent Thread}

/-- Queues whose lock is free are proper: threads are on the list of their priority, and bitmap
and count are exact. No thread is linked twice. -/
structure Represented (s : State Cpu Agent Thread) : Prop where
  proper : ∀ key, (s.queues key).lock = none → (s.queue key).Proper s.priority
  unique : ∀ key other t, (s.queue key).Linked t →
    (s.queue other).Linked t → key = other

theorem QueueInv.represented (inv : QueueInv cfg s) : Represented s where
  proper _ isFree := inv.proper isFree
  unique key other t here there := by
    obtain ⟨atKey, inKey⟩ := (inv.linked key t).mp here
    obtain ⟨atOther, inOther⟩ := (inv.linked other t).mp there
    have kindEq := Node.queued.inj (inKey.symm.trans inOther)
    exact Prod.ext kindEq (atKey.symm.trans atOther)

def Gone (status : Thread → Status) (node : Thread → Node Cpu Agent) (t : Thread) : Prop :=
  status t = .zombie ∧ (node t).departed = true

namespace Gone

variable {status : Thread → Status} {node : Thread → Node Cpu Agent} {t subject : Thread}

theorem storeStatus (gone : Gone status node t) (value : Status)
    (ne : status subject ≠ .zombie) : Gone (update status subject value) node t := by
  refine ⟨?_, gone.2⟩
  rw [update_of_ne]
  · exact gone.1
  · rintro rfl
    exact ne gone.1

theorem storeNode (gone : Gone status node t) {stage : Node Cpu Agent}
    (stays : (node subject).departed = true → stage.departed = true) :
    Gone status (update node subject stage) t := by
  refine ⟨gone.1, ?_⟩
  by_cases same : t = subject
  · subst same
    rw [update_self]
    exact stays gone.2
  · rw [update_of_ne same]
    exact gone.2

end Gone

theorem QueueInv.gone (inv : QueueInv cfg s) {t : Thread}
    (exited : s.status t = .zombie)
    (unlinked : ∀ cpu, ¬ (s.queue (.run, cpu)).Linked t) :
    Gone s.status s.node t := by
  refine ⟨exited, ?_⟩
  have mortal := inv.stages.mortal t exited
  cases staged : s.node t with
  | queued kind =>
    cases kind with
    | run => exact absurd ((inv.linked (.run, _) t).mpr ⟨rfl, staged⟩) (unlinked _)
    | zombie => rfl
  | leaving | reaped => rfl
  | fresh | entering _ | rotating =>
    rw [staged] at mortal
    cases mortal

theorem QueueInv.not_linked_of_gone (inv : QueueInv cfg s) {t : Thread}
    (gone : Gone s.status s.node t) (cpu : Cpu) :
    ¬ (s.queue (.run, cpu)).Linked t := by
  intro linked
  have departed := gone.2
  rw [((inv.linked _ _).mp linked).2] at departed
  cases departed

namespace Gone

variable [DecidableEq Cpu] {t : Thread} {cpu : Cpu}

theorem reapZombie (gone : Gone s.status s.node t)
    (ran : LaOS.Runqueue.reapZombie s cpu = some after) :
    Gone after.status after.node t := by
  obtain ⟨-, ran⟩ := ite_none_left_eq_some.mp ran
  split at ran
  · cases ran
    exact gone
  split at ran
  · cases ran
    exact gone
  · split at ran <;> cases ran
    · exact gone
    · exact gone.storeNode fun _ => rfl

variable [DecidableEq Agent]

section

variable (gone : Gone s.status s.node t)

include gone

variable {pc : Pc Thread}

theorem execZombie (ran : LaOS.Runqueue.execZombie cfg s cpu pc = some after) :
    Gone after.status after.node t := by
  cases pc with
  | unlink prev | zombieLink prev =>
    obtain ⟨-, ⟨⟩⟩ := ite_none_right_eq_some.mp ran
    exact gone.storeNode fun _ => rfl
  | zombieTest | unlinkClear _ | zombieFlag _ | checkZombies =>
    cases ran
    exact gone
  | _ => cases ran

theorem execPick (inv : QueueInv cfg s) (pcAt : s.pc (.cpu cpu) = pc)
    (ran : LaOS.Runqueue.execPick cfg s cpu pc = some after) :
    Gone after.status after.node t := by
  cases pc with
  | lockQueue =>
    obtain ⟨-, ⟨⟩⟩ := ite_none_right_eq_some.mp ran
    exact gone
  | scanRank remaining =>
    cases remaining with
    | nil | cons =>
      cases ran
      exact gone
  | scan _ _ rest =>
    cases rest with
    | nil | cons =>
      cases ran
      exact gone
  | rotate chosen rank =>
    cases ran
    obtain ⟨_, mem⟩ := inv.ok pcAt rfl
    refine gone.storeNode fun departed => ?_
    rw [(inv.home_of_member mem).2] at departed
    cases departed
  | rotateLink chosen rank =>
    cases ran
    refine gone.storeNode fun departed => ?_
    rw [(inv.cpuOk pcAt).2.2] at departed
    cases departed
  | setNext chosen =>
    cases ran
    exact gone.storeStatus .running (inv.cpuOk pcAt).2
  | setPrev chosen =>
    cases ran
    split
    next wasRunning =>
      refine gone.storeStatus .ready fun isDead => ?_
      cases wasRunning.2.symm.trans isDead
    next => exact gone
  | readCount | scanSleeper _ _ _ _ | keepPrev _ | setCurrent _ =>
    cases ran
    exact gone
  | _ => cases ran

theorem execEnqueue {agent : Agent} (inv : QueueInv cfg s)
    (pcAt : s.pc (.agent agent) = pc)
    (ran : LaOS.Runqueue.execEnqueue cfg s (.agent agent) pc = some after) :
    Gone after.status after.node t := by
  have stageOk := inv.agentOk pcAt
  cases pc with
  | enqueue subject atTail =>
    cases ran
    exact gone.storeStatus .ready (inv.alive_of_entering stageOk)
  | enqueueLock subject atTail =>
    obtain ⟨-, ⟨⟩⟩ := ite_none_right_eq_some.mp ran
    exact gone
  | enqueueLink subject atTail rank =>
    cases ran
    refine gone.storeNode fun departed => ?_
    rw [show s.node subject = _ from stageOk] at departed
    cases departed
  | _ => cases ran

variable {ctx : Context Cpu Agent}

theorem execPriority (inv : QueueInv cfg s) (settled : Settled cfg s pc)
    (ran : LaOS.Runqueue.execPriority cfg s ctx pc = some after) :
    Gone after.status after.node t := by
  cases pc with
  | piLock subject request | lockRun subject old rank =>
    obtain ⟨-, ⟨⟩⟩ := ite_none_right_eq_some.mp ran
    exact gone
  | update subject request =>
    cases request with
    | setBase rank =>
      cases ran
      exact gone
    | donate old new =>
      simp only [LaOS.Runqueue.execPriority] at ran
      split at ran <;> cases ran <;> exact gone
  | move subject old rank =>
    simp only [LaOS.Runqueue.execPriority] at ran
    split at ran <;> cases ran
    · refine gone.storeNode fun departed => ?_
      rw [((inv.linked _ _).mp (settled.2 subject rfl)).2] at departed
      cases departed
    · exact gone
  | testBlocked _ _ | apply _ _ | store _ _ | storeLocked _ _ | piUnlock _ =>
    cases ran
    exact gone
  | _ => cases ran

theorem exec (inv : QueueInv cfg s) (settled : Settled cfg s (s.pc ctx))
    (ran : LaOS.Runqueue.exec cfg s ctx = some after) :
    Gone after.status after.node t := by
  cases ctx with
  | cpu cpu =>
    rcases or_eq_some_iff.mp ran with inZombie | ⟨_, inPick⟩
    · exact gone.execZombie inZombie
    · exact gone.execPick inv rfl inPick
  | agent agent =>
    rcases or_eq_some_iff.mp ran with inEnqueue | ⟨_, inPriority⟩
    · exact gone.execEnqueue inv rfl inEnqueue
    · exact gone.execPriority inv settled inPriority

variable {action : Action Cpu Agent Thread}

theorem execThread (ran : LaOS.Runqueue.execThread cfg s cpu action = some after) :
    Gone after.status after.node t := by
  cases action with
  | callSchedule _ =>
    cases ran
    exact gone
  | block _ | sleep _ _ =>
    obtain ⟨alive, ⟨⟩⟩ := ite_none_right_eq_some.mp ran
    exact gone.storeStatus _ alive.2
  | exit _ =>
    obtain ⟨alive, ⟨⟩⟩ := ite_none_right_eq_some.mp ran
    exact gone.storeStatus _ alive.2.1
  | reap _ =>
    obtain ⟨-, ran⟩ := ite_none_right_eq_some.mp ran
    exact gone.reapZombie ran
  | _ => cases ran

theorem step (inv : QueueInv cfg s) (orderly : Orderly cfg s action)
    (ran : LaOS.Runqueue.step cfg s action = some after) :
    Gone after.status after.node t := by
  unfold LaOS.Runqueue.step at ran
  split at ran
  · cases ran
  cases action with
  | exec ctx => exact gone.exec inv (orderly ctx rfl) ran
  | callEnqueue agent subject atTail =>
    obtain ⟨enabled, ⟨⟩⟩ := ite_none_right_eq_some.mp ran
    refine gone.storeNode fun departed => ?_
    rw [enabled.2.1] at departed
    cases departed
  | callSetPriority agent subject priority =>
    obtain ⟨-, ran⟩ := ite_none_right_eq_some.mp ran
    split at ran <;> cases ran <;> exact gone
  | callUpdateDonation agent subject old new =>
    obtain ⟨-, ⟨⟩⟩ := ite_none_right_eq_some.mp ran
    exact gone
  | wake subject =>
    obtain ⟨blocked, ⟨⟩⟩ := ite_none_right_eq_some.mp ran
    refine gone.storeStatus .ready fun isDead => ?_
    cases blocked.symm.trans isDead
  | tick =>
    cases ran
    exact gone
  | callSchedule cpu | block cpu | sleep cpu duration | exit cpu | reap cpu =>
    obtain ⟨-, ran⟩ := ite_none_right_eq_some.mp ran
    exact gone.execThread ran

end

end Gone

variable [DecidableEq Cpu] [DecidableEq Agent]

/-- While priority changes find the node in its place, the queues are represented, and a thread
that has exited is never linked into a run queue again. -/
theorem runqueues_represented {length : Nat}
    (execution : (system cfg : TransitionSystem (State Cpu Agent Thread) _).Execution length)
    (orderly : ∀ i < length,
      Orderly cfg (execution.states i) (execution.actions i)) :
    (∀ i ≤ length, Represented (execution.states i)) ∧
      ∀ first last, first ≤ last → last ≤ length → ∀ t,
        (execution.states first).status t = .zombie →
        (∀ cpu, ¬ ((execution.states first).queue (.run, cpu)).Linked t) →
        ∀ cpu, ¬ ((execution.states last).queue (.run, cpu)).Linked t := by
  have inv : ∀ i ≤ length, QueueInv cfg (execution.states i) := fun i indexLe =>
    queueInv_of_reachable (execution.reachableWhere orderly i indexLe)
  refine ⟨fun i indexLe => (inv i indexLe).represented, ?_⟩
  intro first last firstLe lastLe t exited unlinked
  refine (inv last lastLe).not_linked_of_gone ?_
  refine execution.along (fun s => Gone s.status s.node t) firstLe lastLe
    ((inv first (by omega)).gone exited unlinked) ?_
  intro i _ below _ gone ran
  exact gone.step (inv i (by omega)) (orderly i (by omega)) ran

/-- Threads 0 and 1 boot CPUs 0 and 1, threads 2 and 3 are their idle threads. -/
def twoCpus : Config (Fin 2) (Fin 4) where
  home t := ⟨t % 2, Nat.mod_lt _ (by decide)⟩
  idle cpu := ⟨cpu + 2, by omega⟩
  home_idle := by decide

def twoCpusBoot : State (Fin 2) (Fin 1) (Fin 4) :=
  bootState (fun cpu => ⟨cpu, by omega⟩) fun _ => 32

def twoCpusSystem : TransitionSystem (State (Fin 2) (Fin 1) (Fin 4))
    (Action (Fin 2) (Fin 1) (Fin 4)) :=
  system twoCpus

theorem initial_twoCpusBoot : twoCpusSystem.initial twoCpusBoot := ⟨_, _, by decide, by decide, rfl⟩

def enqueueActions : List (Action (Fin 2) (Fin 1) (Fin 4)) :=
  .callEnqueue 0 0 true :: List.replicate 3 (.exec (.agent 0))

def setPriorityActions : List (Action (Fin 2) (Fin 1) (Fin 4)) :=
  .callSetPriority 0 0 50 :: List.replicate 7 (.exec (.agent 0))

def exitActions : List (Action (Fin 2) (Fin 1) (Fin 4)) :=
  [.exit 0, .callSchedule 0] ++ List.replicate 5 (.exec (.cpu 0))

def earlyChange : twoCpusSystem.Execution
    (enqueueActions ++ setPriorityActions ++ exitActions).length :=
  TransitionSystem.executionOf _ initial_twoCpusBoot _ .tick (by decide +kernel)

theorem runqueues_represented_earlyChange : Represented (earlyChange.states 19) ∧
      ((earlyChange.states 19).queue (.zombie, 0)).heads 50 = [0] ∧
      ¬ ((earlyChange.states 19).queue (.run, 0)).Linked 0 := by
  have orderly : ∀ i < (enqueueActions ++ setPriorityActions ++ exitActions).length,
      Orderly twoCpus (earlyChange.states i) (earlyChange.actions i) := by
    decide +kernel
  obtain ⟨represented, departed⟩ := runqueues_represented earlyChange orderly
  refine ⟨represented 19 (by decide), by decide +kernel, ?_⟩
  exact departed 17 19 (by decide) (by decide) 0 (by decide +kernel) (by decide +kernel) 0

/-- The priority of thread 0 is changed when the thread is on `zombiequeue`. -/
def lateChange : twoCpusSystem.Execution
    (enqueueActions ++ exitActions ++ setPriorityActions).length :=
  TransitionSystem.executionOf _ initial_twoCpusBoot _ .tick (by decide +kernel)

/-- Thread 0 has exited and is on `zombiequeue`; eight steps later it is back on the run queue,
both counts and a bit are wrong. -/
theorem lateChange_relinked : (lateChange.states 11).status 0 = .zombie ∧
      (∀ cpu, ¬ ((lateChange.states 11).queue (.run, cpu)).Linked 0) ∧
      ((lateChange.states 19).queues (.run, 0)).lock = none ∧
      ((lateChange.states 19).queues (.zombie, 0)).lock = none ∧
      (lateChange.states 19).status 0 = .zombie ∧
      ((lateChange.states 19).queue (.run, 0)).heads 50 = [0] ∧
      ((lateChange.states 19).queue (.run, 0)).count = 0 ∧
      ((lateChange.states 19).queue (.zombie, 0)).count = 1 ∧
      ((lateChange.states 19).queue (.zombie, 0)).occupied 32 = true ∧
      ((lateChange.states 19).queue (.zombie, 0)).heads 32 = [] := by
  decide +kernel

end LaOS.Runqueue
