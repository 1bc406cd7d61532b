import LaOS.MutexMachine
import LaOS.SchedMachine

/-!
# The queues of all CPUs as a transition system

Every CPU has a `runqueue` and a `zombiequeue`, each with its own lock, and a
thread is linked into either through the same list node.  A section under a queue lock
is split where it accesses what others access without that lock: the priority, the
node and the status of a thread.
-/

namespace LaOS.Runqueue

open Function
open Sched (Priority RunQueue Status)

inductive Kind
  | run
  | zombie
  deriving DecidableEq

/-- The flows of control: the CPUs in `__schedule`, and callers of the other
functions. -/
inductive Context (Cpu Agent : Type)
  | cpu (cpu : Cpu)
  | agent (agent : Agent)
  deriving DecidableEq, Fintype

/-- The list node of a thread. The code sees whether it is linked; the rest is history: on which
list it is, or why on none. -/
inductive Node (Cpu Agent : Type)
  | fresh
  | entering (ctx : Context Cpu Agent)
  | queued (kind : Kind)
  | rotating
  | leaving
  | reaped
  deriving DecidableEq

/-- `node.next && node.prev && !list_empty(&node)`. -/
def Node.isLinked {Cpu Agent : Type} : Node Cpu Agent → Bool
  | .queued _ => true
  | _ => false

/-- What a section under `pi_lock` does to the inputs of the effective priority. -/
inductive Request
  | setBase (priority : Priority)
  | donate (old new : Option Priority)
  deriving DecidableEq

/-- The next access, with the local variables that are still needed. -/
inductive Pc (Thread : Type)
  | idle
  | zombieTest
  | unlink (prev : Thread)
  | unlinkClear (prev : Thread)
  | zombieLink (prev : Thread)
  | zombieFlag (prev : Thread)
  | checkZombies
  | readCount
  | lockQueue
  | scanRank (remaining : List Priority)
  | scan (priority : Priority) (remaining : List Priority) (rest : List Thread)
  | scanSleeper (priority : Priority) (remaining : List Priority) (pos : Thread)
      (rest : List Thread)
  | keepPrev (found : Option (Thread × Priority))
  | rotate (next : Thread) (priority : Priority)
  | rotateLink (next : Thread) (priority : Priority)
  | setNext (next : Thread)
  | setPrev (next : Thread)
  | setCurrent (next : Thread)
  | enqueue (t : Thread) (atTail : Bool)
  | enqueueLock (t : Thread) (atTail : Bool)
  | enqueueLink (t : Thread) (atTail : Bool) (priority : Priority)
  | testBlocked (t : Thread) (priority : Priority)
  | piLock (t : Thread) (request : Request)
  | update (t : Thread) (request : Request)
  | apply (t : Thread) (priority : Priority)
  | store (t : Thread) (priority : Priority)
  | lockRun (t : Thread) (old priority : Priority)
  | move (t : Thread) (old priority : Priority)
  | storeLocked (t : Thread) (priority : Priority)
  | piUnlock (t : Thread)
  deriving DecidableEq

/-- `runqueue_t` with its lock, of which the code only sees whether it is held. -/
structure LockedQueue (Cpu Agent Thread : Type) where
  queue : RunQueue Thread
  lock : Option (Context Cpu Agent)

/-- `target_cpu` of every thread and `ctx->idle` of every CPU. -/
structure Config (Cpu Thread : Type) where
  home : Thread → Cpu
  idle : Cpu → Thread
  home_idle : ∀ cpu, home (idle cpu) = cpu

structure State (Cpu Agent Thread : Type) where
  queues : Kind × Cpu → LockedQueue Cpu Agent Thread
  node : Thread → Node Cpu Agent
  status : Thread → Status
  priority : Thread → Priority
  basePriority : Thread → Priority
  piDonations : Thread → Priority → Nat
  piLock : Thread → Option (Context Cpu Agent)
  wakeupTicks : Thread → Nat
  ticks : Nat
  current : Cpu → Thread
  pc : Context Cpu Agent → Pc Thread
  panicked : Bool

/-- Moves of a section, calls, and what threads do outside the modelled functions. -/
inductive Action (Cpu Agent Thread : Type)
  | exec (ctx : Context Cpu Agent)
  | callSchedule (cpu : Cpu)
  | callEnqueue (agent : Agent) (t : Thread) (atTail : Bool)
  | callSetPriority (agent : Agent) (t : Thread) (priority : Int)
  | callUpdateDonation (agent : Agent) (t : Thread) (old new : Option Priority)
  | block (cpu : Cpu)
  | sleep (cpu : Cpu) (duration : Nat)
  | exit (cpu : Cpu)
  | reap (cpu : Cpu)
  | wake (t : Thread)
  | tick
  deriving DecidableEq

variable {Cpu Agent Thread : Type} [DecidableEq Cpu] [DecidableEq Agent] [DecidableEq Thread]

namespace State

section

variable (s : State Cpu Agent Thread)

def goto (ctx : Context Cpu Agent) (pc : Pc Thread) : State Cpu Agent Thread :=
  { s with pc := update s.pc ctx pc }

def storeQueue (key : Kind × Cpu) (queue : RunQueue Thread)
    (lock : Option (Context Cpu Agent)) : State Cpu Agent Thread :=
  { s with queues := update s.queues key ⟨queue, lock⟩ }

def storeNode (t : Thread) (node : Node Cpu Agent) : State Cpu Agent Thread :=
  { s with node := update s.node t node }

def storeStatus (t : Thread) (status : Status) : State Cpu Agent Thread :=
  { s with status := update s.status t status }

def storePriority (t : Thread) (priority : Priority) : State Cpu Agent Thread :=
  { s with priority := update s.priority t priority }

def storePiLock (t : Thread) (holder : Option (Context Cpu Agent)) : State Cpu Agent Thread :=
  { s with piLock := update s.piLock t holder }

/-- `list_del`: the node leaves whichever list it is on. -/
def listDel (t : Thread) : State Cpu Agent Thread :=
  { s with
    queues := fun key => { s.queues key with queue := (s.queues key).queue.erase t } }

def queue (key : Kind × Cpu) : RunQueue Thread :=
  (s.queues key).queue

end

end State

/-- `thread_set_priority` accepts these priorities. -/
def validPriority (priority : Int) : Option Priority :=
  if inRange : 0 ≤ priority ∧ priority < Sched.priorityCount then
    some ⟨priority.toNat, by omega⟩
  else
    none

/-- `__schedule` returns when it is to keep the current thread. -/
def compareNext (s : State Cpu Agent Thread) (cpu : Cpu) (next : Thread) : Pc Thread :=
  if next = s.current cpu then .idle else .setCurrent next

section

variable (cfg : Config Cpu Thread)

section

variable (s : State Cpu Agent Thread)

/-- Whether `pick_next` keeps the current thread rather than `found`. -/
def keepsPrev (cpu : Cpu) (found : Option (Thread × Priority)) : Bool :=
  s.current cpu ≠ cfg.idle cpu ∧ s.status (s.current cpu) = .running ∧
    found.all fun candidate => s.priority (s.current cpu) < candidate.2

/-- What `pick_next` does with the candidate of its scan. -/
def afterScan (cpu : Cpu) (found : Option (Thread × Priority)) : Pc Thread :=
  if keepsPrev cfg s cpu found then .setNext (s.current cpu)
  else match found with
    | none => .setNext (cfg.idle cpu)
    | some (next, priority) =>
      if next = s.current cpu then .setNext next else .rotate next priority

/-- `sched_idle_zombie`. -/
def execZombie (cpu : Cpu) : Pc Thread → Option (State Cpu Agent Thread)
  | .zombieTest =>
    let prev := s.current cpu
    some (s.goto (.cpu cpu)
      (if s.status prev = .zombie then .unlink prev else .checkZombies))
  | .unlink prev =>
    if (s.queues (.run, cpu)).lock = none then
      let unlinked := s.listDel prev
      some (((unlinked.storeQueue (.run, cpu) (unlinked.queue (.run, cpu))
        (some (.cpu cpu))).storeNode prev .leaving).goto (.cpu cpu) (.unlinkClear prev))
    else
      none
  | .unlinkClear prev =>
    some ((s.storeQueue (.run, cpu)
      ((s.queue (.run, cpu)).clearIfEmpty (s.priority prev)).subCount none).goto
        (.cpu cpu) (.zombieLink prev))
  | .zombieLink prev =>
    if (s.queues (.zombie, cpu)).lock = none then
      some (((s.storeQueue (.zombie, cpu)
        ((s.queue (.zombie, cpu)).pushFront (s.priority prev) prev)
        (some (.cpu cpu))).storeNode prev (.queued .zombie)).goto (.cpu cpu) (.zombieFlag prev))
    else
      none
  | .zombieFlag prev =>
    some ((s.storeQueue (.zombie, cpu)
      ((s.queue (.zombie, cpu)).flag (s.priority prev)).addCount none).goto (.cpu cpu)
        .checkZombies)
  | .checkZombies =>
    some (s.goto (.cpu cpu) (if (s.queue (.zombie, cpu)).count = 0 then .readCount
      else compareNext s cpu (cfg.idle cpu)))
  | _ => none

/-- `pick_next`, and the switch to the thread that it returns. -/
def execPick (cpu : Cpu) : Pc Thread → Option (State Cpu Agent Thread)
  | .readCount =>
    some (s.goto (.cpu cpu)
      (if (s.queue (.run, cpu)).count = 0 then compareNext s cpu (cfg.idle cpu)
      else .lockQueue))
  | .lockQueue =>
    if (s.queues (.run, cpu)).lock = none then
      some ((s.storeQueue (.run, cpu) (s.queue (.run, cpu)) (some (.cpu cpu))).goto
        (.cpu cpu) (.scanRank (s.queue (.run, cpu)).ranks))
    else
      none
  | .scanRank [] => some (s.goto (.cpu cpu) (.keepPrev none))
  | .scanRank (priority :: remaining) =>
    some (s.goto (.cpu cpu)
      (.scan priority remaining ((s.queue (.run, cpu)).heads priority)))
  | .scan _ remaining [] => some (s.goto (.cpu cpu) (.scanRank remaining))
  | .scan priority remaining (pos :: rest) =>
    some (s.goto (.cpu cpu) (if s.status pos = .ready then .keepPrev (some (pos, priority))
      else .scanSleeper priority remaining pos rest))
  | .scanSleeper priority remaining pos rest =>
    some (s.goto (.cpu cpu)
      (if s.status pos = .sleeping ∧ s.wakeupTicks pos ≤ s.ticks then
        .keepPrev (some (pos, priority))
      else .scan priority remaining rest))
  | .keepPrev found => some (s.goto (.cpu cpu) (afterScan cfg s cpu found))
  | .rotate next priority =>
    let unlinked := s.listDel next
    some (((unlinked.storeQueue (.run, cpu)
      ((unlinked.queue (.run, cpu)).clearIfEmpty priority) (some (.cpu cpu))).storeNode next
        .rotating).goto (.cpu cpu) (.rotateLink next priority))
  | .rotateLink next priority =>
    some (((s.storeQueue (.run, cpu) ((s.queue (.run, cpu)).addBack priority next)
      (some (.cpu cpu))).storeNode next (.queued .run)).goto (.cpu cpu) (.setNext next))
  | .setNext next => some ((s.storeStatus next .running).goto (.cpu cpu) (.setPrev next))
  | .setPrev next =>
    let prev := s.current cpu
    let settled := if prev ≠ next ∧ s.status prev = .running then
      s.storeStatus prev .ready else s
    some ((settled.storeQueue (.run, cpu) (s.queue (.run, cpu)) none).goto (.cpu cpu)
      (compareNext s cpu next))
  | .setCurrent next =>
    some ({ s with current := update s.current cpu next }.goto (.cpu cpu) .idle)
  | _ => none

def execEnqueue (ctx : Context Cpu Agent) : Pc Thread → Option (State Cpu Agent Thread)
  | .enqueue t atTail =>
    some ((s.storeStatus t .ready).goto ctx (.enqueueLock t atTail))
  | .enqueueLock t atTail =>
    let key := (Kind.run, cfg.home t)
    if (s.queues key).lock = none then
      some ((s.storeQueue key (s.queue key) (some ctx)).goto ctx
        (.enqueueLink t atTail (s.priority t)))
    else
      none
  | .enqueueLink t atTail priority =>
    let key := (Kind.run, cfg.home t)
    let extended := if atTail then (s.queue key).addBack priority t
      else (s.queue key).addFront priority t
    some (((s.storeQueue key extended.addCount none).storeNode t (.queued .run)).goto
      ctx .idle)
  | _ => none

/-- `thread_set_priority` and `thread_priority_update_donation`, with
`thread_apply_effective_priority`. -/
def execPriority (ctx : Context Cpu Agent) : Pc Thread → Option (State Cpu Agent Thread)
  | .testBlocked t priority =>
    some (s.goto ctx
      (if s.status t = .blocked then .idle else .piLock t (.setBase priority)))
  | .piLock t request =>
    if s.piLock t = none then
      some ((s.storePiLock t (some ctx)).goto ctx (.update t request))
    else
      none
  | .update t (.setBase priority) =>
    some ({ s with
      basePriority := update s.basePriority t priority }.goto ctx
        (.apply t (Mutex.effectivePriority priority (s.piDonations t))))
  | .update t (.donate old new) =>
    match Mutex.updateDonation (s.piDonations t) old new with
    | .error _ => some { s with panicked := true }
    | .ok donations =>
      some ({ s with
        piDonations := update s.piDonations t donations }.goto ctx
          (.apply t (Mutex.effectivePriority (s.basePriority t) donations)))
  | .apply t priority =>
    some (s.goto ctx (if s.priority t = priority then .piUnlock t
      else if (s.node t).isLinked then .lockRun t (s.priority t) priority
      else .store t priority))
  | .store t priority =>
    some ((s.storePriority t priority).goto ctx (.piUnlock t))
  | .lockRun t old priority =>
    let key := (Kind.run, cfg.home t)
    if (s.queues key).lock = none then
      some ((s.storeQueue key (s.queue key) (some ctx)).goto ctx
        (if (s.node t).isLinked then .move t old priority
        else .storeLocked t priority))
    else
      none
  | .move t old priority =>
    let key := (Kind.run, cfg.home t)
    let unlinked := s.listDel t
    if (s.node t).isLinked then
      some ((((unlinked.storeQueue key
        (((unlinked.queue key).clearIfEmpty old).addBack priority t) none).storePriority
          t priority).storeNode t (.queued .run)).goto ctx (.piUnlock t))
    else
      some { s with panicked := true }
  | .storeLocked t priority =>
    let key := (Kind.run, cfg.home t)
    some (((s.storeQueue key (s.queue key) none).storePriority t priority).goto
      ctx (.piUnlock t))
  | .piUnlock t => some ((s.storePiLock t none).goto ctx .idle)
  | _ => none

def exec : Context Cpu Agent → Option (State Cpu Agent Thread)
  | .cpu cpu =>
    let pc := s.pc (.cpu cpu)
    (execZombie cfg s cpu pc).or (execPick cfg s cpu pc)
  | .agent agent =>
    let pc := s.pc (.agent agent)
    (execEnqueue cfg s (.agent agent) pc).or (execPriority cfg s (.agent agent) pc)

/-- `cpu_dequeue_zombie_tail`, from the loop of the idle thread. -/
def reapZombie (cpu : Cpu) : Option (State Cpu Agent Thread) :=
  if (s.queues (.zombie, cpu)).lock ≠ none then none
  else if (s.queue (.zombie, cpu)).count = 0 then some s
  else match (s.queue (.zombie, cpu)).ranks with
    | [] => some { s with panicked := true }
    | priority :: _ =>
      match ((s.queue (.zombie, cpu)).heads priority).getLast? with
      | none => some { s with panicked := true }
      | some t =>
        let unlinked := s.listDel t
        some ((unlinked.storeQueue (.zombie, cpu)
          ((unlinked.queue (.zombie, cpu)).clearIfEmpty priority).subCount none).storeNode
            t .reaped)

/-- What the current thread of a CPU does outside `__schedule`. -/
def execThread (cpu : Cpu) : Action Cpu Agent Thread → Option (State Cpu Agent Thread)
  | .callSchedule _ => some (s.goto (.cpu cpu) .zombieTest)
  | .block _ =>
    if s.current cpu ≠ cfg.idle cpu ∧ s.status (s.current cpu) ≠ .zombie then
      some (s.storeStatus (s.current cpu) .blocked)
    else
      none
  | .sleep _ duration =>
    if s.current cpu ≠ cfg.idle cpu ∧ s.status (s.current cpu) ≠ .zombie then
      some { s.storeStatus (s.current cpu) .sleeping with
        wakeupTicks := update s.wakeupTicks (s.current cpu)
          (s.ticks + duration) }
    else
      none
  | .exit _ =>
    if s.current cpu ≠ cfg.idle cpu ∧ s.status (s.current cpu) ≠ .zombie ∧
        s.node (s.current cpu) = .queued .run then
      some (s.storeStatus (s.current cpu) .zombie)
    else
      none
  | .reap _ => if s.current cpu = cfg.idle cpu then reapZombie s cpu else none
  | _ => none

def step (action : Action Cpu Agent Thread) : Option (State Cpu Agent Thread) :=
  if s.panicked then none
  else match action with
  | .exec ctx => exec cfg s ctx
  | .callEnqueue agent t atTail =>
    if s.pc (.agent agent) = .idle ∧ s.node t = .fresh ∧
        t ≠ cfg.idle (cfg.home t) then
      some ((s.storeNode t (.entering (.agent agent))).goto (.agent agent)
        (.enqueue t atTail))
    else
      none
  | .callSetPriority agent t priority =>
    if s.pc (.agent agent) = .idle then
      match validPriority priority with
      | none => some s
      | some priority => some (s.goto (.agent agent) (.testBlocked t priority))
    else
      none
  | .callUpdateDonation agent t old new =>
    if s.pc (.agent agent) = .idle then
      some (s.goto (.agent agent) (.piLock t (.donate old new)))
    else
      none
  | .wake t =>
    if s.status t = .blocked then some (s.storeStatus t .ready) else none
  | .tick => some { s with ticks := s.ticks + 1 }
  | .callSchedule cpu | .block cpu | .sleep cpu _ | .exit cpu | .reap cpu =>
    if s.pc (.cpu cpu) = .idle then execThread cfg s cpu action else none

end

def bootState (boot : Cpu → Thread) (priority : Thread → Priority) : State Cpu Agent Thread where
  queues := fun _ => ⟨.empty, none⟩
  node := fun _ => .fresh
  status := fun _ => .running
  priority := priority
  basePriority := priority
  piDonations := fun _ _ => 0
  piLock := fun _ => none
  wakeupTicks := fun _ => 0
  ticks := 0
  current := boot
  pc := fun _ => .idle
  panicked := false

def system : TransitionSystem (State Cpu Agent Thread) (Action Cpu Agent Thread) where
  initial s := ∃ boot priority, (∀ cpu, cfg.home (boot cpu) = cpu) ∧
    (∀ cpu, boot cpu ≠ cfg.idle cpu) ∧ s = bootState boot priority
  step := step cfg

end

end LaOS.Runqueue
