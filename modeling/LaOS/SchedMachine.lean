import LaOS.Buckets
import LaOS.TransitionSystem

/-!
# The scheduler of one CPU as a transition system

`__schedule`, run by the threads of one CPU, while other CPUs wake and enqueue threads
and set `need_resched`.  What happens under `runqueue.lock` is split where statuses
are read or written, because wakers do not take that lock.  Activations may nest.
-/

namespace LaOS.Sched

open Function

/-- `SCHED_PRIO_COUNT`. -/
abbrev priorityCount : Nat := 64

abbrev Priority := Fin priorityCount

/-- `runqueue_t`: the list heads, the bitmap and the count. -/
abbrev RunQueue (Thread : Type) := Buckets Priority Thread

inductive Status
  | ready
  | running
  | blocked
  | sleeping
  | zombie
  deriving DecidableEq

/-- Positions in `__schedule`.  `next`, `found` and the cursors of the two loops
of `pick_next` are its local variables. -/
inductive Pc (Thread : Type)
  | enter (preemptive : Bool)
  | clearResched
  | zombieTest
  | unlinkZombie
  | linkZombie
  | checkZombies
  | readCount
  | lockQueue
  | scanRank (remaining : List Priority)
  | scan (priority : Priority) (remaining : List Priority) (rest : List Thread)
  | scanSleeper (priority : Priority) (remaining : List Priority) (pos : Thread)
      (rest : List Thread)
  | keepPrev (found : Option (Thread × Priority))
  | rotate (next : Thread) (priority : Priority)
  | setNext (next : Thread)
  | setPrev (next : Thread)
  | unlockQueue (next : Thread)
  | compare (next : Thread)
  | noteNesting (next : Thread)
  | noteDisable (next : Thread)
  | noteEnable (next : Thread)
  | noteTest (next : Thread)
  | setCurrent (next : Thread)
  | switchTo (next : Thread)
  | finish
  deriving DecidableEq

/-- An activation of `__schedule`. History: `wasRunning`, whether the thread was
`THREAD_RUNNING` when it called. -/
structure Frame (Thread : Type) where
  prev : Thread
  wasRunning : Bool
  pc : Pc Thread
  deriving DecidableEq

structure Core (Thread : Type) where
  queue : RunQueue Thread
  queueLock : Bool
  zombies : RunQueue Thread
  status : Thread → Status
  current : Thread

/-- The fields of `cpu_context` and of the threads that scheduling reads. `executing` is the
thread whose stack the CPU is on, which differs from `current` until `switch_to`; `frames` are
the activations of each thread, the innermost first; `created` are the threads enqueued or
booted with. -/
structure State (Thread : Type) extends Core Thread where
  priority : Thread → Priority
  wakeupTicks : Thread → Nat
  ticks : Nat
  rcuNesting : Thread → Nat
  executing : Thread
  frames : Thread → List (Frame Thread)
  preemptCount : Nat
  needResched : Bool
  created : Thread → Bool
  panicked : Bool

/-- Moves of the running thread, of interrupts and of other CPUs. -/
inductive Action (Thread : Type)
  | exec
  | interrupt
  | schedule
  | rcuReadLock
  | rcuReadUnlock
  | preemptDisable
  | preemptEnable
  | block
  | sleep
  | setWakeup (duration : Nat)
  | exit
  | reap
  | kick
  | tick
  | wake (t : Thread)
  | enqueue (t : Thread) (atTail : Bool)
  deriving DecidableEq

variable {Thread : Type} [DecidableEq Thread]

namespace State

section

variable (s : State Thread)

def storeStatus (t : Thread) (status : Status) : State Thread :=
  { s with status := update s.status t status }

def storeFrames (frames : List (Frame Thread)) : State Thread :=
  { s with frames := update s.frames s.executing frames }

def newFrame (preemptive : Bool) : Frame Thread where
  prev := s.current
  wasRunning := s.status s.current = .running
  pc := .enter preemptive

def call (preemptive : Bool) (frames : List (Frame Thread)) : State Thread :=
  s.storeFrames (s.newFrame preemptive :: frames)

/-- The end of `preempt_enable`: serve a deferred request. -/
def schedulePreempt (frames : List (Frame Thread)) : State Thread :=
  if s.preemptCount = 0 ∧ s.needResched then s.call true frames
  else s.storeFrames frames

end

end State

/-- The priorities whose bit is set, lowest number first. -/
def RunQueue.ranks (queue : RunQueue Thread) : List Priority :=
  (List.finRange priorityCount).filter queue.occupied

def keepsPrev (idle : Thread) (s : State Thread) (prev : Thread)
    (found : Option (Thread × Priority)) : Bool :=
  prev ≠ idle ∧ s.status prev = .running ∧
    found.all fun candidate => s.priority prev < candidate.2

/-- The next access of an activation of `__schedule` above the activations `below`. -/
def execFrame (idle : Thread) (s : State Thread) (frame : Frame Thread)
    (below : List (Frame Thread)) : State Thread :=
  let prev := frame.prev
  let goto (s : State Thread) (pc : Pc Thread) : State Thread :=
    s.storeFrames ({ frame with pc } :: below)
  match frame.pc with
  | .enter preemptive =>
    if s.preemptCount ≠ 0 then
      if preemptive then s.storeFrames below else { s with panicked := true }
    else
      goto s .clearResched
  | .clearResched => goto { s with needResched := false } .zombieTest
  | .zombieTest =>
    goto s (if s.status prev = .zombie then .unlinkZombie else .checkZombies)
  | .unlinkZombie =>
    goto { s with queue := s.queue.remove (s.priority prev) prev } .linkZombie
  | .linkZombie =>
    goto { s with
      zombies := (s.zombies.addFront (s.priority prev) prev).addCount } .checkZombies
  | .checkZombies =>
    goto s (if s.zombies.count = 0 then .readCount else .compare idle)
  | .readCount => goto s (if s.queue.count = 0 then .compare idle else .lockQueue)
  | .lockQueue => goto { s with queueLock := true } (.scanRank s.queue.ranks)
  | .scanRank [] => goto s (.keepPrev none)
  | .scanRank (priority :: remaining) =>
    goto s (.scan priority remaining (s.queue.heads priority))
  | .scan _ remaining [] => goto s (.scanRank remaining)
  | .scan priority remaining (pos :: rest) =>
    goto s (if s.status pos = .ready then .keepPrev (some (pos, priority))
      else .scanSleeper priority remaining pos rest)
  | .scanSleeper priority remaining pos rest =>
    goto s
      (if s.status pos = .sleeping ∧ s.wakeupTicks pos ≤ s.ticks then
        .keepPrev (some (pos, priority))
      else .scan priority remaining rest)
  | .keepPrev found =>
    goto s
      (if keepsPrev idle s prev found then .setNext prev
      else match found with
        | none => .setNext idle
        | some (next, priority) => if next = prev then .setNext next else .rotate next priority)
  | .rotate next priority =>
    goto { s with queue := s.queue.move priority priority next } (.setNext next)
  | .setNext next => goto (s.storeStatus next .running) (.setPrev next)
  | .setPrev next =>
    goto (if prev ≠ next ∧ s.status prev = .running then s.storeStatus prev .ready
      else s) (.unlockQueue next)
  | .unlockQueue next => goto { s with queueLock := false } (.compare next)
  | .compare next =>
    if next = prev then s.storeFrames below else goto s (.noteNesting next)
  | .noteNesting next =>
    goto s (if 0 < s.rcuNesting prev then .noteDisable next else .setCurrent next)
  | .noteDisable next =>
    goto { s with preemptCount := s.preemptCount + 1 } (.noteEnable next)
  | .noteEnable next =>
    if s.preemptCount = 0 then { s with panicked := true }
    else goto { s with preemptCount := s.preemptCount - 1 } (.noteTest next)
  | .noteTest next => s.schedulePreempt ({ frame with pc := .setCurrent next } :: below)
  | .setCurrent next => goto { s with current := next } (.switchTo next)
  | .switchTo next => { goto s .finish with executing := next }
  | .finish => s.storeFrames below

/-- `runqueue_dequeue_tail` on `zombiequeue`. -/
def reapZombie (s : State Thread) : State Thread :=
  match s.zombies.ranks with
  | [] => s
  | priority :: _ =>
    match (s.zombies.heads priority).getLast? with
    | none => s
    | some t => { s with zombies := s.zombies.remove priority t }

/-- `cpu_enqueue` and `cpu_enqueue_tail` of a new thread. -/
def enqueue (s : State Thread) (t : Thread) (atTail : Bool) : State Thread :=
  let queue := if atTail then s.queue.addBack (s.priority t) t
    else s.queue.addFront (s.priority t) t
  { s.storeStatus t .ready with
    queue := queue.addCount
    created := update s.created t true }

/-- Moves of the thread that the CPU is executing, outside `__schedule`. -/
def execThread (idle : Thread) (s : State Thread) : Action Thread → Option (State Thread)
  | .interrupt =>
    if s.preemptCount = 0 ∧ s.needResched then some (s.call true []) else none
  | .schedule => some (s.call false [])
  | .rcuReadLock =>
    some { s with
      rcuNesting := update s.rcuNesting s.current
        (s.rcuNesting s.current + 1) }
  | .rcuReadUnlock =>
    if 0 < s.rcuNesting s.current then
      some { s with
        rcuNesting := update s.rcuNesting s.current
          (s.rcuNesting s.current - 1) }
    else
      none
  | .preemptDisable => some { s with preemptCount := s.preemptCount + 1 }
  | .preemptEnable =>
    if s.preemptCount = 0 then some { s with panicked := true }
    else some ({ s with preemptCount := s.preemptCount - 1 }.schedulePreempt [])
  | .block =>
    if s.current ≠ idle ∧ s.status s.current = .running then
      some (s.storeStatus s.current .blocked)
    else
      none
  | .sleep =>
    if s.current ≠ idle ∧ s.status s.current = .running then
      some (s.storeStatus s.current .sleeping)
    else
      none
  | .setWakeup duration =>
    some { s with
      wakeupTicks := update s.wakeupTicks s.current (s.ticks + duration) }
  | .exit =>
    if s.current ≠ idle ∧ s.status s.current = .running ∧
        s.queue.Linked s.current ∧ s.preemptCount = 0 then
      some (s.storeStatus s.current .zombie)
    else
      none
  | .reap => if s.current = idle then some (reapZombie s) else none
  | _ => none

def step (idle : Thread) (s : State Thread) (action : Action Thread) : Option (State Thread) :=
  if s.panicked then none
  else match action with
  | .kick => some { s with needResched := true }
  | .tick => some { s with ticks := s.ticks + 1 }
  | .wake t =>
    if s.status t = .blocked then some (s.storeStatus t .ready) else none
  | .enqueue t atTail =>
    if s.created t = false ∧ s.queueLock = false then
      some (enqueue s t atTail)
    else
      none
  | .exec =>
    match s.frames s.executing with
    | [] => none
    | frame :: below => some (execFrame idle s frame below)
  | action => if s.frames s.executing = [] then execThread idle s action else none

/-- The CPU executes its boot thread, which `isMain` says is on the run queue. -/
def bootState (idle boot : Thread) (isMain : Bool) (priority : Thread → Priority) :
    State Thread where
  queue := if isMain then (Buckets.empty.addFront (priority boot) boot).addCount else .empty
  queueLock := false
  zombies := .empty
  status := fun t => if t = boot then .running else .ready
  priority := priority
  wakeupTicks := fun _ => 0
  ticks := 0
  rcuNesting := fun _ => 0
  current := boot
  executing := boot
  frames := fun _ => []
  preemptCount := 0
  needResched := false
  created := fun t => t = boot ∨ t = idle
  panicked := false

def system (idle : Thread) : TransitionSystem (State Thread) (Action Thread) where
  initial s := ∃ boot isMain priority, boot ≠ idle ∧ s = bootState idle boot isMain priority
  step := step idle

end LaOS.Sched
