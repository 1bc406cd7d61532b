import LaOS.InsertionScan
import LaOS.TransitionSystem

/-!
# Mutexes with priority donation as a transition system

`mutex.c` under both locking policies, with the priority functions of `thread.c`
that it calls.  A step is one access to memory that other threads can touch at the
same time; accesses under `waiters.lock` alone are joined with a neighbouring access.
-/

namespace LaOS.Mutex

open Function

/-- `SCHED_PRIO_COUNT`. -/
abbrev priorityCount : Nat := 64

/-- Scheduling priorities; a smaller number is a higher priority. `SCHED_PRIO_NONE` is `none` in
`Option Priority`. -/
abbrev Priority := Fin priorityCount

inductive Policy
  | raw
  | handoff
  deriving DecidableEq

inductive Status
  | ready
  | running
  | blocked
  deriving DecidableEq

inductive Panic
  | missingDonation
  | donationOverflow
  deriving DecidableEq

/-- Positions in the critical section of a thread's `pi_lock`. -/
inductive PiStage
  | acquire
  | update
  | apply
  | release
  deriving DecidableEq

/-- How a section of `waiters.lock` ends: `mutex_lock` returns or goes to sleep, or
`mutex_unlock` returns. -/
inductive Ending
  | acquired
  | asleep
  | released
  deriving DecidableEq

/-- `mutex_unlock` after the owner is detached: clear the lock word and possibly wake a waiter,
or pass the mutex to `next`. -/
inductive Transfer (Thread : Type)
  | clear (wakes : Bool)
  | handOver (next : Thread)
  deriving DecidableEq

/-- The caller of `thread_priority_update_donation`, with its arguments. -/
inductive Donation (Thread : Type)
  | refresh (old new : Option Priority) (ending : Ending)
  | detach (old : Priority) (transfer : Transfer Thread)
  deriving DecidableEq

/-- Positions of `mutex_lock` outside `waiters.lock`. -/
inductive LockPc
  | tryLock
  | enter
  | enterNull
  | enterTry
  | loop
  | slowAcquire
  | attachAcquire
  | sched
  deriving DecidableEq

/-- Positions of `mutex_unlock` before it takes `waiters.lock`. -/
inductive UnlockPc
  | checkOwner
  | acquire
  deriving DecidableEq

/-- Positions under `waiters.lock`. -/
inductive GuardedPc (Thread : Type)
  | retry
  | check
  | checkNull
  | checkTry
  | enqueue
  | insert (i : Nat)
  | attach (owner : Thread) (ending : Ending)
  | refresh (ending : Ending)
  | donate (stage : PiStage) (target : Thread) (donation : Donation Thread)
  | storeDonated (priority : Option Priority) (ending : Ending)
  | release (ending : Ending)
  | branch
  | detach (transfer : Transfer Thread)
  | detachStore (transfer : Transfer Thread)
  | clear (wakes : Bool)
  | wake (next : Option Thread)
  | ready (woken : Thread) (next : Option Thread)
  deriving DecidableEq

inductive Phase (Id Thread : Type)
  | idle
  | lock (id : Id) (pc : LockPc)
  | unlock (id : Id) (pc : UnlockPc)
  | guarded (id : Id) (pc : GuardedPc Thread)
  | setPriority (target : Thread) (priority : Nat)
  | setBase (stage : PiStage) (target : Thread) (priority : Priority)
  deriving DecidableEq

/-- `struct mutex`. `waitersLock` names the holder of the spin lock. History: `holder`, for whom
the lock word is taken, and `credit`, the counted donation. -/
structure Fields (Thread : Type) where
  locked : Bool
  owner : Option Thread
  donatedPriority : Option Priority
  waiters : List Thread
  count : Nat
  waitersLock : Option Thread
  holder : Option Thread
  credit : Option (Thread × Priority)
  deriving DecidableEq

/-- `mutex_init`. -/
def Fields.init {Thread : Type} : Fields Thread where
  locked := false
  owner := none
  donatedPriority := none
  waiters := []
  count := 0
  waitersLock := none
  holder := none
  credit := none

/-- Mutexes and threads. `linked` says whether `wait_node` is on a list, `held` whether the
thread is inside. History: `woken` (from the raw `__wake_up_one` to the next attempt on the lock
word), `arrival` and `clock` (the order of insertions). -/
structure State (Id Thread : Type) where
  mutex : Id → Fields Thread
  phase : Thread → Phase Id Thread
  status : Thread → Status
  onCpu : Thread → Bool
  priority : Thread → Priority
  basePriority : Thread → Priority
  piDonations : Thread → Priority → Nat
  piLock : Thread → Option Thread
  linked : Thread → Bool
  held : Thread → Id → Bool
  warned : Bool
  panic : Option Panic
  woken : Thread → Option Id
  arrival : Thread → Nat
  clock : Nat

inductive Action (Id Thread : Type)
  | exec (t : Thread)
  | callLock (t : Thread) (id : Id)
  | callUnlock (t : Thread) (id : Id)
  | callSetPriority (t target : Thread) (priority : Nat)
  | preempt (t : Thread)
  | dispatch (t : Thread)
  deriving DecidableEq

/-- `thread_effective_priority`: the scan stops at the first donated priority. -/
def effectivePriority (base : Priority) (donations : Priority → Nat) : Priority :=
  match (List.finRange priorityCount).find? fun priority => donations priority ≠ 0 with
  | none => base
  | some donated => if donated < base then donated else base

/-- `thread_priority_update_donation` takes the old donation out of the counters. -/
def withdrawDonation (donations : Priority → Nat) : Option Priority → Except Panic (Priority → Nat)
  | none => pure donations
  | some priority =>
    if donations priority = 0 then throw .missingDonation
    else pure (update donations priority (donations priority - 1))

/-- `thread_priority_update_donation` counts the new donation. -/
def depositDonation (donations : Priority → Nat) : Option Priority → Except Panic (Priority → Nat)
  | none => pure donations
  | some priority =>
    if donations priority = 65535 then throw .donationOverflow
    else pure (update donations priority (donations priority + 1))

/-- The counters after `thread_priority_update_donation` moved one donation from
`old` to `new`. -/
def updateDonation (donations : Priority → Nat) (old new : Option Priority) :
    Except Panic (Priority → Nat) := do
  let withdrawn ← withdrawDonation donations old
  depositDonation withdrawn new

def Donation.old {Thread : Type} : Donation Thread → Option Priority
  | .refresh old _ _ => old
  | .detach old _ => some old

def Donation.new {Thread : Type} : Donation Thread → Option Priority
  | .refresh _ new _ => new
  | .detach _ _ => none

/-- Where the caller continues after the donation. -/
def Donation.next {Thread : Type} : Donation Thread → GuardedPc Thread
  | .refresh _ new ending => .storeDonated new ending
  | .detach _ transfer => .detachStore transfer

variable {Id Thread : Type} [DecidableEq Id] [DecidableEq Thread]

namespace State

section

variable (s : State Id Thread)

section

variable (t : Thread)

def goto (phase : Phase Id Thread) : State Id Thread :=
  { s with phase := update s.phase t phase }

def store (id : Id) (fields : Fields Thread) : State Id Thread :=
  { s with mutex := update s.mutex id fields }

def storeStatus (status : Status) : State Id Thread :=
  { s with status := update s.status t status }

def storeOnCpu (onCpu : Bool) : State Id Thread :=
  { s with onCpu := update s.onCpu t onCpu }

def storeBase (priority : Priority) : State Id Thread :=
  { s with basePriority := update s.basePriority t priority }

def storeDonations (donations : Priority → Nat) : State Id Thread :=
  { s with piDonations := update s.piDonations t donations }

/-- `thread_apply_effective_priority(t, thread_effective_priority(t))`. -/
def applyEffectivePriority : State Id Thread :=
  { s with
    priority := update s.priority t
      (effectivePriority (s.basePriority t) (s.piDonations t)) }

def storePiLock (holder : Option Thread) : State Id Thread :=
  { s with piLock := update s.piLock t holder }

def storeLinked (linked : Bool) : State Id Thread :=
  { s with linked := update s.linked t linked }

def storeHeld (id : Id) (held : Bool) : State Id Thread :=
  { s with
    held := update s.held t (update (s.held t) id held) }

def storeWoken (woken : Option Id) : State Id Thread :=
  { s with woken := update s.woken t woken }

def recordArrival : State Id Thread :=
  { s with
    arrival := update s.arrival t s.clock
    clock := s.clock + 1 }

def warnOn (condition : Bool) : State Id Thread :=
  { s with warned := s.warned || condition }

/-- `atomic_try_lock(&m->locked)`, an attempt that uses up a wake-up. -/
def atomicTryLock (id : Id) (won lost : Phase Id Thread) : State Id Thread :=
  if (s.mutex id).locked then
    (s.storeWoken t none).goto t lost
  else
    ((s.storeWoken t none).store id
      { s.mutex id with locked := true, holder := some t }).goto t won

/-- `arch_spin_lock_irqsave(&m->waiters.lock)`: enabled once the lock is free. -/
def lockWaiters (id : Id) (pc : GuardedPc Thread) : Option (State Id Thread) :=
  if (s.mutex id).waitersLock = none then
    some ((s.store id { s.mutex id with waitersLock := some t }).goto t
      (.guarded id pc))
  else
    none

/-- `thread_pi_lock`: enabled once the lock is free. -/
def lockPi (t target : Thread) (phase : Phase Id Thread) : Option (State Id Thread) :=
  if s.piLock target = none then
    some ((s.storePiLock target (some t)).goto t phase)
  else
    none

/-- `mutex_lock` returns. -/
def returnInside (id : Id) : State Id Thread :=
  (s.storeHeld t id true).goto t .idle

/-- The thread stops running; a running thread stays ready to run. -/
def leaveCpu : State Id Thread :=
  (s.storeStatus t
    (if s.status t = .running then .ready else s.status t)).storeOnCpu
      t false

end

end

end State

/-- The loop in `mutex_lock` starts here after `schedule` returns. -/
def Policy.loopTop : Policy → LockPc
  | .raw => .tryLock
  | .handoff => .loop

/-- `mutex_lock` outside `waiters.lock`. -/
def execLock (policy : Id → Policy) (s : State Id Thread) (t : Thread) (id : Id) :
    LockPc → Option (State Id Thread)
  | .tryLock =>
    some (s.atomicTryLock t id (.lock id .attachAcquire) (.lock id .slowAcquire))
  | .enter =>
    if (s.mutex id).owner = some t then some (s.returnInside t id)
    else some (s.goto t (.lock id .enterNull))
  | .enterNull =>
    if (s.mutex id).owner = none then some (s.goto t (.lock id .enterTry))
    else some (s.goto t (.lock id .loop))
  | .enterTry =>
    some (s.atomicTryLock t id (.lock id .attachAcquire) (.lock id .loop))
  | .loop =>
    if (s.mutex id).owner = some t then some (s.returnInside t id)
    else some (s.goto t (.lock id .slowAcquire))
  | .slowAcquire =>
    s.lockWaiters t id (match policy id with | .raw => .retry | .handoff => .check)
  | .attachAcquire => s.lockWaiters t id (.attach t .acquired)
  | .sched => some ((s.leaveCpu t).goto t (.lock id (policy id).loopTop))

section

variable (s : State Id Thread)

/-- `mutex_unlock` up to the acquisition of `waiters.lock`. -/
def execUnlock (t : Thread) (id : Id) : UnlockPc → Option (State Id Thread)
  | .checkOwner =>
    let owner := (s.mutex id).owner
    some ((s.warnOn (owner ≠ none ∧ owner ≠ some t)).goto t (.unlock id .acquire))
  | .acquire => s.lockWaiters t id .branch

/-- The critical section of `thread_priority_update_donation`. -/
def execDonate (t : Thread) (id : Id) (target : Thread)
    (donation : Donation Thread) : PiStage → Option (State Id Thread)
  | .acquire => s.lockPi t target (.guarded id (.donate .update target donation))
  | .update =>
    match updateDonation (s.piDonations target) donation.old donation.new with
    | .error panic => some { s with panic := some panic }
    | .ok donations =>
      some (((s.storeDonations target donations).store id { s.mutex id with
          credit := donation.new.map fun priority => (target, priority) }).goto t
            (.guarded id (.donate .apply target donation)))
  | .apply =>
    some ((s.applyEffectivePriority target).goto t
      (.guarded id (.donate .release target donation)))
  | .release =>
    some ((s.storePiLock target none).goto t (.guarded id donation.next))

/-- Link the thread before the waiter at `i` and count it. -/
def insertWaiter (t : Thread) (id : Id) (i : Nat) : State Id Thread :=
  let fields := s.mutex id
  (((s.store id { fields with
      waiters := insertBefore fields.waiters i t
      count := fields.count + 1 }).storeLinked t true).recordArrival t).goto t
        (.guarded id (.refresh .asleep))

def removeWaiter (t : Thread) (id : Id) (woken : Thread)
    (rest : List Thread) (next : Option Thread) : State Id Thread :=
  let fields := s.mutex id
  (((s.store id { fields with waiters := rest, count := fields.count - 1 }).storeLinked woken
      false).storeWoken woken (if next = none then some id else none)).goto t
        (.guarded id (.ready woken next))

def afterWake : Option Thread → GuardedPc Thread
  | none => .release .released
  | some next => .attach next .released

def execGuarded (policy : Id → Policy) (s : State Id Thread) (t : Thread) (id : Id) :
    GuardedPc Thread → Option (State Id Thread)
  | .retry | .checkTry =>
    some (s.atomicTryLock t id (.guarded id (.attach t .acquired))
      (.guarded id .enqueue))
  | .check =>
    if (s.mutex id).owner = some t then
      some (s.goto t (.guarded id (.release .acquired)))
    else
      some (s.goto t (.guarded id .checkNull))
  | .checkNull =>
    if (s.mutex id).owner = none then some (s.goto t (.guarded id .checkTry))
    else some (s.goto t (.guarded id .enqueue))
  | .enqueue =>
    if s.linked t then some (s.goto t (.guarded id (.release .asleep)))
    else some ((s.storeStatus t .blocked).goto t (.guarded id (.insert 0)))
  | .insert i =>
    match (s.mutex id).waiters[i]? with
    | none => some (insertWaiter s t id i)
    | some waiter =>
      if s.priority t < s.priority waiter then
        some (insertWaiter s t id i)
      else
        some (s.goto t (.guarded id (.insert (i + 1))))
  | .attach owner ending =>
    let fields := s.mutex id
    some (((s.warnOn fields.owner.isSome).store id
      { fields with owner := some owner, donatedPriority := none, holder := some owner }).goto
        t (.guarded id (.refresh ending)))
  | .refresh ending =>
    let fields := s.mutex id
    let new := (fields.owner.bind fun _ => fields.waiters.head?).map s.priority
    if fields.donatedPriority = new then
      some (s.goto t (.guarded id (.release ending)))
    else
      match fields.owner with
      | none => some (s.goto t (.guarded id (.storeDonated new ending)))
      | some owner =>
        some (s.goto t (.guarded id
          (.donate .acquire owner (.refresh fields.donatedPriority new ending))))
  | .donate stage target donation => execDonate s t id target donation stage
  | .storeDonated priority ending =>
    some ((s.store id { s.mutex id with donatedPriority := priority }).goto t
      (.guarded id (.release ending)))
  | .release ending =>
    let freed := s.store id { s.mutex id with waitersLock := none }
    match ending with
    | .acquired => some (freed.returnInside t id)
    | .asleep => some (freed.goto t (.lock id .sched))
    | .released => some (freed.goto t .idle)
  | .branch =>
    match policy id, (s.mutex id).waiters with
    | .raw, _ => some (s.goto t (.guarded id (.detach (.clear true))))
    | .handoff, [] => some (s.goto t (.guarded id (.detach (.clear false))))
    | .handoff, next :: _ => some (s.goto t (.guarded id (.detach (.handOver next))))
  | .detach transfer =>
    match (s.mutex id).owner, (s.mutex id).donatedPriority with
    | some owner, some priority =>
      some (s.goto t (.guarded id (.donate .acquire owner (.detach priority transfer))))
    | _, _ => some (s.goto t (.guarded id (.detachStore transfer)))
  | .detachStore transfer =>
    let detached := s.store id
      { s.mutex id with owner := none, donatedPriority := none }
    match transfer with
    | .clear wakes => some (detached.goto t (.guarded id (.clear wakes)))
    | .handOver next => some (detached.goto t (.guarded id (.wake (some next))))
  | .clear wakes =>
    some ((s.store id { s.mutex id with locked := false, holder := none }).goto t
      (.guarded id (if wakes then .wake none else .release .released)))
  | .wake next =>
    match (s.mutex id).waiters with
    | [] => some (s.goto t (.guarded id (afterWake next)))
    | woken :: rest => some (removeWaiter s t id woken rest next)
  | .ready woken next =>
    some ((s.storeStatus woken .ready).goto t (.guarded id (afterWake next)))

/-- The critical section of `thread_set_priority`. -/
def execSetBase (t target : Thread) (priority : Priority) : PiStage → Option (State Id Thread)
  | .acquire => s.lockPi t target (.setBase .update target priority)
  | .update =>
    some ((s.storeBase target priority).goto t (.setBase .apply target priority))
  | .apply =>
    some ((s.applyEffectivePriority target).goto t (.setBase .release target priority))
  | .release => some ((s.storePiLock target none).goto t .idle)

/-- The argument and status tests of `thread_set_priority`. -/
def execSetPriority (t target : Thread) (priority : Nat) : Option (State Id Thread) :=
  if inRange : priority < priorityCount then
    if s.status target = .blocked then some (s.goto t .idle)
    else some (s.goto t (.setBase .acquire target ⟨priority, inRange⟩))
  else
    some (s.goto t .idle)

end

def exec (policy : Id → Policy) (s : State Id Thread) (t : Thread) :
    Option (State Id Thread) :=
  match s.phase t with
  | .idle => none
  | .lock id pc => execLock policy s t id pc
  | .unlock id pc => execUnlock s t id pc
  | .guarded id pc => execGuarded policy s t id pc
  | .setPriority target priority => execSetPriority s t target priority
  | .setBase stage target priority => execSetBase s t target priority stage

/-- Local interrupts are on, so the thread can be preempted. -/
def Phase.irqsOn : Phase Id Thread → Bool
  | .guarded _ _ => false
  | .setBase stage _ _ => stage = .acquire
  | _ => true

/-- One move. Locking is not recursive, and a thread unlocks only what it holds. Nothing moves
after a panic. -/
def step (policy : Id → Policy) (s : State Id Thread) (action : Action Id Thread) :
    Option (State Id Thread) :=
  if s.panic.isSome then none
  else match action with
  | .exec t => if s.onCpu t then exec policy s t else none
  | .callLock t id =>
    if s.onCpu t ∧ s.phase t = .idle ∧ s.held t id = false then
      some (s.goto t
        (.lock id (match policy id with | .raw => .tryLock | .handoff => .enter)))
    else
      none
  | .callUnlock t id =>
    if s.onCpu t ∧ s.phase t = .idle ∧ s.held t id = true then
      some ((s.storeHeld t id false).goto t (.unlock id .checkOwner))
    else
      none
  | .callSetPriority t target priority =>
    if s.onCpu t ∧ s.phase t = .idle then
      some (s.goto t (.setPriority target priority))
    else
      none
  | .preempt t =>
    if s.onCpu t ∧ (s.phase t).irqsOn then some (s.leaveCpu t)
    else none
  | .dispatch t =>
    if s.onCpu t = false ∧ s.status t = .ready then
      some ((s.storeStatus t .running).storeOnCpu t true)
    else
      none

def initialState (basePriority : Thread → Priority) : State Id Thread where
  mutex := fun _ => Fields.init
  phase := fun _ => .idle
  status := fun _ => .ready
  onCpu := fun _ => false
  priority := basePriority
  basePriority := basePriority
  piDonations := fun _ _ => 0
  piLock := fun _ => none
  linked := fun _ => false
  held := fun _ _ => false
  warned := false
  panic := none
  woken := fun _ => none
  arrival := fun _ => 0
  clock := 0

def system (policy : Id → Policy) : TransitionSystem (State Id Thread) (Action Id Thread) where
  initial s := ∃ basePriority, s = initialState basePriority
  step := step policy

end LaOS.Mutex
