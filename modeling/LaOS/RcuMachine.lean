import LaOS.TransitionSystem

/-!
# The preemptible RCU engine as a transition system

`rcu.c` and `rcu.h`, with the hooks in `__schedule`, `preempt_enable` and the timer
interrupt that call them, one shared-memory access at a time.  A thread that is
switched out keeps the points it has to return to in `frames`.  `pick_next` may select
any thread pinned to the CPU.
-/

namespace LaOS.Rcu

open Function

/-- The next access of a thread inside the task-level functions of RCU. -/
inductive TaskPc
  | user
  | lockStore (nesting : Nat)
  | unlockStore (nesting : Nat)
  | unlockTest
  | unlockBlocked
  | unlockIrqSave
  | unlockPreemptDisable
  | unlockSpin
  | unlockListDel
  | unlockSpinRelease
  | unlockPreemptEnable
  | unlockIrqRestore
  | unlockClear
  | unlockRead
  | unlockReport (seq : BitVec 32)
  | syncIncrement
  | syncScan (target : BitVec 32) (cpu : Nat)
  | syncPreemptDisable (target : BitVec 32) (report : Bool)
  | syncSpin (target : BitVec 32) (report : Bool)
  | syncList (target : BitVec 32) (report : Bool)
  | syncSpinRelease (target : BitVec 32) (report empty : Bool)
  | syncPreemptEnable (target : BitVec 32) (report empty : Bool)
  | syncDecide (target : BitVec 32) (report empty : Bool)
  | syncStall (target : BitVec 32)
  deriving DecidableEq

/-- Where a call of `__schedule` returns to: task code, the interrupt exit path, or the
`rcu_note_context_switch` of an outer `__schedule` that has chosen `next`. -/
inductive Frame (Thread : Type)
  | task
  | irq
  | note (next : Thread)
  deriving DecidableEq

/-- What a CPU executes; after `irqReturn`, the positions inside `__schedule`, where local
interrupts are off. -/
inductive Mode (Thread : Type)
  | task
  | tickTest
  | tickRead
  | tickStore (seq : BitVec 32)
  | irqReturn
  | enter (preemptive : Bool)
  | pick
  | noteTest (next : Thread)
  | noteRead (next : Thread)
  | noteStore (next : Thread) (seq : BitVec 32)
  | notePreemptDisable (next : Thread)
  | noteSpin (next : Thread)
  | noteList (next : Thread)
  | noteSpinRelease (next : Thread)
  | notePreemptEnable (next : Thread)
  | switch (next : Thread)
  deriving DecidableEq

/-- The mode in which a CPU continues once `__schedule` returns to a frame. -/
def Frame.mode {Thread : Type} : Frame Thread → Mode Thread
  | .task => .task
  | .irq => .irqReturn
  | .note next => .switch next

/-- The CPUs and the pinning of threads, fixed during a run. -/
structure Config (Thread : Type) where
  cpuCount : Nat
  present : Nat → Bool
  cpuOf : Thread → Nat
  pinned : ∀ t, cpuOf t < cpuCount ∧ present (cpuOf t) = true

/-- The CPU is counted and has a context in `g_cpu_contexts`. -/
def Config.hasCpu {Thread : Type} (cfg : Config Thread) (cpu : Nat) : Prop :=
  cpu < cfg.cpuCount ∧ cfg.present cpu = true

instance {Thread : Type} (cfg : Config Thread) (cpu : Nat) : Decidable (cfg.hasCpu cpu) :=
  inferInstanceAs (Decidable (_ ∧ _))

/-- The data of read-side sections. History: `gpStarted` counts the grace periods started, and
`sectionGp` is that number when the open section began. -/
structure Readers (Thread : Type) where
  nesting : Thread → Nat
  blockedTasks : List Thread
  gpStarted : Nat
  sectionGp : Thread → Nat

structure State (Thread : Type) extends Readers Thread where
  gpSeq : BitVec 32
  blockedLock : Bool
  current : Nat → Thread
  gpSeqSeen : Nat → BitVec 32
  needResched : Nat → Bool
  preemptCount : Nat → Nat
  mode : Nat → Mode Thread
  rcuBlocked : Thread → Bool
  pc : Thread → TaskPc
  frames : Thread → List (Frame Thread)

/-- Calls made by task code outside the RCU functions. -/
inductive Call
  | rcuReadLock
  | rcuReadUnlock
  | synchronizeRcu
  | schedule
  | preemptDisable
  | preemptEnable
  deriving DecidableEq

/-- A call by task code, the next access of a CPU (with the choices of `pick_next` and
`rcu_stall_report_due`), a timer interrupt, or a remote store to `need_resched`. -/
inductive Action (Thread : Type)
  | call (cpu : Nat) (call : Call)
  | exec (cpu : Nat) (next : Thread) (stalled : Bool)
  | tick (cpu : Nat) (resched : Bool)
  | kick (cpu : Nat)
  deriving DecidableEq

variable {Thread : Type} [DecidableEq Thread]

namespace State

section

variable (s : State Thread)

section

variable (t : Thread)

def setPc (pc : TaskPc) : State Thread :=
  { s with pc := update s.pc t pc }

def setMode (cpu : Nat) (mode : Mode Thread) : State Thread :=
  { s with mode := update s.mode cpu mode }

/-- Store `rcu_nesting`.  A store over zero opens a section, which the history
variable `sectionGp` records. -/
def storeNesting (nesting : Nat) : State Thread :=
  { s with
    nesting := update s.nesting t nesting
    sectionGp :=
      if s.nesting t = 0 then
        update s.sectionGp t s.gpStarted
      else
        s.sectionGp }

/-- Store a previously read `gp_seq` to the `rcu_gp_seq_seen` of `cpu`. -/
def storeSeen (cpu : Nat) (seq : BitVec 32) : State Thread :=
  { s with gpSeqSeen := update s.gpSeqSeen cpu seq }

/-- `atomic_inc(&rcu_state.gp_seq)`. -/
def incrementGpSeq : State Thread :=
  { s with gpSeq := s.gpSeq + 1, gpStarted := s.gpStarted + 1 }

def storeBlocked (blocked : Bool) : State Thread :=
  { s with rcuBlocked := update s.rcuBlocked t blocked }

def listAdd : State Thread :=
  { s with blockedTasks := t :: s.blockedTasks }

def listDel : State Thread :=
  { s with blockedTasks := s.blockedTasks.erase t }

def storeNeedResched (cpu : Nat) (flag : Bool) : State Thread :=
  { s with needResched := update s.needResched cpu flag }

def storeCurrent (cpu : Nat) (t : Thread) : State Thread :=
  { s with current := update s.current cpu t }

def storeFrames (frames : List (Frame Thread)) : State Thread :=
  { s with frames := update s.frames t frames }

end

def storePreemptCount (cpu count : Nat) : State Thread :=
  { s with preemptCount := update s.preemptCount cpu count }

def storeBlockedLock (locked : Bool) : State Thread :=
  { s with blockedLock := locked }

/-- Enter `__schedule` on `cpu`, to return to `frame`. -/
def callSchedule (cpu : Nat) (preemptive : Bool) (frame : Frame Thread) : State Thread :=
  (s.storeFrames (s.current cpu) (frame :: s.frames (s.current cpu))).setMode cpu
    (.enter preemptive)

/-- Return from `__schedule` on `cpu`. A thread without frames runs for the first time and
starts in task code. -/
def leaveSchedule (cpu : Nat) : State Thread :=
  match s.frames (s.current cpu) with
  | [] => s.setMode cpu .task
  | frame :: rest => (s.storeFrames (s.current cpu) rest).setMode cpu frame.mode

def preemptDisable (cpu : Nat) : State Thread :=
  s.storePreemptCount cpu (s.preemptCount cpu + 1)

/-- `preempt_enable`, returning to `frame` if it schedules. An underflow is a panic, after which
the machine takes no step. -/
def preemptEnable (cpu : Nat) (frame : Frame Thread) : Option (State Thread) :=
  match s.preemptCount cpu with
  | 0 => none
  | count + 1 =>
    if count = 0 ∧ s.needResched cpu = true then
      some ((s.storePreemptCount cpu count).callSchedule cpu true frame)
    else
      some (s.storePreemptCount cpu count)

/-- `spin_lock_raw(&rcu_state.blocked_lock)`: enabled once the lock is free. -/
def spinLock : Option (State Thread) :=
  if s.blockedLock then none else some (s.storeBlockedLock true)

def spinUnlock : State Thread :=
  s.storeBlockedLock false

end

end State

/-- Local interrupts are off between `save_and_disable_interrupts` and
`restore_interrupts` in `rcu_read_unlock`. -/
def TaskPc.irqsOff : TaskPc → Bool
  | .unlockPreemptDisable | .unlockSpin | .unlockListDel | .unlockSpinRelease
  | .unlockPreemptEnable | .unlockIrqRestore => true
  | _ => false

/-- The next access of the current thread of `cpu` in task code. -/
def execTask (cfg : Config Thread) (s : State Thread) (cpu : Nat) (stalled : Bool) :
    Option (State Thread) :=
  let t := s.current cpu
  match s.pc t with
  | .user => none
  | .lockStore nesting =>
    some ((s.setPc t .user).storeNesting t (nesting + 1))
  | .unlockStore nesting =>
    some ((s.setPc t .unlockTest).storeNesting t (nesting - 1))
  | .unlockTest =>
    some (s.setPc t (if s.nesting t = 0 then .unlockBlocked else .user))
  | .unlockBlocked =>
    some (s.setPc t (if s.rcuBlocked t then .unlockIrqSave else .unlockRead))
  | .unlockIrqSave => some (s.setPc t .unlockPreemptDisable)
  | .unlockPreemptDisable => some ((s.preemptDisable cpu).setPc t .unlockSpin)
  | .unlockSpin => s.spinLock.map fun locked => locked.setPc t .unlockListDel
  | .unlockListDel => some ((s.setPc t .unlockSpinRelease).listDel t)
  | .unlockSpinRelease => some (s.spinUnlock.setPc t .unlockPreemptEnable)
  | .unlockPreemptEnable => (s.setPc t .unlockIrqRestore).preemptEnable cpu .task
  | .unlockIrqRestore => some (s.setPc t .unlockClear)
  | .unlockClear => some ((s.storeBlocked t false).setPc t .unlockRead)
  | .unlockRead => some (s.setPc t (.unlockReport s.gpSeq))
  | .unlockReport seq => some ((s.storeSeen cpu seq).setPc t .user)
  | .syncIncrement =>
    some (s.incrementGpSeq.setPc t (.syncScan s.incrementGpSeq.gpSeq 0))
  | .syncScan target i =>
    if i < cfg.cpuCount then
      if cfg.present i = true ∧ (s.gpSeqSeen i).slt target = true then
        some (s.callSchedule cpu false .task)
      else
        some (s.setPc t (.syncScan target (i + 1)))
    else
      some (s.setPc t (.syncPreemptDisable target false))
  | .syncPreemptDisable target report =>
    some ((s.preemptDisable cpu).setPc t (.syncSpin target report))
  | .syncSpin target report =>
    s.spinLock.map fun locked => locked.setPc t (.syncList target report)
  | .syncList target report =>
    some (s.setPc t (.syncSpinRelease target report s.blockedTasks.isEmpty))
  | .syncSpinRelease target report empty =>
    some (s.spinUnlock.setPc t (.syncPreemptEnable target report empty))
  | .syncPreemptEnable target report empty =>
    (s.setPc t (.syncDecide target report empty)).preemptEnable cpu .task
  | .syncDecide target report empty =>
    if report = true then
      some (s.setPc t (.syncPreemptDisable target false))
    else if empty = true then
      some (s.setPc t .user)
    else
      some ((s.setPc t (.syncStall target)).callSchedule cpu false .task)
  | .syncStall target => some (s.setPc t (.syncPreemptDisable target stalled))

/-- The next access of `cpu` in the timer interrupt, in its exit path, or in
`__schedule` and `rcu_note_context_switch`. -/
def execKernel (cfg : Config Thread) (s : State Thread) (cpu : Nat) (chosen : Thread) :
    Option (State Thread) :=
  let t := s.current cpu
  match s.mode cpu with
  | .task => none
  | .tickTest =>
    some (s.setMode cpu (if s.nesting t = 0 then .tickRead else .irqReturn))
  | .tickRead => some (s.setMode cpu (.tickStore s.gpSeq))
  | .tickStore seq => some ((s.storeSeen cpu seq).setMode cpu .irqReturn)
  | .irqReturn =>
    if s.preemptCount cpu = 0 ∧ s.needResched cpu = true then
      some (s.callSchedule cpu true .irq)
    else
      some (s.setMode cpu .task)
  | .enter preemptive =>
    if s.preemptCount cpu = 0 then
      some ((s.storeNeedResched cpu false).setMode cpu .pick)
    else if preemptive = true then
      some (s.leaveSchedule cpu)
    else
      none
  | .pick =>
    if cfg.cpuOf chosen = cpu then
      if chosen = t then some (s.leaveSchedule cpu)
      else some (s.setMode cpu (.noteTest chosen))
    else
      none
  | .noteTest next =>
    some (s.setMode cpu
      (if 0 < s.nesting t then .notePreemptDisable next else .noteRead next))
  | .noteRead next => some (s.setMode cpu (.noteStore next s.gpSeq))
  | .noteStore next seq => some ((s.storeSeen cpu seq).setMode cpu (.switch next))
  | .notePreemptDisable next =>
    some ((s.preemptDisable cpu).setMode cpu (.noteSpin next))
  | .noteSpin next => s.spinLock.map fun locked => locked.setMode cpu (.noteList next)
  | .noteList next =>
    if s.rcuBlocked t then
      some (s.setMode cpu (.noteSpinRelease next))
    else
      some (((s.listAdd t).storeBlocked t true).setMode cpu (.noteSpinRelease next))
  | .noteSpinRelease next => some (s.spinUnlock.setMode cpu (.notePreemptEnable next))
  | .notePreemptEnable next =>
    (s.setMode cpu (.switch next)).preemptEnable cpu (.note next)
  | .switch next => some ((s.storeCurrent cpu next).leaveSchedule cpu)

/-- A call by the current thread of `cpu`, in task code outside RCU. Only a thread inside a
section unlocks. -/
def execCall (s : State Thread) (cpu : Nat) : Call → Option (State Thread)
  | .rcuReadLock =>
    some (s.setPc (s.current cpu) (.lockStore (s.nesting (s.current cpu))))
  | .rcuReadUnlock =>
    if 0 < s.nesting (s.current cpu) then
      some (s.setPc (s.current cpu) (.unlockStore (s.nesting (s.current cpu))))
    else
      none
  | .synchronizeRcu => some (s.setPc (s.current cpu) .syncIncrement)
  | .schedule => some (s.callSchedule cpu false .task)
  | .preemptDisable => some (s.preemptDisable cpu)
  | .preemptEnable => s.preemptEnable cpu .task

/-- One move of the machine.  The scheduler runs only on CPUs that exist. -/
def step (cfg : Config Thread) (s : State Thread) : Action Thread → Option (State Thread)
  | .call cpu call =>
    if cfg.hasCpu cpu ∧ s.mode cpu = .task ∧
        s.pc (s.current cpu) = .user then
      execCall s cpu call
    else
      none
  | .exec cpu chosen stalled =>
    if cfg.hasCpu cpu then
      if s.mode cpu = .task then execTask cfg s cpu stalled
      else execKernel cfg s cpu chosen
    else
      none
  | .tick cpu resched =>
    if cfg.hasCpu cpu ∧ s.mode cpu = .task ∧
        (s.pc (s.current cpu)).irqsOff = false then
      some ((s.storeNeedResched cpu (resched || s.needResched cpu)).setMode cpu .tickTest)
    else
      none
  | .kick cpu => some (s.storeNeedResched cpu true)

/-- Boot state: no grace period, no section, every CPU in the task code of a
thread pinned to it. -/
def bootState (current : Nat → Thread) : State Thread where
  gpSeq := 0
  blockedLock := false
  blockedTasks := []
  current := current
  gpSeqSeen := fun _ => 0
  needResched := fun _ => false
  preemptCount := fun _ => 0
  mode := fun _ => .task
  nesting := fun _ => 0
  rcuBlocked := fun _ => false
  pc := fun _ => .user
  frames := fun _ => []
  gpStarted := 0
  sectionGp := fun _ => 0

def system (cfg : Config Thread) : TransitionSystem (State Thread) (Action Thread) where
  initial s := ∃ current : Nat → Thread,
    (∀ cpu, cfg.hasCpu cpu → cfg.cpuOf (current cpu) = cpu) ∧ s = bootState current
  step := step cfg

end LaOS.Rcu
