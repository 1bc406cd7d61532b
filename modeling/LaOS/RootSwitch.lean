import LaOS.RunqueueMachine

/-!
# The page-table roots of the CPUs

`__switch_mm` on top of the machine of the queues.  The idle threads pass what they take
from the zombie queues to `thread_destroy`, which frees the root.  The `spin_unlock`
inside `rcu_note_context_switch`, before `__switch_mm`, ends in `preempt_enable`, so an
activation of `__schedule` can be interrupted by another one of the same thread.
-/

namespace LaOS.RootSwitch

open Function
open Runqueue (Config)

/-- `root` is `pml4_phys` and `active` is `active_pml4_phys`. `switched`: `__switch_mm` has been
called by the activation that is about to store `current`. `outer` are the choices of
interrupted activations, the innermost first, and `taken` the frames handed out as roots. -/
structure State (Cpu Agent Thread Root : Type) where
  sched : Runqueue.State Cpu Agent Thread
  root : Thread → Option Root
  active : Cpu → Option Root
  switched : Cpu → Bool
  outer : Thread → List Thread
  destroying : Thread → Bool
  freed : Thread → Bool
  taken : Root → Bool

/-- Moves of the queue machine, and those that concern roots. -/
inductive Action (Cpu Agent Thread Root : Type)
  | sched (action : Runqueue.Action Cpu Agent Thread)
  | switchMm (cpu : Cpu)
  | interrupt (cpu : Cpu)
  | resume (cpu : Cpu)
  | createUser (t : Thread) (root : Root)
  | discard (t : Thread)
  | freeRoot (t : Thread)
  deriving DecidableEq

variable {Cpu Agent Thread Root : Type} [DecidableEq Cpu] [DecidableEq Agent]
  [DecidableEq Thread] [DecidableEq Root]

def zombieTail (sched : Runqueue.State Cpu Agent Thread) (cpu : Cpu) : Option Thread :=
  let zombies := sched.queue (.zombie, cpu)
  if zombies.count = 0 then none
  else zombies.ranks.head?.bind fun rank => (zombies.heads rank).getLast?

/-- `thread_destroy` begins. -/
def beginDestroy (s : State Cpu Agent Thread Root) (t : Thread) :
    State Cpu Agent Thread Root :=
  { s with destroying := update s.destroying t true }

/-- Whether the queue machine may move. `current` is stored after `__switch_mm`, and a thread
acts outside `__schedule` when none of its activations is interrupted. -/
def mayTake (s : State Cpu Agent Thread Root) : Runqueue.Action Cpu Agent Thread → Bool
  | .exec (.cpu cpu) =>
    match s.sched.pc (.cpu cpu) with
    | .setCurrent _ => s.switched cpu
    | _ => true
  | .callSchedule cpu | .block cpu | .sleep cpu _ | .exit cpu | .reap cpu =>
    (s.outer (s.sched.current cpu)).isEmpty
  | .callEnqueue _ t _ => !s.destroying t
  | _ => true

/-- A move of the queue machine that leads to `sched`. -/
def afterSched (s : State Cpu Agent Thread Root) (sched : Runqueue.State Cpu Agent Thread) :
    Runqueue.Action Cpu Agent Thread → State Cpu Agent Thread Root
  | .exec (.cpu cpu) => { s with sched, switched := update s.switched cpu false }
  | .reap cpu =>
    match zombieTail s.sched cpu with
    | some t => beginDestroy { s with sched } t
    | none => { s with sched }
  | _ => { s with sched }

/-- `__switch_mm`.  Its tests of what is loaded only save reloading the same root. -/
def switchMm (kernelRoot : Root) (s : State Cpu Agent Thread Root) (cpu : Cpu)
    (next : Thread) : State Cpu Agent Thread Root :=
  let loaded :=
    match s.root next with
    | some root => some root
    | none =>
      if s.sched.status (s.sched.current cpu) = .zombie then some kernelRoot
      else s.active cpu
  { s with
    active := update s.active cpu loaded
    switched := update s.switched cpu true }

/-- A thread that has not been enqueued yet, and that no CPU booted with. -/
def isNew (cfg : Config Cpu Thread) (s : State Cpu Agent Thread Root) (t : Thread) :
    Bool :=
  s.sched.node t = .fresh ∧ t ≠ s.sched.current (cfg.home t) ∧
    t ≠ cfg.idle (cfg.home t)

def step (cfg : Config Cpu Thread) (kernelRoot : Root) (s : State Cpu Agent Thread Root) :
    Action Cpu Agent Thread Root → Option (State Cpu Agent Thread Root)
  | .sched action =>
    if mayTake s action then
      (Runqueue.step cfg s.sched action).map fun sched => afterSched s sched action
    else
      none
  | .switchMm cpu =>
    match s.sched.pc (.cpu cpu) with
    | .setCurrent next =>
      if s.switched cpu then none else some (switchMm kernelRoot s cpu next)
    | _ => none
  | .interrupt cpu =>
    match s.sched.pc (.cpu cpu) with
    | .setCurrent next =>
      if s.switched cpu then none
      else
        let prev := s.sched.current cpu
        some { s with
          sched := s.sched.goto (.cpu cpu) .zombieTest
          outer := update s.outer prev (next :: s.outer prev) }
    | _ => none
  | .resume cpu =>
    match s.sched.pc (.cpu cpu), s.outer (s.sched.current cpu) with
    | .idle, next :: rest =>
      some { s with
        sched := s.sched.goto (.cpu cpu) (.setCurrent next)
        outer := update s.outer (s.sched.current cpu) rest }
    | _, _ => none
  | .createUser t root =>
    if isNew cfg s t ∧ s.root t = none ∧ s.destroying t = false ∧
        s.taken root = false then
      some { s with
        root := update s.root t (some root)
        taken := update s.taken root true }
    else
      none
  | .discard t => if isNew cfg s t then some (beginDestroy s t) else none
  | .freeRoot t =>
    match s.root t with
    | some root =>
      if s.destroying t = true ∧ s.freed t = false then
        some { s with
          freed := update s.freed t true
          taken := update s.taken root false }
      else
        none
    | none => none

def bootState (kernelRoot : Root) (boot : Cpu → Thread)
    (priority : Thread → Sched.Priority) : State Cpu Agent Thread Root where
  sched := Runqueue.bootState boot priority
  root := fun _ => none
  active := fun _ => none
  switched := fun _ => false
  outer := fun _ => []
  destroying := fun _ => false
  freed := fun _ => false
  taken := fun root => root = kernelRoot

def system (cfg : Config Cpu Thread) (kernelRoot : Root) :
    TransitionSystem (State Cpu Agent Thread Root) (Action Cpu Agent Thread Root) where
  initial s := ∃ boot priority, (∀ cpu, cfg.home (boot cpu) = cpu) ∧
    (∀ cpu, boot cpu ≠ cfg.idle cpu) ∧ s = bootState kernelRoot boot priority
  step := step cfg kernelRoot

end LaOS.RootSwitch
