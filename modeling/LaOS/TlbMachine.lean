import LaOS.TransitionSystem
import LaOS.VmmMap

/-!
# TLBs and the shootdown of translations

An embedding of `vmm_unmap`, `vmm_remap`, `vmm_map` and `module_alloc_rollback` on the
kernel's page table, with `ipi_broadcast` and the handler of `IPI_VECTOR_TLB`.  A cached
translation carries the number of changes that the page table had seen, which is not
part of the program.
-/

namespace LaOS.Tlb

open Vmm Function

structure Cached where
  page : BitVec 36
  translation : Translation
  epoch : Nat
  deriving DecidableEq

inductive Call
  | map (vaddr paddr flags : Word)
  | remap (vaddr paddr flags : Word)
  | unmap (vaddr : Word)
  deriving DecidableEq

namespace Call

def vaddr : Call → Word
  | map vaddr _ _ => vaddr
  | remap vaddr _ _ => vaddr
  | unmap vaddr => vaddr

/-- The changes that make older translations of the page invalid. -/
def replaces : Call → Bool
  | map _ _ _ => false
  | remap _ _ _ => true
  | unmap _ => true

/-- `vmm_unmap` broadcasts when it returns 0, `vmm_remap` always. -/
def broadcasts (succeeded : Bool) : Call → Bool
  | map _ _ _ => false
  | remap _ _ _ => true
  | unmap _ => succeeded

/-- The part of a call under `vmm_lock`, up to the flush. -/
def perform (root : Frame) (m : Machine) : Call → Except Panic (Bool × Machine)
  | map vaddr paddr flags => vmmMap root vaddr paddr flags m
  | remap vaddr paddr flags => vmmRemap root vaddr paddr flags m
  | unmap vaddr => .ok (vmmUnmap root vaddr m)

end Call

/-- `struct module_alloc_checkpoint`. -/
structure Checkpoint where
  brk : Word
  mapped : Word
  deriving DecidableEq

/-- The variables of the loop in `module_alloc_rollback`, and whether interrupts were disabled
before `module_lock`. -/
structure Rollback where
  va : Word
  unmapEnd : Word
  wasMasked : Bool
  deriving DecidableEq

/-- Where a call returns to: its caller, or the loop of `module_alloc_rollback` with the address
it has looked up. -/
inductive Return
  | caller
  | rollback (loop : Rollback) (phys : Word)
  deriving DecidableEq

/-- The position of a thread.  The outcome of a call is the number of its change
when it returns 0. -/
inductive Phase
  | idle
  | entering (call : Call) (ret : Return)
  | locking (call : Call) (ret : Return) (wasMasked : Bool)
  | changing (call : Call) (ret : Return) (wasMasked : Bool)
  | flushing (call : Call) (ret : Return) (wasMasked : Bool) (outcome : Option Nat)
  | unlocking (call : Call) (ret : Return) (wasMasked : Bool) (outcome : Option Nat)
  | broadcasting (call : Call) (ret : Return) (outcome : Option Nat)
  | returning (call : Call) (ret : Return) (outcome : Option Nat)
  | rollbackEntering (checkpoint : Checkpoint)
  | rollbackLocking (checkpoint : Checkpoint) (wasMasked : Bool)
  | rollbackChecking (checkpoint : Checkpoint) (wasMasked : Bool)
  | rollbackLoop (loop : Rollback)
  | freeing (loop : Rollback) (phys : Word) (outcome : Option Nat)
  | rollbackUnlocking (wasMasked : Bool)
  deriving DecidableEq

structure ModuleRegion where
  base : Word
  brk : Word
  mapped : Word
  deriving DecidableEq

structure Change where
  page : BitVec 36
  epoch : Nat
  deriving DecidableEq

structure State (Cpu Thread : Type) where
  machine : Machine
  region : ModuleRegion
  epoch : Nat
  tlb : Cpu → List Cached
  /-- The TLB interrupt was sent to the processor and is not handled. -/
  pending : Cpu → Bool
  /-- The thread that runs with interrupts disabled. -/
  masked : Cpu → Option Thread
  vmmLock : Option Thread
  moduleLock : Option Thread
  phase : Thread → Phase
  returned : List Change
  released : List (Frame × Change)
  panicked : Bool

inductive Action (Cpu Thread : Type)
  | call (t : Thread) (call : Call)
  | rollback (t : Thread) (checkpoint : Checkpoint)
  | advance (t : Thread) (answers : List Frame)
  | disable (t : Thread)
  | enable (t : Thread)
  | fill (cpu : Cpu) (vaddr : Word)
  | handle (cpu : Cpu)
  deriving DecidableEq

def Action.mover {Cpu Thread : Type} : Action Cpu Thread → Option Thread
  | .advance t _ => some t
  | _ => none

section Machine

variable {Cpu Thread : Type} [DecidableEq Cpu] [DecidableEq Thread]

namespace State

variable (s : State Cpu Thread) (t : Thread) (cpu : Cpu)

def setPhase (phase : Phase) : State Cpu Thread :=
  { s with phase := update s.phase t phase }

/-- `arch_local_irq_save`. -/
def mask : State Cpu Thread :=
  { s with masked := update s.masked cpu (some t) }

/-- `arch_local_irq_restore`. -/
def restore (wasMasked : Bool) : State Cpu Thread :=
  { s with
    masked := update s.masked cpu (if wasMasked then some t else none) }

/-- `invlpg` on one processor. -/
def flushOne (vaddr : Word) : State Cpu Thread :=
  { s with
    tlb := update s.tlb cpu
      ((s.tlb cpu).filter fun cached => cached.page ≠ pageOf vaddr) }

/-- `arch_tlb_flush_all` on one processor. -/
def flushAll : State Cpu Thread :=
  { s with tlb := update s.tlb cpu [] }

/-- `ipi_broadcast`: the interrupt is sent to all other processors. -/
def broadcast : State Cpu Thread :=
  { s with pending := fun other => s.pending other || other ≠ cpu }

def panic : State Cpu Thread := { s with panicked := true }

end State

/-- `module_alloc_rollback` after `module_lock` was taken. -/
def checkRollback (s : State Cpu Thread) (t : Thread) (cpu : Cpu)
    (checkpoint : Checkpoint) (wasMasked : Bool) : State Cpu Thread :=
  let region := s.region
  if checkpoint.brk < region.base ∨ checkpoint.brk > region.brk ∨
      checkpoint.mapped < region.base ∨ checkpoint.mapped > region.mapped ∨
      checkpoint.mapped < checkpoint.brk then
    (({ s with moduleLock := none } : State Cpu Thread).restore t cpu wasMasked).setPhase
      t .idle
  else
    ({ s with region := { region with brk := checkpoint.brk, mapped := checkpoint.mapped } } :
      State Cpu Thread).setPhase t (.rollbackLoop ⟨checkpoint.mapped, region.mapped, wasMasked⟩)

def advance (root : Frame) (s : State Cpu Thread) (t : Thread) (cpu : Cpu)
    (answers : List Frame) : Option (State Cpu Thread) :=
  match s.phase t with
  | .idle => none
  | .entering call ret =>
    some ((s.mask t cpu).setPhase t (.locking call ret (s.masked cpu).isSome))
  | .locking call ret wasMasked =>
    if s.vmmLock = none then
      some (({ s with vmmLock := some t } : State Cpu Thread).setPhase t
        (.changing call ret wasMasked))
    else none
  | .changing call ret wasMasked =>
    match call.perform root { s.machine with answers } with
    | .error _ => some s.panic
    | .ok (false, m) =>
      some (({ s with machine := m, epoch := s.epoch + 1 } : State Cpu Thread).setPhase
        t (.unlocking call ret wasMasked none))
    | .ok (true, m) =>
      some (({ s with machine := m, epoch := s.epoch + 1 } : State Cpu Thread).setPhase
        t (.flushing call ret wasMasked (some (s.epoch + 1))))
  | .flushing call ret wasMasked outcome =>
    some ((s.flushOne cpu call.vaddr).setPhase t (.unlocking call ret wasMasked outcome))
  | .unlocking call ret wasMasked outcome =>
    some ((({ s with vmmLock := none } : State Cpu Thread).restore t cpu
      wasMasked).setPhase t
        (if call.broadcasts outcome.isSome then .broadcasting call ret outcome
        else .returning call ret outcome))
  | .broadcasting call ret outcome =>
    some ((s.broadcast cpu).setPhase t (.returning call ret outcome))
  | .returning call ret outcome =>
    let returned := match outcome with
      | some epoch => if call.replaces then [⟨pageOf call.vaddr, epoch⟩] else []
      | none => []
    some (({ s with returned := returned ++ s.returned } : State Cpu Thread).setPhase
      t (match ret with
        | .caller => .idle
        | .rollback loop phys => .freeing loop phys outcome))
  | .rollbackEntering checkpoint =>
    some ((s.mask t cpu).setPhase t
      (.rollbackLocking checkpoint (s.masked cpu).isSome))
  | .rollbackLocking checkpoint wasMasked =>
    if s.moduleLock = none then
      some (({ s with moduleLock := some t } : State Cpu Thread).setPhase t
        (.rollbackChecking checkpoint wasMasked))
    else none
  | .rollbackChecking checkpoint wasMasked =>
    some (checkRollback s t cpu checkpoint wasMasked)
  | .rollbackLoop loop =>
    if loop.va < loop.unmapEnd then
      match vmmGetPhys root loop.va s.machine with
      | .error _ => some s.panic
      | .ok phys =>
        if phys ≠ 0 then
          some (s.setPhase t (.entering (.unmap loop.va) (.rollback loop phys)))
        else some (s.setPhase t (.rollbackLoop { loop with va := loop.va + 0x1000 }))
    else some (s.setPhase t (.rollbackUnlocking loop.wasMasked))
  | .freeing loop phys outcome =>
    match pmmFree (frameOf phys) s.machine with
    | .error _ => some s.panic
    | .ok m =>
      let change : Change := ⟨pageOf loop.va, outcome.getD s.epoch⟩
      some (({ s with
        machine := m, released := (frameOf phys, change) :: s.released } :
          State Cpu Thread).setPhase t (.rollbackLoop { loop with va := loop.va + 0x1000 }))
  | .rollbackUnlocking wasMasked =>
    some ((({ s with moduleLock := none } : State Cpu Thread).restore t cpu
      wasMasked).setPhase t .idle)

/-- Whether a thread can run: another one may not have disabled interrupts on its
processor. -/
def State.CanRun (s : State Cpu Thread) (t : Thread) (cpu : Cpu) : Prop :=
  s.masked cpu = none ∨ s.masked cpu = some t

instance (s : State Cpu Thread) (t : Thread) (cpu : Cpu) :
    Decidable (s.CanRun t cpu) :=
  inferInstanceAs (Decidable (_ ∨ _))

def step (root : Frame) (home : Thread → Cpu) (s : State Cpu Thread)
    (action : Action Cpu Thread) : Option (State Cpu Thread) :=
  if s.panicked then none
  else
    match action with
    | .call t call =>
      if s.CanRun t (home t) ∧ s.phase t = .idle then
        some (s.setPhase t (.entering call .caller))
      else none
    | .rollback t checkpoint =>
      if s.CanRun t (home t) ∧ s.phase t = .idle then
        some (s.setPhase t (.rollbackEntering checkpoint))
      else none
    | .advance t answers =>
      if s.CanRun t (home t) then
        advance root s t (home t) answers
      else none
    | .disable t =>
      if s.CanRun t (home t) ∧ s.phase t = .idle then
        some (s.mask t (home t))
      else none
    | .enable t =>
      if s.CanRun t (home t) ∧ s.phase t = .idle then
        some (s.restore t (home t) false)
      else none
    | .fill cpu vaddr =>
      (translate s.machine.memory root vaddr).map fun translation =>
        { s with
          tlb := update s.tlb cpu
            (⟨pageOf vaddr, translation, s.epoch⟩ :: s.tlb cpu) }
    | .handle cpu =>
      if s.pending cpu = true ∧ s.masked cpu = none then
        some (({ s with pending := update s.pending cpu false } :
          State Cpu Thread).flushAll cpu)
      else none

/-- All threads are idle, and the TLBs hold any translations from before. -/
structure Initial (s : State Cpu Thread) : Prop where
  idle : ∀ t, s.phase t = .idle
  unlocked : s.vmmLock = none ∧ s.moduleLock = none
  unmasked : ∀ cpu, s.masked cpu = none
  older : ∀ cpu, ∀ cached ∈ s.tlb cpu, cached.epoch ≤ s.epoch
  returned : s.returned = []
  released : s.released = []
  running : s.panicked = false

/-- The machine on the kernel's page table at `root`, with every thread on its
home processor. -/
def system (root : Frame) (home : Thread → Cpu) :
    TransitionSystem (State Cpu Thread) (Action Cpu Thread) where
  initial := Initial
  step := step root home

end Machine

end LaOS.Tlb
