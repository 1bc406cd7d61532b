import LaOS.FirstFit
import LaOS.TransitionSystem
import LaOS.VmmLookup

/-!
# The address space of a user thread

An embedding of `kernel/vma.c`, of `do_mmap` and `do_munmap` in
`kernel/arch/x86_64/syscall.c` and of `page_fault_handler`.  Whether `kmalloc` succeeds
is an argument, and the frames come from the answers of the machine.
-/

namespace LaOS.UserSpace

open Vmm

def userMmapBase : Word := 0x04000000

def userMmapEnd : Word := 0x10000000

/-- `struct vma`. -/
structure Vma where
  start : Word
  stop : Word
  prot : BitVec 32
  flags : BitVec 32
  deriving DecidableEq

/-- The insertion into the list that `vma_alloc` performs. -/
def vmaInsert (vma : Vma) (vmas : List Vma) : List Vma :=
  FirstFit.insertRegion (fun vma => vma.start.toNat) vma vmas

def vmaFind (addr : Word) (vmas : List Vma) : Option Vma :=
  vmas.find? fun vma => addr ≥ vma.start ∧ addr < vma.stop

def Vma.isExactly (start length : Word) (vma : Vma) : Bool :=
  vma.start = start ∧ vma.stop = start + length

/-- `vma_free`.  The result is whether it returned 0. -/
def vmaFree (start length : Word) (vmas : List Vma) : Bool × List Vma :=
  (vmas.any (Vma.isExactly start length), vmas.eraseP (Vma.isExactly start length))

def roundUp (length : Word) : Word := (length + 4095) &&& ~~~4095

/-- The loop of `vma_find_free`. -/
def vmaScan (length : Word) : Word → List Vma → Word
  | cursor, [] => if cursor + length ≤ userMmapEnd then cursor else 0
  | cursor, vma :: vmas =>
    if cursor + length ≤ vma.start ∧ cursor < userMmapEnd then cursor
    else if vma.stop ≥ userMmapEnd then 0
    else vmaScan length vma.stop vmas

def vmaFindFree (length : Word) (vmas : List Vma) : Word :=
  vmaScan (roundUp length) userMmapBase vmas

structure Space where
  machine : Machine
  vmas : List Vma

def protWrite : Word := 2

def protExec : Word := 4

def mapPrivate : BitVec 32 := 0x02

def mapAnonymous : BitVec 32 := 0x20

def mapLazy : Word := 0x100

def pageFlags (prot : Word) : Word :=
  ptePresent ||| pteUser ||| (if prot &&& protWrite ≠ 0 then pteWritable else 0) |||
    (if prot &&& protExec ≠ 0 then 0 else pteNx)

section

variable (root : Frame)

/-- A frame is allocated and mapped, and freed again when that fails, as in `do_mmap`,
`page_fault_demand` and `setup_user_stack`. The result is the frame, or 0. -/
def mapFresh (vaddr flags : Word) (m : Machine) : Except Panic (Frame × Machine) :=
  let (phys, m) := pmmAlloc m
  if phys = 0 then .ok (0, m)
  else
    match vmmMapUser root vaddr (frameAddr phys) flags m with
    | .error reason => .error reason
    | .ok (true, m) => .ok (phys, m)
    | .ok (false, m) =>
      match pmmFree phys m with
      | .error reason => .error reason
      | .ok m => .ok (0, m)

/-- The loop of `do_mmap` that maps pages. The result is the page at which it stopped, if it did
not map all. -/
def populate (root : Frame) (flags : Word) :
    Nat → Word → Machine → Except Panic (Option Word × Machine)
  | 0, _, m => .ok (none, m)
  | pages + 1, cursor, m =>
    match mapFresh root cursor flags m with
    | .error reason => .error reason
    | .ok (phys, m) =>
      if phys = 0 then .ok (some cursor, m)
      else populate root flags pages (cursor + 0x1000) m

def releasePage (va : Word) (m : Machine) : Except Panic Machine :=
  match vmmGetPhys root va m with
  | .error reason => .error reason
  | .ok raw =>
    let phys := frameOf (raw &&& pteAddrMask)
    let m := (vmmUnmap root va m).2
    if phys = 0 then .ok m else pmmFree phys m

/-- The loops of `do_mmap` and `do_munmap` that unmap pages. -/
def release (root : Frame) : Nat → Word → Machine → Except Panic Machine
  | 0, _, m => .ok m
  | pages + 1, va, m =>
    match releasePage root va m with
    | .error reason => .error reason
    | .ok m => release root pages (va + 0x1000) m

def maxWord : Word := 0xffffffffffffffff

/-- The region that `do_mmap` registers. -/
def mmapRegion (vaddr length prot flags : Word) : Vma where
  start := vaddr
  stop := vaddr + length
  prot := prot.setWidth 32
  flags := mapAnonymous ||| mapPrivate ||| flags.setWidth 32

/-- `do_mmap`, with the result of the `kmalloc` in `vma_alloc`. -/
def doMmap (length prot flags : Word) (kmallocOk : Bool) (space : Space) :
    Except Panic (Word × Space) :=
  if root = 0 then .ok (0, space)
  else if length > maxWord - 4095 then .ok (0, space)
  else
    let length := roundUp length
    if length = 0 then .ok (0, space)
    else
      let vaddr := vmaFindFree length space.vmas
      if vaddr = 0 ∨ vaddr > maxWord - length then .ok (0, space)
      else if kmallocOk = false then .ok (0, space)
      else
        let vmas := vmaInsert (mmapRegion vaddr length prot flags) space.vmas
        if flags &&& mapLazy ≠ 0 then .ok (vaddr, { space with vmas })
        else
          match populate root (pageFlags prot) (length.toNat / 4096) vaddr space.machine with
          | .error reason => .error reason
          | .ok (none, m) => .ok (vaddr, { machine := m, vmas })
          | .ok (some cursor, m) =>
            match release root ((cursor - vaddr).toNat / 4096) vaddr m with
            | .error reason => .error reason
            | .ok m => .ok (0, { machine := m, vmas := (vmaFree vaddr length vmas).2 })

/-- `do_munmap`.  The result is whether it returned 0. -/
def doMunmap (addr length : Word) (space : Space) : Except Panic (Bool × Space) :=
  if root = 0 then .ok (false, space)
  else
    let length := roundUp length
    if length = 0 then .ok (false, space)
    else
      let addr := addr &&& ~~~4095
      if length > maxWord - addr then .ok (false, space)
      else
        match vmaFind addr space.vmas with
        | none => .ok (false, space)
        | some vma =>
          if vma.start ≠ addr ∨ vma.stop ≠ addr + length then .ok (false, space)
          else
            match release root (length.toNat / 4096) addr space.machine with
            | .error reason => .error reason
            | .ok m =>
              let (found, vmas) := vmaFree addr length space.vmas
              .ok (found, { machine := m, vmas })

def demandFlags : Option Vma → Word
  | none => ptePresent ||| pteUser
  | some vma => pageFlags (vma.prot.setWidth 64)

/-- `page_fault_demand`.  The result is whether it returned 0. -/
def pageFaultDemand (vaddr : Word) (space : Space) : Except Panic (Bool × Space) :=
  let vaddr := vaddr &&& ~~~4095
  match vmmIsMapped root vaddr space.machine with
  | .error reason => .error reason
  | .ok true => .ok (true, space)
  | .ok false =>
    match mapFresh root vaddr (demandFlags (vmaFind vaddr space.vmas)) space.machine with
    | .error reason => .error reason
    | .ok (phys, m) => .ok (decide (phys ≠ 0), { space with machine := m })

/-- `page_fault_handler` for a fault in user mode. The result is whether the thread goes on. -/
def pageFaultHandler (cr2 errorCode : Word) (space : Space) : Except Panic (Bool × Space) :=
  if space.vmas = [] then .ok (false, space)
  else if (vmaFind cr2 space.vmas).isNone then .ok (false, space)
  else if errorCode &&& 1 = 0 then pageFaultDemand root cr2 space
  else .ok (false, space)

structure Process where
  space : Space
  killed : Bool

/-- What a thread may cause: system calls and faults.  `page_fault_demand` may
also be called directly. -/
inductive Call
  | mmap (length prot flags : Word) (kmallocOk : Bool)
  | munmap (addr length : Word)
  | demand (vaddr : Word)
  | fault (cr2 errorCode : Word)

def Call.perform (space : Space) : Call → Except Panic (Bool × Space)
  | .mmap length prot flags kmallocOk =>
    (doMmap root length prot flags kmallocOk space).map fun result => (true, result.2)
  | .munmap addr length => (doMunmap root addr length space).map fun result => (true, result.2)
  | .demand vaddr => (pageFaultDemand root vaddr space).map fun result => (true, result.2)
  | .fault cr2 errorCode => pageFaultHandler root cr2 errorCode space

/-- A call of a thread that has not been killed.  A panic ends the run. -/
def step (process : Process) (call : Call) : Option Process :=
  if process.killed then none
  else
    match call.perform root process.space with
    | .error _ => none
    | .ok (goesOn, space) => some { space, killed := !goesOn }

def system (first : Process → Prop) : TransitionSystem Process Call where
  initial := first
  step := step root

end

end LaOS.UserSpace
