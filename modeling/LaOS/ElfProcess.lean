import LaOS.BlockLedger
import LaOS.UserSpace
import LaOS.WordBytes

/-!
# Creating a process from an ELF image

An embedding of `create_elf_process` in `kernel/elf_loader.c` and of what it calls in
`kernel/elf.c`, `kernel/vmm.c` and `kernel/thread.c`.  The image is a list of bytes,
and the fields of its headers are numbers; the checks on them exclude overflow.
-/

namespace LaOS.UserSpace

open Vmm WordBytes

/-- The number that is stored at an offset of the image. -/
def field (image : List Byte) (offset : Nat) : Nat → Nat
  | 0 => 0
  | size + 1 => (image.getD offset 0).toNat + 256 * field image (offset + 1) size

/-- The fields of `Elf64_Ehdr` that are used. -/
structure Ehdr where
  ident : Nat → Nat
  type : Nat
  machine : Nat
  entry : Nat
  phoff : Nat
  shoff : Nat
  ehsize : Nat
  phentsize : Nat
  phnum : Nat

def ehdrOf (image : List Byte) : Ehdr where
  ident index := field image index 1
  type := field image 16 2
  machine := field image 18 2
  entry := field image 24 8
  phoff := field image 32 8
  shoff := field image 40 8
  ehsize := field image 52 2
  phentsize := field image 54 2
  phnum := field image 56 2

def sizeofEhdr : Nat := 64

def sizeofPhdr : Nat := 56

def etRel : Nat := 1

def etExec : Nat := 2

def emX8664 : Nat := 62

def emAarch64 : Nat := 183

/-- `elf_check`.  The result is whether it returned 0. -/
def elfCheck (header : Ehdr) : Bool :=
  if header.ident 0 ≠ 0x7f ∨ header.ident 1 ≠ 0x45 ∨ header.ident 2 ≠ 0x4c ∨
      header.ident 3 ≠ 0x46 then false
  else if header.ident 4 ≠ 2 then false
  else if header.ident 5 ≠ 1 then false
  else if header.ident 6 ≠ 1 then false
  else if header.type ≠ etExec ∧ header.type ≠ etRel then false
  else if header.machine ≠ emX8664 ∧ header.machine ≠ emAarch64 then false
  else if header.ehsize ≠ sizeofEhdr then false
  else if header.type = etExec ∧ header.phoff = 0 then false
  else if header.type = etRel ∧ header.shoff = 0 then false
  else true

/-- The fields of `Elf64_Phdr` that are used. -/
structure Phdr where
  type : Nat
  flags : Nat
  offset : Nat
  vaddr : Nat
  filesz : Nat
  memsz : Nat
  deriving DecidableEq

def phdrAt (image : List Byte) (start : Nat) : Phdr where
  type := field image start 4
  flags := field image (start + 4) 4
  offset := field image (start + 8) 8
  vaddr := field image (start + 16) 8
  filesz := field image (start + 32) 8
  memsz := field image (start + 40) 8

def ptLoad : Nat := 1

/-- The segments to load, in the order of the program headers. -/
def loads (image : List Byte) : List Phdr :=
  ((List.range (ehdrOf image).phnum).map fun i =>
    phdrAt image ((ehdrOf image).phoff + i * sizeofPhdr)).filter fun ph => ph.type = ptLoad

def userStackTop : Nat := 0x7ffffffff000

def Phdr.accepted (size : Nat) (ph : Phdr) : Bool :=
  !(ph.filesz > ph.memsz ∨ ph.offset > size ∨ ph.filesz > size - ph.offset ∨
    ph.vaddr ≥ userStackTop ∨ ph.memsz > userStackTop - ph.vaddr : Bool)

def Phdr.executable (ph : Phdr) : Bool := ph.flags.testBit 0

def Phdr.writable (ph : Phdr) : Bool := ph.flags.testBit 1

/-- The checks on the image that `create_elf_process` makes before it allocates
anything. -/
def imageAccepted (image : List Byte) : Bool :=
  let header := ehdrOf image
  if image.length < sizeofEhdr then false
  else if !elfCheck header ∨ header.type ≠ etExec ∨ header.phentsize ≠ sizeofPhdr ∨
      header.phnum = 0 ∨ header.phoff > image.length ∨
      header.phnum > (image.length - header.phoff) / sizeofPhdr then false
  else if header.machine ≠ emX8664 then false
  else
    (loads image).all (Phdr.accepted image.length) &&
      (loads image).any fun ph =>
        ph.executable ∧ header.entry ≥ ph.vaddr ∧ header.entry - ph.vaddr < ph.memsz

/-- `size` bytes of a frame are written, from the byte `start` on. -/
def store (frame : Frame) (start size : Nat) (content : Nat → Byte) (m : Machine) : Machine :=
  m.fill frame fun index => ofBytes fun pos =>
    let offset := 8 * index.toNat + pos
    if start ≤ offset ∧ offset < start + size then content (offset - start)
    else byteOf (m.memory frame index) pos

def writeWords (frame : Frame) : Nat → List Word → Machine → Machine
  | _, [], m => m
  | index, word :: words, m =>
    writeWords frame (index + 1) words (m.write frame (BitVec.ofNat 9 index) word)

def Phdr.pageBase (ph : Phdr) : Nat := ph.vaddr / 4096 * 4096

def Phdr.pages (ph : Phdr) : Nat := (ph.vaddr + ph.memsz - ph.pageBase + 4095) / 4096

def Phdr.pteFlags (ph : Phdr) : Word :=
  ptePresent ||| (if ph.writable then pteWritable else 0) ||| pteUser |||
    (if ph.executable then 0 else pteNx)

def Phdr.pageVaddr (ph : Phdr) (i : Nat) : Nat := ph.pageBase + i * 4096

/-- The first byte of a segment in its page `i`. -/
def Phdr.copyStart (ph : Phdr) (i : Nat) : Nat := if i = 0 then ph.vaddr % 4096 else 0

/-- The bytes of a segment in its page `i`. -/
def Phdr.fillSize (ph : Phdr) (i : Nat) : Nat :=
  min (ph.vaddr + ph.memsz - (ph.pageVaddr i + ph.copyStart i)) (4096 - ph.copyStart i)

/-- The bytes of a segment in its page `i` that come from the image. -/
def Phdr.copySize (ph : Phdr) (i : Nat) : Nat :=
  min (ph.vaddr + ph.filesz - (ph.pageVaddr i + ph.copyStart i)) (ph.fillSize i)

/-- The contents of a segment are written to the frame of its page `i`. -/
def copyPage (image : List Byte) (ph : Phdr) (i : Nat) (phys : Frame) (m : Machine) :
    Machine :=
  store phys (ph.copyStart i) (ph.copySize i)
    (fun pos => image.getD
      (ph.offset + (ph.pageVaddr i + ph.copyStart i - ph.vaddr) + pos) 0)
    (store phys (ph.copyStart i) (ph.fillSize i) (fun _ => 0) m)

/-- The frame of a page of a segment. A new frame is used whether or not its mapping succeeds.
-/
def segmentFrame (root : Frame) (vaddr flags : Word) (m : Machine) :
    Except Panic (Frame × Machine) :=
  match vmmGetPhys root vaddr m with
  | .error reason => .error reason
  | .ok raw =>
    let phys := frameOf (raw &&& pteAddrMask)
    if phys = 0 then
      let (phys, m) := pmmAlloc m
      if phys = 0 then .ok (0, m)
      else
        match vmmMap root vaddr (frameAddr phys) flags m with
        | .error reason => .error reason
        | .ok (_, m) => .ok (phys, m)
    else .ok (phys, m)

/-- The loop of `elf_load_segment`, from page `i` on. -/
def loadPages (root : Frame) (image : List Byte) (ph : Phdr) :
    Nat → Nat → Machine → Except Panic (Bool × Machine)
  | 0, _, m => .ok (true, m)
  | pages + 1, i, m =>
    match segmentFrame root (BitVec.ofNat 64 (ph.pageVaddr i)) ph.pteFlags m with
    | .error reason => .error reason
    | .ok (phys, m) =>
      if phys = 0 then .ok (false, m)
      else loadPages root image ph pages (i + 1) (copyPage image ph i phys m)

def elfLoadSegment (root : Frame) (image : List Byte) (ph : Phdr) (m : Machine) :
    Except Panic (Bool × Machine) :=
  loadPages root image ph ph.pages 0 m

def loadSegments (root : Frame) (image : List Byte) :
    List Phdr → Machine → Except Panic (Bool × Machine)
  | [], m => .ok (true, m)
  | ph :: phs, m =>
    match elfLoadSegment root image ph m with
    | .error reason => .error reason
    | .ok (true, m) => loadSegments root image phs m
    | .ok (false, m) => .ok (false, m)

def stackPage : Word := BitVec.ofNat 64 (userStackTop - 4096)

def stackAddr (offset : Nat) : Word := BitVec.ofNat 64 (userStackTop - 4096 + offset)

/-- The strings are copied to the stack page downwards from `offset`; the result is the end of
the copy and the addresses, when they fit. -/
def copyStrings (phys : Frame) :
    List (List Byte) → Nat → List Word → Machine → Option (Nat × List Word) × Machine
  | [], offset, addresses, m => (some (offset, addresses), m)
  | string :: strings, offset, addresses, m =>
    let len := string.length + 1
    if len > offset then (none, m)
    else
      copyStrings phys strings (offset - len) (stackAddr (offset - len) :: addresses)
        (store phys (offset - len) len (fun pos => string.getD pos 0) m)

/-- The way out of `setup_user_stack` when the arguments do not fit. -/
def dropStack (root phys : Frame) (m : Machine) : Except Panic (Word × Machine) :=
  match pmmFree phys (vmmUnmap root stackPage m).2 with
  | .error reason => .error reason
  | .ok m => .ok (0, m)

/-- `setup_user_stack`, with the result of its `kmalloc`.  The arguments are
strings without their terminators. -/
def setupUserStack (root : Frame) (argv : List (List Byte)) (kmallocOk : Bool)
    (m : Machine) : Except Panic (Word × Machine) :=
  if argv.length < 1 then .ok (0, m)
  else
    match mapFresh root stackPage (ptePresent ||| pteWritable) m with
    | .error reason => .error reason
    | .ok (phys, m) =>
      if phys = 0 then .ok (0, m)
      else if kmallocOk = false then dropStack root phys m
      else
        match copyStrings phys argv.reverse 4096 [] m with
        | (none, m) => dropStack root phys m
        | (some (offset, addresses), m) =>
          let align := (userStackTop - 4096 + offset) % 8
          let cells := argv.length + 2
          if align > offset then dropStack root phys m
          else if cells > (offset - align) / 8 then dropStack root phys m
          else
            let offset := offset - align - cells * 8
            .ok (stackAddr offset, writeWords phys (offset / 8)
              (BitVec.ofNat 64 argv.length :: addresses ++ [0]) m)

/-- `vmm_create_user_pml4`, which goes on when there is no frame. -/
def vmmCreateUserPml4 (kernelPml4 : Frame) (m : Machine) : Frame × Machine :=
  let (root, m) := pmmAlloc m
  let m := m.fill root fun _ => 0
  (root, m.fill root fun index =>
    if index.toNat < 256 then m.memory root index else m.memory kernelPml4 index)

def pmmFreePages (frame : Frame) (count : Nat) (m : Machine) : Except Panic Machine :=
  if frame = 0 then .ok m
  else
    (List.range count).foldlM (fun m i => pmmFree (frame + BitVec.ofNat 40 i) m) m

def vmmDestroyLevel : Nat → Frame → Machine → Except Panic Machine
  | 0, table, m => pmmFree table m
  | level + 1, table, m => do
      let m ← (List.range (if level + 1 = 4 then 256 else 512)).foldlM
        (fun m i =>
          let entry := m.memory table (BitVec.ofNat 9 i)
          if !present entry then .ok m
          else if level + 1 = 1 then pmmFree (frameOf entry) m
          else if pteIsLeaf entry then
            pmmFreePages (frameOf entry) (if level + 1 = 3 then 2 ^ 18 else 512) m
          else vmmDestroyLevel level (frameOf entry) m) m
      pmmFree table m

/-- `thread_destroy`, as far as frames are concerned. -/
def threadDestroy (root : Frame) (m : Machine) : Except Panic Machine :=
  if root = 0 then .ok m else vmmDestroyLevel 4 root m

structure Grants where
  image : Bool
  thread : Bool
  arguments : Bool
  kernelStack : Bool

/-- `create_elf_process` gives up. -/
def discard (root : Frame) (m : Machine) : Except Panic (Option Frame × Machine) :=
  match threadDestroy root m with
  | .error reason => .error reason
  | .ok m => .ok (none, m)

/-- `create_elf_process`.  The result is the root of the page table of the new
process. -/
def createElfProcess (kernelPml4 : Frame) (image : List Byte) (argv : List (List Byte))
    (grants : Grants) (m : Machine) : Except Panic (Option Frame × Machine) :=
  if !imageAccepted image then .ok (none, m)
  else if !grants.image then .ok (none, m)
  else if !grants.thread then .ok (none, m)
  else
    let (root, m) := vmmCreateUserPml4 kernelPml4 m
    if root = 0 then discard root m
    else
      match loadSegments root image (loads image) m with
      | .error reason => .error reason
      | .ok (false, m) => discard root m
      | .ok (true, m) =>
        match setupUserStack root argv grants.arguments m with
        | .error reason => .error reason
        | .ok (userStack, m) =>
          if userStack = 0 then discard root m
          else if !grants.kernelStack then discard root m
          else .ok (some root, m)

open BlockLedger

/-- With the blocks of `kmalloc`, freeing one that is not live is a failure as well. -/
inductive Failure
  | panic (reason : Panic)
  | badFree

def kfree (block : Nat) (heap : Ledger) : Except Failure Ledger :=
  match free heap block with
  | none => .error .badFree
  | some heap => .ok heap

def orPanic {Result : Type} : Except Panic Result → Except Failure Result
  | .error reason => .error (.panic reason)
  | .ok result => .ok result

/-- `setup_user_stack` requests a block for the addresses of the arguments when it
has mapped the stack page. -/
def requestsAddresses (root : Frame) (argv : List (List Byte)) (m : Machine) :
    Except Failure Bool :=
  if argv.length < 1 then .ok false
  else do
    let (phys, _) ← orPanic (mapFresh root stackPage (ptePresent ||| pteWritable) m)
    .ok (decide (phys ≠ 0))

/-- `setup_user_stack`, which gives its block back on every way out. -/
def setupUserStackBlocks (root : Frame) (argv : List (List Byte)) (m : Machine)
    (heap : Ledger) : Except Failure (Word × Machine × Ledger) := do
  let requested ← requestsAddresses root argv m
  if !requested then
    let (stack, m) ← orPanic (setupUserStack root argv false m)
    .ok (stack, m, heap)
  else
    match alloc heap with
    | (none, heap) =>
      let (stack, m) ← orPanic (setupUserStack root argv false m)
      .ok (stack, m, heap)
    | (some addresses, heap) =>
      let (stack, m) ← orPanic (setupUserStack root argv true m)
      let heap ← kfree addresses heap
      .ok (stack, m, heap)

/-- `create_elf_process` gives up with `thread_destroy`. -/
def discardBlocks (root : Frame) (image t : Nat) (m : Machine) (heap : Ledger) :
    Except Failure (Option Frame × Machine × Ledger) := do
  let heap ← kfree image heap
  let m ← orPanic (threadDestroy root m)
  let heap ← kfree t heap
  .ok (none, m, heap)

/-- `create_elf_process` after the thread was allocated. -/
def buildProcess (kernelPml4 : Frame) (image : List Byte) (argv : List (List Byte))
    (copy t : Nat) (m : Machine) (heap : Ledger) :
    Except Failure (Option Frame × Machine × Ledger) := do
  let (root, m) := vmmCreateUserPml4 kernelPml4 m
  if root = 0 then discardBlocks root copy t m heap
  else
    let (loaded, m) ← orPanic (loadSegments root image (loads image) m)
    if !loaded then discardBlocks root copy t m heap
    else
      let (userStack, m, heap) ← setupUserStackBlocks root argv m heap
      if userStack = 0 then discardBlocks root copy t m heap
      else
        match alloc heap with
        | (none, heap) => discardBlocks root copy t m heap
        | (some _, heap) => .ok (some root, m, heap)

/-- `create_elf_process`. -/
def createElfProcessBlocks (kernelPml4 : Frame) (image : List Byte) (argv : List (List Byte))
    (m : Machine) (heap : Ledger) : Except Failure (Option Frame × Machine × Ledger) :=
  if !imageAccepted image then .ok (none, m, heap)
  else
    match alloc heap with
    | (none, heap) => .ok (none, m, heap)
    | (some copy, heap) =>
      match alloc heap with
      | (none, heap) => do
          let heap ← kfree copy heap
          .ok (none, m, heap)
      | (some t, heap) => buildProcess kernelPml4 image argv copy t m heap

end LaOS.UserSpace
