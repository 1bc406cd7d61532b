import LaOS.TransitionSystem

/-!
# The kernel heap

An embedding of `kernel/heap.c`.  The heap is the list of its blocks in the order of
the links.  Both functions hold the heap's spinlock throughout, so each call is one
step.  Whether a page can be obtained and mapped is decided by the environment.
-/

namespace LaOS.Heap

abbrev pageSize : Nat := 4096

abbrev wordLimit : Nat := 2 ^ 64

/-- `sizeof(struct kheap_node)`. -/
abbrev headerSize : Nat := 48

abbrev kheapAlignment : Nat := 16

abbrev kheapMagic : Nat := 0x48454150

abbrev heapMaxSize : Nat := 2 ^ 30

inductive Arch
  | x86_64
  | aarch64
  | riscv64
  deriving DecidableEq

def Arch.kheapVbase : Arch → Nat
  | .x86_64 => 0xffffa00000000000
  | .aarch64 => 0x40140000
  | .riscv64 => 0xffffa00000000000

def add64 (left right : Nat) : Nat := (left + right) % wordLimit

def sub64 (left right : Nat) : Nat := (left + (wordLimit - right)) % wordLimit

/-- A block: `size` counts the header at `addr`. -/
structure Node where
  addr : Nat
  magic : Nat
  isFree : Bool
  size : Nat
  deriving DecidableEq

/-- An attempt to map one more page: no frame, no memory for tables (the frame is given back),
or success. -/
inductive Grant
  | noFrame
  | noTable
  | granted
  deriving DecidableEq

/-- `struct kheap`, with the pages that are mapped in `kernel_pml4`. The list head is left out
of `nodes`. -/
structure Kheap where
  base : Nat
  max : Nat
  nodes : List Node
  mapped : Nat → Bool

def kheapGetLimit (heap : Kheap) : Option Nat :=
  if heap.base > wordLimit - 1 - heapMaxSize then none else some (heap.base + heapMaxSize)

/-- The loop of `kheap_expand_to_addr` for the given number of pages. -/
def expandPages (grant : Nat → Grant) (limit : Nat) : Nat → Kheap → Bool × Kheap
  | 0, heap => (true, heap)
  | pages + 1, heap =>
    if heap.max > limit ∨ pageSize > limit - heap.max then (false, heap)
    else if heap.mapped heap.max then
      expandPages grant limit pages { heap with max := heap.max + pageSize }
    else match grant heap.max with
      | .noFrame => (false, heap)
      | .noTable => (false, heap)
      | .granted =>
        expandPages grant limit pages
          { heap with
            max := heap.max + pageSize
            mapped := Function.update heap.mapped heap.max true }

/-- `kheap_expand_to_addr`: `max` grows by pages until it covers the target. -/
def kheapExpandToAddr (grant : Nat → Grant) (heap : Kheap) (target : Nat) : Bool × Kheap :=
  match kheapGetLimit heap with
  | none => (false, heap)
  | some limit =>
    if target < heap.base ∨ target > wordLimit - 1 - (pageSize - 1) then (false, heap)
    else
      let aligned := (target + pageSize - 1) / pageSize * pageSize
      if aligned > limit then (false, heap)
      else
        expandPages grant limit ((aligned - heap.max + (pageSize - 1)) / pageSize) heap

/-- The size of a block with room for `size` bytes. -/
def totalNeeded (size : Nat) : Nat :=
  (size + headerSize + (kheapAlignment - 1)) / kheapAlignment * kheapAlignment

/-- The list around its first node that satisfies `wanted`. -/
def splitAtFirst (wanted : Node → Bool) : List Node → Option (List Node × Node × List Node)
  | [] => none
  | node :: nodes =>
    if wanted node then some ([], node, nodes)
    else (splitAtFirst wanted nodes).map fun (before, found, after) =>
      (node :: before, found, after)

/-- A free block is handed out as a whole or by its tail. The result is the nodes that replace
it and the allocated one. -/
def carve (needed : Nat) (curr : Node) : List Node × Node :=
  if curr.size - needed ≥ headerSize + kheapAlignment then
    let freeSize := curr.size - needed
    let allocated := ⟨add64 curr.addr freeSize, kheapMagic, false, needed⟩
    ([{ curr with size := freeSize }, allocated], allocated)
  else
    let allocated := ⟨curr.addr, kheapMagic, false, curr.size⟩
    ([allocated], allocated)

/-- `kmalloc` once no free block is large enough: a block is appended. In an empty list the last
entry is the head, which lies above every heap. -/
def growBlock (grant : Nat → Grant) (heap : Kheap) (needed : Nat) : Option Nat × Kheap :=
  match heap.nodes.getLast?, kheapGetLimit heap with
  | some last, some limit =>
    if last.addr < heap.base ∨ last.addr > limit ∨ last.size > limit - last.addr then
      (none, heap)
    else
      let newAddr := last.addr + last.size
      if newAddr > wordLimit - 1 - needed ∨ newAddr + needed > limit then (none, heap)
      else
        let (expanded, heap) := kheapExpandToAddr grant heap (newAddr + needed)
        if expanded then
          (some (add64 newAddr headerSize),
            { heap with nodes := heap.nodes ++ [⟨newAddr, kheapMagic, false, needed⟩] })
        else (none, heap)
  | _, _ => (none, heap)

def kmalloc (grant : Nat → Grant) (heap : Kheap) (size : Nat) : Option Nat × Kheap :=
  if size = 0 then (none, heap)
  else if size > wordLimit - 1 - headerSize - (kheapAlignment - 1) then (none, heap)
  else
    let needed := totalNeeded size
    match splitAtFirst (fun node => node.isFree && node.size ≥ needed) heap.nodes with
    | some (before, curr, after) =>
      let (replaced, allocated) := carve needed curr
      (some (add64 allocated.addr headerSize), { heap with nodes := before ++ (replaced ++ after) })
    | none => growBlock grant heap needed

/-- The panics of `kfree`. A pointer without a header of the list is `foreign`; what the source
reads there is not modelled. -/
inductive Panic
  | doubleFree
  | invalidMagic
  | payloadMismatch
  | foreign
  deriving DecidableEq

/-- The previous block absorbs the current one when it is free and adjacent.
The list head is never free. -/
def mergePrev (before : List Node) (curr : Node) : List Node × Node :=
  match before.getLast? with
  | none => (before, curr)
  | some prev =>
    if prev.isFree ∧ add64 prev.addr prev.size = curr.addr then
      (before.dropLast, { prev with size := add64 prev.size curr.size })
    else (before, curr)

/-- The next block is absorbed when it is free and begins at `currEnd`, the end of the freed
block. -/
def mergeNext (currEnd : Nat) (curr : Node) (after : List Node) : Node × List Node :=
  match after with
  | [] => (curr, after)
  | next :: rest =>
    if next.isFree ∧ currEnd = next.addr then
      ({ curr with size := add64 curr.size next.size }, rest)
    else (curr, after)

def kfree (heap : Kheap) (ptr : Nat) : Except Panic Kheap :=
  if ptr = 0 then .ok heap
  else match splitAtFirst (fun node => node.addr == sub64 ptr headerSize) heap.nodes with
    | none => .error .foreign
    | some (before, curr, after) =>
      if curr.isFree then .error .doubleFree
      else if curr.magic ≠ kheapMagic then .error .invalidMagic
      else if add64 curr.addr headerSize ≠ ptr then .error .payloadMismatch
      else
        let (before, merged) := mergePrev before curr
        let (merged, after) := mergeNext (add64 curr.addr curr.size) merged after
        .ok { heap with nodes := before ++ { merged with isFree := true } :: after }

/-- `kheap_init`, which panics when the first page cannot be mapped. -/
def kheapInit (arch : Arch) (mapped : Nat → Bool) (grant : Nat → Grant) : Option Kheap :=
  let heap : Kheap := ⟨arch.kheapVbase, arch.kheapVbase, [], mapped⟩
  let (expanded, heap) := kheapExpandToAddr grant heap (heap.base + pageSize)
  if expanded then
    some { heap with nodes := heap.nodes ++ [⟨heap.base, kheapMagic, true, pageSize⟩] }
  else none

/-- The heap and the allocations its callers hold: pointer and requested size. -/
structure State where
  heap : Kheap
  live : List (Nat × Nat)
  panicked : Option Panic

inductive Action
  | malloc (size : Nat) (grant : Nat → Grant)
  | free (ptr : Nat)

def receive (s : State) (size : Nat) : Option Nat × Kheap → State
  | (none, heap) => { s with heap }
  | (some ptr, heap) => { s with heap, live := (ptr, size) :: s.live }

def giveUp (s : State) (ptr : Nat) : Except Panic Kheap → State
  | .error panic => { s with panicked := some panic }
  | .ok heap => { s with heap, live := s.live.filter fun entry => entry.1 != ptr }

/-- Callers free null pointers and pointers they hold. -/
def step (s : State) (action : Action) : Option State :=
  if s.panicked.isSome then none
  else match action with
    | .malloc size grant => some (receive s size (kmalloc grant s.heap size))
    | .free ptr =>
      if ptr = 0 ∨ ptr ∈ s.live.map Prod.fst then
        some (giveUp s ptr (kfree s.heap ptr))
      else none

def system (arch : Arch) : TransitionSystem State Action where
  initial s := ∃ mapped grant heap,
    kheapInit arch mapped grant = some heap ∧ s = ⟨heap, [], none⟩
  step := step

end LaOS.Heap
