import LaOS.RadixTree

/-!
# Page tables

An embedding of the x86_64 part of `kernel/vmm.c` and of the walk of the processor.
Physical memory is a collection of frames of 512 words, accessed through the direct map.
`pmm_alloc` takes its answers from a list; an answer of 0 is a failure, and so is a
frame that is in use.
-/

namespace LaOS.Vmm

open Function

abbrev Word : Type := BitVec 64

/-- A page frame, named by bits 51 to 12 of its address. -/
abbrev Frame : Type := BitVec 40

instance : LawfulBEq Frame := inferInstance

abbrev Index : Type := BitVec 9

def ptePresent : Word := BitVec.twoPow 64 0

def pteWritable : Word := BitVec.twoPow 64 1

def pteUser : Word := BitVec.twoPow 64 2

def pteWriteThrough : Word := BitVec.twoPow 64 3

def pteCacheDisable : Word := BitVec.twoPow 64 4

def pteHuge : Word := BitVec.twoPow 64 7


def pteNx : Word := BitVec.twoPow 64 63

def pteAddrMask : Word := 0x000ffffffffff000

/-- `PAGE_SIZE - 1`. -/
def pageMask : Word := 0xfff

section

variable (entry : Word)

def present : Bool := entry.getLsbD 0

def writable : Bool := entry.getLsbD 1

def user : Bool := entry.getLsbD 2

def writeThrough : Bool := entry.getLsbD 3

def cacheDisable : Bool := entry.getLsbD 4

def huge : Bool := entry.getLsbD 7

def noExecute : Bool := entry.getLsbD 63

def pteIsLeaf : Bool := present entry && huge entry

/-- The frame at `entry & PTE_ADDR_MASK`. -/
def frameOf : Frame := entry.extractLsb' 12 40

end

def frameAddr (frame : Frame) : Word := frame.setWidth 64 <<< 12

def pml4Idx (vaddr : Word) : Index := vaddr.extractLsb' 39 9

def pdptIdx (vaddr : Word) : Index := vaddr.extractLsb' 30 9

def pdIdx (vaddr : Word) : Index := vaddr.extractLsb' 21 9

def ptIdx (vaddr : Word) : Index := vaddr.extractLsb' 12 9

structure Machine where
  memory : Frame → Index → Word
  allocated : Frame → Bool
  answers : List Frame

namespace Machine

def write (m : Machine) (frame : Frame) (i : Index) (word : Word) : Machine :=
  { m with
    memory := update m.memory frame
      (update (m.memory frame) i word) }

def fill (m : Machine) (frame : Frame) (content : Index → Word) : Machine :=
  { m with memory := update m.memory frame content }

end Machine

inductive Panic
  | overwritingMapping
  | virtualRoot
  | badPointer
  | doubleFree
  deriving DecidableEq

def pmmAlloc (m : Machine) : Frame × Machine :=
  match m.answers with
  | [] => (0, m)
  | frame :: answers =>
    if frame = 0 ∨ m.allocated frame = true then (0, { m with answers })
    else
      (frame, { m with allocated := update m.allocated frame true, answers })

def pmmFree (frame : Frame) (m : Machine) : Except Panic Machine :=
  if frame = 0 then .ok m
  else if m.allocated frame then
    .ok { m with allocated := update m.allocated frame false }
  else .error .doubleFree

/-- The frame behind a pointer into the direct map. -/
def deref (address : Word) : Except Panic Frame :=
  if address.extractLsb' 52 12 = 0 then .ok (frameOf address) else .error .badPointer

/-- The entry that `__vmm_map` writes for a table it creates. -/
def tableEntry (frame : Frame) (flags : Word) : Word :=
  frameAddr frame ||| ptePresent ||| pteWritable ||| (flags &&& pteUser)

/-- The rights that `__vmm_map` adds to an entry it passes. -/
def widen (entry flags : Word) : Word := entry ||| pteWritable ||| (flags &&& pteUser)

/-- The entries of the table that replaces a large page, whose parts are
`stride` bytes apart. -/
def splitEntry (stride entry : Word) (i : Index) : Word :=
  ((entry &&& pteAddrMask) + i.setWidth 64 * stride) ||| (entry &&& ~~~pteAddrMask)

/-- One level of `__vmm_map`: an absent table is created, and a large page is split when the
level has a `stride` for it. -/
def ensureTable (stride : Option Word) (table : Frame) (i : Index) (flags : Word)
    (m : Machine) : Option Frame × Machine :=
  let entry := m.memory table i
  if present entry then
    match stride with
    | some stride =>
      if pteIsLeaf entry then
        let (new, m) := pmmAlloc m
        if new = 0 then (none, m)
        else
          let m := (m.fill new (splitEntry stride entry)).write table i
            (widen (tableEntry new flags) flags)
          (some (frameOf (m.memory table i)), m)
      else
        let m := m.write table i (widen entry flags)
        (some (frameOf (m.memory table i)), m)
    | none =>
      let m := m.write table i (widen entry flags)
      (some (frameOf (m.memory table i)), m)
  else
    let (new, m) := pmmAlloc m
    if new = 0 then (none, m)
    else
      let m := (m.fill new fun _ => 0).write table i (tableEntry new flags)
      (some (frameOf (m.memory table i)), m)

section

variable (pml4 : Frame)

/-- `__vmm_map`.  The result is whether it returned 0. -/
def vmmMapLocked (vaddr paddr flags : Word) (overwriteOk : Bool)
    (m : Machine) : Except Panic (Bool × Machine) :=
  let vaddr := vaddr &&& ~~~pageMask
  let paddr := paddr &&& pteAddrMask
  match ensureTable none pml4 (pml4Idx vaddr) flags m with
  | (none, m) => .ok (false, m)
  | (some pdpt, m) =>
    match ensureTable (some 0x200000) pdpt (pdptIdx vaddr) flags m with
    | (none, m) => .ok (false, m)
    | (some pd, m) =>
      match ensureTable (some 0x1000) pd (pdIdx vaddr) flags m with
      | (none, m) => .ok (false, m)
      | (some pt, m) =>
        if present (m.memory pt (ptIdx vaddr)) && !overwriteOk then
          .error .overwritingMapping
        else .ok (true, m.write pt (ptIdx vaddr) (paddr ||| flags))

def vmmMap (vaddr paddr flags : Word) (m : Machine) : Except Panic (Bool × Machine) :=
  vmmMapLocked pml4 vaddr paddr flags false m

def vmmRemap (vaddr paddr flags : Word) (m : Machine) : Except Panic (Bool × Machine) :=
  vmmMapLocked pml4 vaddr paddr flags true m

def vmmMapUser (vaddr paddr flags : Word) (m : Machine) : Except Panic (Bool × Machine) :=
  vmmMap pml4 vaddr paddr (flags ||| pteUser) m

/-- `__vmm_unmap`, which takes every present entry for a table. -/
def vmmUnmap (vaddr : Word) (m : Machine) : Bool × Machine :=
  let vaddr := vaddr &&& ~~~pageMask
  let pml4e := m.memory pml4 (pml4Idx vaddr)
  if !present pml4e then (false, m)
  else
    let pdpte := m.memory (frameOf pml4e) (pdptIdx vaddr)
    if !present pdpte then (false, m)
    else
      let pde := m.memory (frameOf pdpte) (pdIdx vaddr)
      if !present pde then (false, m)
      else (true, m.write (frameOf pde) (ptIdx vaddr) 0)

def vmmIsMapped (vaddr : Word) (m : Machine) : Except Panic Bool := do
  let pml4e := m.memory pml4 (pml4Idx vaddr)
  if !present pml4e then return false
  let pdpt ← deref (pml4e &&& ~~~pageMask)
  let pdpte := m.memory pdpt (pdptIdx vaddr)
  if !present pdpte then return false
  if pteIsLeaf pdpte then return true
  let pd ← deref (pdpte &&& ~~~pageMask)
  let pde := m.memory pd (pdIdx vaddr)
  if !present pde then return false
  if pteIsLeaf pde then return true
  let pt ← deref (pde &&& ~~~pageMask)
  let pte := m.memory pt (ptIdx vaddr)
  if !present pte then return false
  return true

def vmmGetPhys (vaddr : Word) (m : Machine) : Except Panic Word := do
  if frameAddr pml4 > 0x00007fffffffffff then throw .virtualRoot
  let pml4e := m.memory pml4 (pml4Idx vaddr)
  if !present pml4e then return 0
  let pdpt ← deref (pml4e &&& ~~~pageMask)
  let pdpte := m.memory pdpt (pdptIdx vaddr)
  if !present pdpte then return 0
  if pteIsLeaf pdpte then return (pdpte &&& ~~~0x3fffffff) + (vaddr &&& 0x3fffffff)
  let pd ← deref (pdpte &&& ~~~pageMask)
  let pde := m.memory pd (pdIdx vaddr)
  if !present pde then return 0
  if pteIsLeaf pde then return (pde &&& ~~~0x1fffff) + (vaddr &&& 0x1fffff)
  let pt ← deref (pde &&& ~~~pageMask)
  let pte := m.memory pt (ptIdx vaddr)
  if !present pte then return 0
  return pte &&& ~~~pageMask

end

/-- What the processor finds for a page: its frame, the rights that all levels grant, and the
memory type bits of the leaf. -/
structure Translation where
  frame : Frame
  writable : Bool
  user : Bool
  noExecute : Bool
  writeThrough : Bool
  cacheDisable : Bool
  pat : Bool
  deriving DecidableEq

/-- The translation by a leaf, the last of the entries on the way to it. -/
def leafTranslation (entries : List Word) (leaf : Word) (frame : Frame) (pat : Bool) :
    Translation where
  frame := frame
  writable := entries.all writable
  user := entries.all user
  noExecute := entries.any noExecute
  writeThrough := writeThrough leaf
  cacheDisable := cacheDisable leaf
  pat := pat

/-- The four-level walk. It fails on the page size bit at the top and on address bits of a large
page below its size. The PAT bit is bit 12 of a large page and bit 7 of a small one. -/
def translate (memory : Frame → Index → Word) (root : Frame) (vaddr : Word) : Option Translation :=
  let pml4e := memory root (pml4Idx vaddr)
  if !present pml4e || huge pml4e then none
  else
    let pdpte := memory (frameOf pml4e) (pdptIdx vaddr)
    if !present pdpte then none
    else if huge pdpte then
      if pdpte.extractLsb' 13 17 ≠ 0 then none
      else some (leafTranslation [pml4e, pdpte] pdpte
        ((pdpte.extractLsb' 30 22 ++ pdIdx vaddr) ++ ptIdx vaddr) (pdpte.getLsbD 12))
    else
      let pde := memory (frameOf pdpte) (pdIdx vaddr)
      if !present pde then none
      else if huge pde then
        if pde.extractLsb' 13 8 ≠ 0 then none
        else some (leafTranslation [pml4e, pdpte, pde] pde
          (pde.extractLsb' 21 31 ++ ptIdx vaddr) (pde.getLsbD 12))
      else
        let pte := memory (frameOf pde) (ptIdx vaddr)
        if !present pte then none
        else some (leafTranslation [pml4e, pdpte, pde, pte] pte (frameOf pte) (pte.getLsbD 7))

end LaOS.Vmm
