import LaOS.Bitmap
import LaOS.TransitionSystem

/-!
# The physical page allocator

`pmm.c`: initialization from a memory map, first-fit allocation of runs of pages
over a byte-packed bitmap, and freeing.  Its client frees only whole blocks that it
holds.
-/

namespace LaOS.Pmm

abbrev pageSize : Nat := 4096

/-- `PMM_LOWMEM_LIMIT`. -/
abbrev lowmemLimit : Nat := 0x100000

/-- `PMM_LOWMEM_PAGES`. -/
abbrev lowmemPages : Nat := lowmemLimit / pageSize

inductive MemmapType
  | usable
  | reserved
  | acpiReclaimable
  | acpiNvs
  | badMemory
  | bootloaderReclaimable
  | executableAndModules
  | framebuffer
  deriving DecidableEq

/-- `struct pmm_memmap_entry`: a region of the address space, whose end is an
address too. -/
structure MemmapEntry where
  base : Nat
  length : Nat
  type : MemmapType
  fits : base + length < 2 ^ 64

abbrev Memmap := List MemmapEntry

/-- The pages of a region: the values of `for (j = 0; j < length; j += PAGE_SIZE)`, divided by
`PAGE_SIZE`. -/
def MemmapEntry.steps (entry : MemmapEntry) : List Nat :=
  List.range ((entry.length + (pageSize - 1)) / pageSize)

inductive Panic
  | noUsableEntry
  | regionTooSmall
  | markUsed
  | markFree
  | protectedFree
  | unaligned
  | invalidAddress
  | rangeExceeds
  | doubleFree
  deriving DecidableEq

/-- The counters of `struct pmm_info`. -/
structure PageInfo where
  total : BitVec 64
  none : BitVec 64
  self : BitVec 64
  usable : BitVec 64
  freed : BitVec 64
  deriving DecidableEq

/-- The state of the allocator; `base` is the physical address of the bitmap. -/
structure Allocator where
  bitmap : Bitmap
  base : Nat
  totalPages : Nat
  page : PageInfo

/-- The body of the loop of `pmm_scan`. -/
def scanEntry (page : PageInfo) (entry : MemmapEntry) : PageInfo :=
  let pages := BitVec.ofNat 64 (entry.length / pageSize)
  let counted := { page with total := page.total + pages }
  if entry.type ≠ .usable then { counted with none := page.none + pages }
  else { counted with usable := page.usable + pages }

def scan (mmap : Memmap) : PageInfo :=
  let page := mmap.foldl scanEntry ⟨0, 0, 0, 0, 0⟩
  { page with freed := page.usable }

structure Pick where
  maxEntry : Option MemmapEntry
  maxLength : Nat
  maxEndAddr : Nat

def pickEntry (pick : Pick) (entry : MemmapEntry) : Pick :=
  if entry.type ≠ .usable then pick
  else
    let stop := entry.base + entry.length
    let longest := if pick.maxLength < entry.length then
      { pick with maxEntry := some entry, maxLength := entry.length } else pick
    if longest.maxEndAddr < stop then { longest with maxEndAddr := stop } else longest

def pick (mmap : Memmap) : Pick :=
  mmap.foldl pickEntry ⟨none, 0, 0⟩

def pickMaxEntry (mmap : Memmap) : Except Panic (MemmapEntry × Nat) :=
  match (pick mmap).maxEntry with
  | none => .error .noUsableEntry
  | some entry => .ok (entry, (pick mmap).maxEndAddr)

/-- The sizes that `pmm_install_bitmap` computes. -/
def totalPagesOf (maxEndAddr : Nat) : Nat :=
  (maxEndAddr + (pageSize - 1)) % 2 ^ 64 / pageSize

def bitmapSizeOf (totalPages : Nat) : Nat :=
  (totalPages + 7) / 8

def bitmapPagesOf (bitmapSize : Nat) : Nat :=
  (bitmapSize + (pageSize - 1)) / pageSize

/-- `pmm_install_bitmap`; `memory` is what the largest region contains. -/
def installBitmap (memory : Bitmap) (page : PageInfo) (maxEntry : MemmapEntry)
    (maxEndAddr : Nat) : Except Panic Allocator :=
  let totalPages := totalPagesOf maxEndAddr
  let bitmapSize := bitmapSizeOf totalPages
  if maxEntry.length < bitmapSize then .error .regionTooSmall
  else .ok {
    bitmap := memory.fill 0xff#8 bitmapSize
    base := maxEntry.base
    totalPages := totalPages
    page := page }

def markUsed (allocator : Allocator) (i : Nat) : Except Panic Allocator :=
  if allocator.totalPages ≤ i then .error .markUsed
  else .ok { allocator with bitmap := allocator.bitmap.set i }

def markFree (allocator : Allocator) (i : Nat) : Except Panic Allocator :=
  if allocator.totalPages ≤ i then .error .markFree
  else .ok { allocator with bitmap := allocator.bitmap.clear i }

structure Release where
  allocator : Allocator
  dontTouchPage : BitVec 64
  lostPage : BitVec 64

/-- The body of the inner loop of `pmm_release_usable`. -/
def releasePage (entry : MemmapEntry) (release : Release) (step : Nat) : Except Panic Release :=
  let pagePhys := entry.base + step * pageSize
  let i := pagePhys / pageSize
  if release.allocator.totalPages ≤ i then
    .ok { release with lostPage := release.lostPage + 1 }
  else if pagePhys < lowmemLimit then
    .ok { release with dontTouchPage := release.dontTouchPage + 1 }
  else do
    let allocator ← markFree release.allocator i
    return { release with allocator }

def releaseEntry (release : Release) (entry : MemmapEntry) : Except Panic Release :=
  if entry.type ≠ .usable then .ok release
  else entry.steps.foldlM (releasePage entry) release

section

variable (allocator : Allocator)

def releaseUsable (mmap : Memmap) : Except Panic Release :=
  mmap.foldlM releaseEntry ⟨allocator, 0, 0⟩

/-- The corrections that `pmm_init_from_memmap` applies to the counters. -/
def settleCounts (release : Release) (bitmapPages : Nat) : Allocator :=
  let page := release.allocator.page
  { release.allocator with
    page := { page with
      self := BitVec.ofNat 64 bitmapPages
      usable := page.usable - release.dontTouchPage - release.lostPage
      freed := page.freed - release.dontTouchPage - release.lostPage -
        BitVec.ofNat 64 bitmapPages } }

/-- `pmm_init_from_memmap` reserves one page of the bitmap. -/
def reservePage (start : Nat) (allocator : Allocator) (step : Nat) : Except Panic Allocator :=
  if allocator.bitmap.test (start + step) then .ok allocator
  else markUsed allocator (start + step)

/-- The inner loop of `pmm_mark_protected`, which ends at the last index. -/
def checkProtected (allocator : Allocator) (start : Nat) : List Nat → Except Panic Unit
  | [] => .ok ()
  | step :: steps =>
    if allocator.totalPages ≤ start + step then .ok ()
    else if allocator.bitmap.test (start + step) then checkProtected allocator start steps
    else .error .protectedFree

def markProtected (allocator : Allocator) (maxEndAddr : Nat) : Memmap → Except Panic Unit
  | [] => .ok ()
  | entry :: mmap => do
      if ¬ maxEndAddr ≤ entry.base ∧ entry.type ≠ .usable then
        checkProtected allocator (entry.base / pageSize) entry.steps
      markProtected allocator maxEndAddr mmap

def initFromMemmap (memory : Bitmap) (mmap : Memmap) : Except Panic Allocator := do
  let (maxEntry, maxEndAddr) ← pickMaxEntry mmap
  let installed ← installBitmap memory (scan mmap) maxEntry maxEndAddr
  let bitmapPages := bitmapPagesOf (bitmapSizeOf installed.totalPages)
  let released ← releaseUsable installed mmap
  let settled := settleCounts released bitmapPages
  let reserved ← (List.range bitmapPages).foldlM (reservePage (maxEntry.base / pageSize)) settled
  markProtected reserved maxEndAddr mmap
  return reserved

/-- `pmm_idx_safe`. -/
def indexSafe (i : Nat) : Bool :=
  lowmemPages ≤ i ∧ i < allocator.totalPages

/-- The loop of `pmm_find_run` over the `remaining` indices from `i` on, with
the current run of `length` pages from `start`. -/
def findRunFrom (allocator : Allocator) (count : Nat) :
    (remaining i start length : Nat) → Option Nat
  | 0, _, _, _ => none
  | remaining + 1, i, start, length =>
    if !allocator.bitmap.test i && indexSafe allocator i then
      let start := if length = 0 then i else start
      if count ≤ length + 1 then some start
      else findRunFrom allocator count remaining (i + 1) start (length + 1)
    else
      findRunFrom allocator count remaining (i + 1) start 0

/-- `pmm_find_run(0, pmm_total_pages, count)`, with `none` for `(uint64_t)-1`. -/
def findRun (count : Nat) : Option Nat :=
  findRunFrom allocator count allocator.totalPages 0 0 0

def accountAlloc (page : PageInfo) (count : Nat) : PageInfo :=
  { page with freed := page.freed - BitVec.ofNat 64 count }

def accountFree (page : PageInfo) (count : Nat) : PageInfo :=
  { page with freed := page.freed + BitVec.ofNat 64 count }

/-- `pmm_alloc_run`: the address of the block, or `none` for a null pointer. -/
def allocRun (count : Nat) : Option (Nat × Allocator) :=
  match findRun allocator count with
  | none => none
  | some start =>
    some (start * pageSize, { allocator with
      bitmap := allocator.bitmap.setRange start count
      page := accountAlloc allocator.page count })

def alloc : Option (Nat × Allocator) :=
  allocRun allocator 1

def allocPages (count : Nat) : Option (Nat × Allocator) :=
  if count = 0 then none else allocRun allocator count

def free (address : Nat) : Except Panic Allocator :=
  if address = 0 then .ok allocator
  else if address % pageSize ≠ 0 then .error .unaligned
  else
    let i := address / pageSize
    if allocator.totalPages ≤ i then .error .invalidAddress
    else if !allocator.bitmap.test i then .error .doubleFree
    else .ok { allocator with
      bitmap := allocator.bitmap.clear i
      page := accountFree allocator.page 1 }

/-- The loop of `pmm_free_pages` from `i` on. -/
def freeLoop (bitmap : Bitmap) (i : Nat) : Nat → Except Panic Bitmap
  | 0 => .ok bitmap
  | count + 1 =>
    if !bitmap.test i then .error .doubleFree
    else freeLoop (bitmap.clear i) (i + 1) count

def freePages (address count : Nat) : Except Panic Allocator :=
  if address = 0 ∨ count = 0 then .ok allocator
  else
    let start := address / pageSize
    if allocator.totalPages ≤ start then .error .invalidAddress
    else if allocator.totalPages < (start + count) % 2 ^ 64 then .error .rangeExceeds
    else do
      let bitmap ← freeLoop allocator.bitmap start count
      return { allocator with bitmap, page := accountFree allocator.page count }

end

/-- The allocator with the blocks, address and number of pages, that callers hold. -/
structure State where
  allocator : Allocator
  held : List (Nat × Nat)
  panicked : Bool

inductive Action
  | alloc
  | allocPages (count : Nat)
  | free (address : Nat)
  | freePages (address count : Nat)
  deriving DecidableEq

def receive (s : State) (count : Nat) : Option (Nat × Allocator) → State
  | none => s
  | some (address, allocator) =>
    { s with allocator, held := (address, count) :: s.held }

def giveUp (s : State) (block : Nat × Nat) : Except Panic Allocator → State
  | .error _ => { s with panicked := true }
  | .ok allocator => { s with allocator, held := s.held.erase block }

def step (s : State) (action : Action) : Option State :=
  if s.panicked then none
  else match action with
  | .alloc => some (receive s 1 (alloc s.allocator))
  | .allocPages count => some (receive s count (allocPages s.allocator count))
  | .free address =>
    if (address, 1) ∈ s.held then
      some (giveUp s (address, 1) (free s.allocator address))
    else
      none
  | .freePages address count =>
    if (address, count) ∈ s.held then
      some (giveUp s (address, count) (freePages s.allocator address count))
    else
      none

def system (mmap : Memmap) : TransitionSystem State Action where
  initial s := ∃ memory allocator, initFromMemmap memory mmap = .ok allocator ∧
    s = ⟨allocator, [], false⟩
  step := step

end LaOS.Pmm
