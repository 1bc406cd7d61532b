import LaOS.TransitionSystem
import LaOS.VmmLookup

/-!
# Windows onto device registers

The block driver's `map_bar` maps device registers at a growing cursor and the network
driver's `e1000_map_bar` at a constant, and both start at the same address.
-/

namespace LaOS.Mmio

open List Function
open Vmm (Word pageOf)

def barMmioVbase : Word := 0xFFFFD00000000000

def nicVirtBase : Word := 0xFFFFD00000000000

/-- The kernel's page tables, as far as the windows need them: where each page is mapped to. -/
abbrev Tables := BitVec 36 → Option Word

/-- `__vmm_map` without leave to overwrite; nothing if it panics. Memory for a table can run out
only before a page that is not present. -/
def vmmMap (tables : Tables) (vaddr paddr : Word) (memory : Bool) : Option (Bool × Tables) :=
  if (tables (pageOf vaddr)).isSome then none
  else if memory then some (true, Function.update tables (pageOf vaddr) (some paddr))
  else some (false, tables)

def nthPage (start : Word) (i : Nat) : Word := start + BitVec.ofNat 64 (4096 * i)

/-- The loop over the pages of a range, after a number of rounds; that of `vmm_map_region` ends
at the first failure. -/
def mapPages (ignores : Bool) (vaddr paddr : Word) (memory : Nat → Bool) (tables : Tables) :
    Nat → Option (Bool × Tables)
  | 0 => some (true, tables)
  | i + 1 =>
    (mapPages ignores vaddr paddr memory tables i).bind fun (going, tables) =>
      if going then
        (vmmMap tables (nthPage vaddr i) (nthPage paddr i) (memory i)).map
          fun (mapped, tables) => (mapped || ignores, tables)
      else some (false, tables)

def vmmMapRegion (tables : Tables) (vaddr paddr size : Word) (memory : Nat → Bool) :
    Option (Bool × Tables) :=
  let vStart := vaddr &&& ~~~4095
  let pStart := paddr &&& ~~~4095
  let alignedSize := ((vaddr + size + 4095) &&& ~~~4095) - vStart
  mapPages false vStart pStart memory tables (alignedSize.toNat / 4096)

inductive Driver
  | virtio
  | e1000
  deriving DecidableEq

/-- The range of addresses that one call maps, and where it should lead. -/
structure Window where
  driver : Driver
  start : Word
  phys : Word
  size : Word

structure Device where
  barPhys : Nat → Word
  barSize : Nat → Word

/-- The cursor `g_bar_mmio_next`, the page tables, and the windows of the calls made so far. -/
structure State where
  next : Word
  tables : Tables
  windows : List Window
  panicked : Bool

/-- The state after a call that maps a window, given what became of its loop. -/
def State.mapped (s : State) (window : Window) : Option (Bool × Tables) → State
  | none => { s with windows := window :: s.windows, panicked := true }
  | some (_, tables) => { s with windows := window :: s.windows, tables }

def mapPhys (phys offset : Word) : Word := (phys + offset) &&& ~~~4095

def mapLen (phys offset length : Word) : Word :=
  ((phys + offset + length + 4095) &&& ~~~4095) - mapPhys phys offset

/-- `map_bar`, with the address it returns; a panic does not return. -/
def mapBar (s : State) (dev : Device) (barIdx : Nat) (offset length : Word)
    (memory : Nat → Bool) : Option Word × State :=
  if 6 ≤ barIdx ∨ dev.barSize barIdx = 0 then (none, s)
  else
    let phys := dev.barPhys barIdx
    if dev.barSize barIdx < offset + length then (none, s)
    else
      let mapPhys := mapPhys phys offset
      let mapLen := mapLen phys offset length
      let vaddr := s.next
      let moved := { s with next := (s.next + mapLen + 4095) &&& ~~~4095 }
      let result := vmmMapRegion s.tables vaddr mapPhys mapLen memory
      (result.bind fun (mapped, _) =>
          if mapped then some (vaddr + (phys + offset - mapPhys)) else none,
        moved.mapped ⟨.virtio, vaddr, mapPhys, mapLen⟩ result)

def nicSize : Word := 128 * 1024

def e1000MapBar (s : State) (bar0Phys : Word) (memory : Nat → Bool) : State :=
  s.mapped ⟨.e1000, nicVirtBase, bar0Phys, nicSize⟩
    (mapPages true nicVirtBase bar0Phys memory s.tables (nicSize.toNat / 4096))

inductive Action
  | mapBar (dev : Device) (barIdx : Nat) (offset length : Word) (memory : Nat → Bool)
  | e1000MapBar (bar0Phys : Word) (memory : Nat → Bool)

def step (s : State) : Action → Option State
  | .mapBar dev barIdx offset length memory =>
    if s.panicked then none else some (mapBar s dev barIdx offset length memory).2
  | .e1000MapBar bar0Phys memory =>
    if s.panicked then none else some (e1000MapBar s bar0Phys memory)

def bootState : State := ⟨barMmioVbase, fun _ => none, [], false⟩

def system : TransitionSystem State Action where
  initial s := s = bootState
  step := step

def Window.Covers (window : Window) (page : BitVec 36) : Prop :=
  ∃ i < window.size.toNat / 4096, page = pageOf (nthPage window.start i)

/-- No page is in two windows, and exactly the pages of windows are mapped, each to the
registers of its own window. -/
structure Apart (tables : Tables) (windows : List Window) : Prop where
  disjoint : windows.Pairwise fun first second => ∀ page, first.Covers page → ¬second.Covers page
  covered : ∀ page, (tables page).isSome → ∃ window ∈ windows, window.Covers page
  leads : ∀ window ∈ windows, ∀ i < window.size.toNat / 4096, ∀ paddr,
    tables (pageOf (nthPage window.start i)) = some paddr → paddr = nthPage window.phys i

variable {s after : State} {tables : Tables} {windows : List Window} {window : Window}
  {va paddr start : Word} {memory : Nat → Bool} {ignores : Bool} {count : Nat}

/-- The tables name the frame of every page of a tree. -/
def Represents (scope : Vmm.Index → Prop) (root : Vmm.Frame) (m : Vmm.Machine)
    (tables : Tables) : Prop :=
  ∀ vaddr, scope (Vmm.pml4Idx vaddr) →
    (Vmm.leafOf m root vaddr).map Vmm.frameOf = (tables (pageOf vaddr)).map Vmm.frameOf

theorem frameOf_leaf {flags : Word} (noFrame : Vmm.frameOf flags = 0#40) :
    Vmm.frameOf ((paddr &&& Vmm.pteAddrMask) ||| flags) = Vmm.frameOf paddr := by
  refine BitVec.eq_of_getLsbD_eq fun bit bitLt => ?_
  have noBit := congrArg (BitVec.getLsbD · bit) noFrame
  simp only [Vmm.frameOf, BitVec.getLsbD_extractLsb', bitLt, decide_true, Bool.true_and,
    BitVec.getLsbD_zero] at noBit
  simp only [Vmm.frameOf, BitVec.getLsbD_extractLsb', BitVec.getLsbD_or, BitVec.getLsbD_and,
    Vmm.getLsbD_pteAddrMask, noBit]
  grind

/-- `__vmm_map` on a tree of page tables does to the tables what is said of it here. -/
theorem vmmMap_represents {scope : Vmm.Index → Prop} {root : Vmm.Frame} {m : Vmm.Machine}
    {flags : Word} (ok : Vmm.TreeOk scope root m) (inScope : scope (Vmm.pml4Idx va))
    (isPresent : Vmm.present flags = true) (noFrame : Vmm.frameOf flags = 0#40)
    (represents : Represents scope root m tables) :
    match Vmm.vmmMap root va paddr flags m with
    | .error _ => ∀ memory, vmmMap tables va paddr memory = none
    | .ok (mapped, after) => ∃ last, vmmMap tables va paddr mapped = some (mapped, last) ∧
        Represents scope root after last := by
  have here := represents va inScope
  have effect := @Vmm.vmmMapLocked_effect _ root m va paddr flags ok inScope false
  rw [Vmm.vmmMap]
  generalize Vmm.vmmMapLocked root va paddr flags false m = outcome at effect
  cases effect with
  | failed grows vacant =>
    rw [vacant, eq_comm, Option.map_none, Option.map_eq_none_iff] at here
    refine ⟨tables, by simp [vmmMap, here], fun other otherIn => ?_⟩
    rw [grows.leafOf_eq otherIn, represents other otherIn]
  | mapped grows reaches _ vacant =>
    rw [vacant rfl, eq_comm, Option.map_none, Option.map_eq_none_iff] at here
    refine ⟨update tables (pageOf va) (some paddr), by simp [vmmMap, here],
      fun other otherIn => ?_⟩
    have leafPresent : Vmm.present ((paddr &&& Vmm.pteAddrMask) ||| flags) = true := by
      simp only [Vmm.present] at isPresent
      simp [Vmm.present, isPresent]
    rw [Vmm.leafOf_writeLeaf grows.ok inScope reaches otherIn, if_pos leafPresent]
    by_cases same : pageOf other = pageOf va
    · rw [if_pos same, same, update_self, Option.map_some, frameOf_leaf noFrame, Option.map_some]
    · rw [if_neg same, update_of_ne same, grows.leafOf_eq otherIn, represents other otherIn]
  | panicked _ mapped =>
    intro memory
    rw [← Option.isSome_map, here, Option.isSome_map] at mapped
    rw [vmmMap, if_pos mapped]

theorem mapPages_fresh (distinct : ∀ first < count, ∀ second < first,
      pageOf (nthPage va second) ≠ pageOf (nthPage va first))
    (fresh : ∀ i < count, tables (pageOf (nthPage va i)) = none) :
    ∃ going after, mapPages ignores va paddr memory tables count = some (going, after) ∧
      ∀ page, after page = tables page ∨ ∃ i < count,
        page = pageOf (nthPage va i) ∧ after page = some (nthPage paddr i) := by
  induction count with
  | zero => exact ⟨true, tables, rfl, fun page => .inl rfl⟩
  | succ count ih =>
    obtain ⟨going, mid, looped, mapsOnly⟩ := ih
      (fun first firstLt => distinct first (by omega)) (fun i indexLt => fresh i (by omega))
    have still : mid (pageOf (nthPage va count)) = none := by
      rcases mapsOnly (pageOf (nthPage va count)) with same | ⟨i, indexLt, same, -⟩
      · rw [same, fresh count (by omega)]
      · exact absurd same.symm (distinct count (by omega) i indexLt)
    have earlier : ∀ page, mid page = tables page ∨ ∃ i < count + 1,
        page = pageOf (nthPage va i) ∧ mid page = some (nthPage paddr i) := by
      intro page
      apply (mapsOnly page).imp_right
      rintro ⟨i, indexLt, found⟩
      exact ⟨i, by omega, found⟩
    simp only [mapPages, looped, Option.bind_some, vmmMap, still, Option.isSome_none]
    cases going with
    | false => exact ⟨false, mid, rfl, earlier⟩
    | true =>
      cases memory count with
      | false => exact ⟨ignores, mid, by simp, earlier⟩
      | true =>
        refine ⟨true, update mid _ _, by simp; rfl, ?_⟩
        intro page
        by_cases here : page = pageOf (nthPage va count)
        · exact .inr ⟨count, by omega, here, by rw [here, update_self]⟩
        · rw [update_of_ne here]
          exact earlier page

theorem Apart.add (apart : Apart tables windows)
    (distinct : ∀ first < window.size.toNat / 4096, ∀ second < first,
      pageOf (nthPage window.start second) ≠ pageOf (nthPage window.start first))
    (free : ∀ other ∈ windows, ∀ page, window.Covers page → ¬other.Covers page) :
    ∃ going after, mapPages ignores window.start window.phys memory tables
        (window.size.toNat / 4096) = some (going, after) ∧ Apart after (window :: windows) := by
  have fresh : ∀ i < window.size.toNat / 4096,
      tables (pageOf (nthPage window.start i)) = none := by
    intro i indexLt
    rw [← Option.not_isSome_iff_eq_none]
    intro isMapped
    obtain ⟨other, mem, covers⟩ := apart.covered _ isMapped
    exact free other mem _ ⟨i, indexLt, rfl⟩ covers
  obtain ⟨going, after, looped, mapsOnly⟩ := mapPages_fresh distinct fresh
  refine ⟨going, after, looped, pairwise_cons.mpr ⟨free, apart.disjoint⟩, ?_, ?_⟩
  · intro page isMapped
    rcases mapsOnly page with same | ⟨i, indexLt, isPage, -⟩
    · obtain ⟨other, mem, covers⟩ := apart.covered page (same ▸ isMapped)
      exact ⟨other, mem_cons_of_mem _ mem, covers⟩
    · exact ⟨window, mem_cons_self, i, indexLt, isPage⟩
  intro other mem i indexLt paddr leads
  rcases mapsOnly (pageOf (nthPage other.start i)) with same | ⟨found, foundLt, isPage, isMapped⟩
  · rcases mem_cons.mp mem with rfl | old
    · rw [same, fresh i indexLt] at leads
      cases leads
    · exact apart.leads other old i indexLt paddr (same ▸ leads)
  rcases mem_cons.mp mem with rfl | old
  · have sameIndex : found = i := by
      rcases lt_trichotomy found i with below | equal | above
      · exact absurd isPage.symm (distinct i indexLt found below)
      · exact equal
      · exact absurd isPage (distinct found foundLt i above)
    rw [isMapped, sameIndex] at leads
    exact (Option.some.inj leads).symm
  · exact absurd ⟨i, indexLt, rfl⟩ (free other old _ ⟨found, foundLt, isPage⟩)

theorem toNat_pageOf (va : Word) : (pageOf va).toNat = va.toNat / 4096 % 2 ^ 36 := by
  rw [pageOf, BitVec.extractLsb'_toNat, Nat.shiftRight_eq_div_pow]

/-- A window without pages, or whole pages above the base that do not wrap. -/
def Window.Placed (window : Window) (stop : Nat) : Prop :=
  window.size = 0 ∨
    barMmioVbase.toNat ≤ window.start.toNat ∧ window.start.toNat % 4096 = 0 ∧
      window.start.toNat + window.size.toNat ≤ stop

theorem Window.Placed.toNat_page (placed : window.Placed (2 ^ 64)) {i : Nat}
    (indexLt : i < window.size.toNat / 4096) :
    (pageOf (nthPage window.start i)).toNat + 0xFFFF000000000 =
      window.start.toNat / 4096 + i := by
  rcases placed with empty | ⟨above, aligned, below⟩
  · simp [empty] at indexLt
  · have base : barMmioVbase.toNat = 0xFFFFD00000000000 := rfl
    rw [toNat_pageOf, nthPage, BitVec.toNat_add, BitVec.toNat_ofNat]
    omega

theorem Window.Placed.distinct (placed : window.Placed (2 ^ 64)) :
    ∀ first < window.size.toNat / 4096, ∀ second < first,
      pageOf (nthPage window.start second) ≠ pageOf (nthPage window.start first) := by
  intro first firstLt second secondLt same
  have firstPage := placed.toNat_page firstLt
  have secondPage := placed.toNat_page (secondLt.trans firstLt)
  rw [same] at secondPage
  omega

theorem Window.Placed.free {other : Window} (placed : window.Placed (2 ^ 64))
    (below : other.Placed window.start.toNat) (page : BitVec 36) (covers : window.Covers page) :
    ¬other.Covers page := by
  obtain ⟨i, indexLt, rfl⟩ := covers
  rintro ⟨found, foundLt, same⟩
  have otherPlaced : other.Placed (2 ^ 64) := by
    apply below.imp_right
    rintro ⟨above, aligned, small⟩
    exact ⟨above, aligned, by omega⟩
  have here := placed.toNat_page indexLt
  have there := otherPlaced.toNat_page foundLt
  rw [same] at here
  rcases below with empty | ⟨above, aligned, small⟩
  · simp [empty] at foundLt
  · omega

/-- Only one driver maps something: `e1000_map_bar` comes once and after empty windows, and
`map_bar` with a length comes before it and with addresses left. -/
def Exclusive (s : State) : Action → Prop
  | .mapBar dev barIdx offset length _ =>
    mapLen (dev.barPhys barIdx) offset length = 0 ∨
      (∀ window ∈ s.windows, window.driver = .virtio) ∧
        s.next.toNat + (mapLen (dev.barPhys barIdx) offset length).toNat < 2 ^ 64
  | .e1000MapBar _ _ => ∀ window ∈ s.windows, window.size = 0

structure Inv (s : State) : Prop where
  running : s.panicked = false
  apart : Apart s.tables s.windows
  aligned : s.next.toNat % 4096 = 0
  above : barMmioVbase.toNat ≤ s.next.toNat
  below : (∀ window ∈ s.windows, window.driver = .virtio) →
    ∀ window ∈ s.windows, window.Placed s.next.toNat

theorem Inv.add (inv : Inv s) {next : Word} (placed : window.Placed (2 ^ 64))
    (free : ∀ other ∈ s.windows, ∀ page, window.Covers page → ¬other.Covers page)
    (aligned : next.toNat % 4096 = 0) (above : barMmioVbase.toNat ≤ next.toNat)
    (below : (∀ other ∈ window :: s.windows, other.driver = .virtio) →
      ∀ other ∈ window :: s.windows, other.Placed next.toNat) :
    Inv ({ s with next }.mapped window (mapPages ignores window.start window.phys memory
      s.tables (window.size.toNat / 4096))) := by
  obtain ⟨going, after, looped, apart⟩ := inv.apart.add placed.distinct free
  rw [looped]
  exact ⟨inv.running, apart, aligned, above, below⟩

theorem toNat_mapLen_mod (phys off length : Word) :
    (mapLen phys off length).toNat % 4096 = 0 := by
  rw [mapLen, mapPhys, BitVec.toNat_sub, Vmm.toNat_and_not_low 12 4095 (by decide),
    Vmm.toNat_and_not_low 12 4095 (by decide)]
  omega

theorem vmmMapRegion_pages {size : Word} (startAligned : va.toNat % 4096 = 0)
    (sizeAligned : size.toNat % 4096 = 0) :
    vmmMapRegion tables va (paddr &&& ~~~4095) size memory =
      mapPages false va (paddr &&& ~~~4095) memory tables (size.toNat / 4096) := by
  have start : va &&& ~~~4095 = va := by
    apply BitVec.eq_of_toNat_eq
    rw [Vmm.toNat_and_not_low 12 4095 (by decide)]
    omega
  have total : ((va + size + 4095) &&& ~~~4095) - va = size := by
    apply BitVec.eq_of_toNat_eq
    have mask : (4095 : Word).toNat = 4095 := rfl
    rw [BitVec.toNat_sub, Vmm.toNat_and_not_low 12 4095 (by decide), BitVec.toNat_add,
      BitVec.toNat_add, mask]
    omega
  simp only [vmmMapRegion, start, total, BitVec.and_assoc, BitVec.and_self]

theorem Inv.mapBar (inv : Inv s) {dev : Device} {barIdx : Nat} {off length : Word}
    (exclusive : Exclusive s (.mapBar dev barIdx off length memory)) :
    Inv (mapBar s dev barIdx off length memory).2 := by
  unfold Mmio.mapBar
  split
  · exact inv
  dsimp only
  split
  · exact inv
  have lenAligned := toNat_mapLen_mod (dev.barPhys barIdx) off length
  have aligned := inv.aligned
  have above := inv.above
  rw [mapPhys, vmmMapRegion_pages aligned lenAligned]
  have mask : (4095 : Word).toNat = 4095 := rfl
  have moved : ((s.next + mapLen (dev.barPhys barIdx) off length + 4095) &&&
      ~~~4095).toNat = s.next.toNat + (mapLen (dev.barPhys barIdx) off length).toNat := by
    rw [Vmm.toNat_and_not_low 12 4095 (by decide), BitVec.toNat_add, BitVec.toNat_add]
    rcases exclusive with empty | ⟨-, small⟩
    · have none : (0 : Word).toNat = 0 := rfl
      rw [empty]
      omega
    · omega
  change Inv (State.mapped _ _ _)
  apply inv.add
  · apply exclusive.imp_right
    rintro ⟨-, small⟩
    exact ⟨above, aligned, small.le⟩
  · intro other mem page covers
    rcases exclusive with empty | ⟨virtio, small⟩
    · obtain ⟨i, indexLt, -⟩ := covers
      simp [empty] at indexLt
    · exact Window.Placed.free (.inr ⟨above, aligned, small.le⟩)
        (inv.below virtio other mem) page covers
  · rw [moved]
    omega
  · rw [moved]
    omega
  · intro virtio other mem
    rw [moved]
    rcases mem_cons.mp mem with rfl | old
    · exact .inr ⟨above, aligned, le_rfl⟩
    apply (inv.below (fun window found => virtio window (mem_cons_of_mem _ found))
      other old).imp_right
    rintro ⟨otherAbove, otherAligned, small⟩
    exact ⟨otherAbove, otherAligned, by omega⟩

theorem Inv.e1000MapBar (inv : Inv s) {bar0Phys : Word}
    (exclusive : Exclusive s (.e1000MapBar bar0Phys memory)) :
    Inv (e1000MapBar s bar0Phys memory) := by
  have aligned : nicVirtBase.toNat % 4096 = 0 := by decide
  have fits : nicVirtBase.toNat + nicSize.toNat ≤ 2 ^ 64 := by decide
  apply inv.add
  · exact .inr ⟨le_rfl, aligned, fits⟩
  · rintro other mem page - ⟨i, indexLt, -⟩
    simp [exclusive other mem] at indexLt
  · exact inv.aligned
  · exact inv.above
  · intro virtio
    cases virtio _ mem_cons_self

/-- As long as one of the two drivers maps nothing, no call panics and all windows stay apart. -/
theorem windows_apart (reached : system.ReachableWhere Exclusive s) :
    s.panicked = false ∧ Apart s.tables s.windows := by
  have inv : Inv s := by
    refine reached.invariant ?_ fun s action after _ inv exclusive ran => ?_
    · rintro _ rfl
      exact ⟨rfl, ⟨.nil, nofun, nofun⟩, by decide, le_rfl, nofun⟩
    have running := inv.running
    cases action with
    | mapBar dev barIdx off length memory =>
      simp only [system, step, running, Bool.false_eq_true, if_false, Option.some.injEq] at ran
      exact ran ▸ inv.mapBar exclusive
    | e1000MapBar bar0Phys memory =>
      simp only [system, step, running, Bool.false_eq_true, if_false, Option.some.injEq] at ran
      exact ran ▸ inv.e1000MapBar exclusive
  exact ⟨inv.running, inv.apart⟩

/-- A block device with registers of 16 KiB in its fifth base address register. -/
def blockDevice : Device := ⟨fun _ => 0xFE000000, fun barIdx => if barIdx = 4 then 0x4000 else 0⟩

def mapCommon : Action := .mapBar blockDevice 4 0 0x1000 fun _ => true

def mapIsr : Action := .mapBar blockDevice 4 0x1000 0x1000 fun _ => true

def mapNic : Action := .e1000MapBar 0xFEB80000 fun _ => true

def afterCalls (actions : List Action) : State := (system.run bootState actions).getD bootState

theorem windows_apart_block : (afterCalls [mapCommon, mapIsr]).windows.map (·.start) =
        [0xFFFFD00000001000, 0xFFFFD00000000000] ∧
      (afterCalls [mapCommon, mapIsr]).panicked = false := by
  have common : Exclusive bootState mapCommon := Or.inr ⟨nofun, by decide⟩
  have isr : Exclusive (afterCalls [mapCommon]) mapIsr := Or.inr ⟨by decide, by decide⟩
  have first : system.ReachableWhere Exclusive (afterCalls [mapCommon]) :=
    .next (.start rfl) common rfl
  have second : system.ReachableWhere Exclusive (afterCalls [mapCommon, mapIsr]) :=
    .next first isr rfl
  exact ⟨by decide +kernel, (windows_apart second).1⟩

/-- With both devices present, the first windows of the two drivers are at the same address, and
the second call panics. -/
theorem windows_collide : system.Reachable (afterCalls [mapCommon, mapNic]) ∧
      (afterCalls [mapCommon, mapNic]).panicked = true ∧
      (afterCalls [mapCommon, mapNic]).windows.map (·.start) =
        [0xFFFFD00000000000, 0xFFFFD00000000000] :=
  ⟨TransitionSystem.Reachable.getD_run (.start rfl) _, by decide +kernel⟩

end LaOS.Mmio
