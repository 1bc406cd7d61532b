import LaOS.PmmInit

/-!
# Blocks of the page allocator

The memory map and the blocks that callers hold determine the bitmap, so every free of
a held block succeeds.
-/

namespace LaOS.Pmm

open List

def Allocator.Free (allocator : Allocator) (i : Nat) : Prop :=
  allocator.bitmap.test i = false ∧ lowmemPages ≤ i ∧ i < allocator.totalPages

variable {alloc : Allocator} {count i start : Nat}

def Allocator.FreeRun (allocator : Allocator) (count start : Nat) : Prop :=
  ∀ page, start ≤ page → page < start + count → allocator.Free page

theorem findRunFrom_spec {remaining length : Nat} (short : length < count)
    (within : length ≤ i) (adjacent : length ≠ 0 → start + length = i)
    (run : ∀ page, i - length ≤ page → page < i → alloc.Free page)
    (earliest : ∀ found, alloc.FreeRun count found → i - length ≤ found)
    (total : i + remaining = alloc.totalPages) :
    match findRunFrom alloc count remaining i start length with
    | some found => IsLeast {found | alloc.FreeRun count found} found
    | none => ∀ found, ¬ alloc.FreeRun count found := by
  induction remaining generalizing i start length with
  | zero =>
    intro found isRun
    have above := earliest found isRun
    have last := (isRun (found + count - 1) (by omega) (by omega)).2.2
    omega
  | succ remaining ih =>
    unfold findRunFrom
    simp only [Bool.and_eq_true, Bool.not_eq_true', indexSafe, decide_eq_true_eq]
    by_cases pageFree : alloc.bitmap.test i = false ∧ lowmemPages ≤ i ∧
        i < alloc.totalPages
    · rw [if_pos pageFree]
      have startEq : (if length = 0 then i else start) = i - length := by
        split
        · omega
        next nonzero =>
          omega
      have longer : ∀ page, i - length ≤ page → page < i + 1 → alloc.Free page := by
        intro page above below
        by_cases isLast : page = i
        · exact isLast ▸ pageFree
        · exact run page above (by omega)
      rw [startEq]
      by_cases complete : count ≤ length + 1
      · rw [if_pos complete]
        exact ⟨fun page above below => longer page above (by omega), earliest⟩
      · rw [if_neg complete]
        refine ih (by omega) (by omega) (fun _ => by omega) (fun page above => ?_) ?_ (by omega)
        · exact longer page (by omega)
        · simpa only [Nat.add_sub_add_right] using earliest
    · rw [if_neg pageFree]
      refine ih (by omega) (by omega) (fun nonzero => absurd rfl nonzero)
        (fun page above below => by omega) (fun found isRun => ?_) (by omega)
      have above := earliest found isRun
      by_contra before
      exact pageFree (isRun i (by omega) (by omega))

theorem findRun_spec (positive : 0 < count) : match findRun alloc count with
    | some found => IsLeast {found | alloc.FreeRun count found} found
    | none => ∀ found, ¬ alloc.FreeRun count found :=
  findRunFrom_spec positive le_rfl (fun nonzero => absurd rfl nonzero)
    (fun page _ below => by omega) (fun _ _ => Nat.zero_le _) (Nat.zero_add _)

theorem free_of_findRun (positive : 0 < count) (isFound : findRun alloc count = some start) :
    alloc.FreeRun count start := by
  have spec := @findRun_spec alloc count positive
  rw [isFound] at spec
  exact spec.1

/-- `pmm_alloc_run` takes the first run of free pages, and it fails only when there
is none. -/
theorem allocRun_first_fit (positive : 0 < count) : match allocRun alloc count with
    | some (addr, after) => ∃ start, IsLeast {start | alloc.FreeRun count start} start ∧
        addr = start * pageSize ∧
        (∀ i, after.bitmap.test i = true ↔ alloc.bitmap.test i = true ∨
          start ≤ i ∧ i < start + count) ∧
        after = { alloc with
          bitmap := after.bitmap
          page := { alloc.page with
            freed := alloc.page.freed - BitVec.ofNat 64 count } }
    | none => ∀ start, ¬ alloc.FreeRun count start := by
  have spec := @findRun_spec alloc count positive
  unfold allocRun
  generalize findRun alloc count = outcome at spec
  cases outcome with
  | none => exact spec
  | some start =>
    refine ⟨start, spec, rfl, fun i => ?_, rfl⟩
    rw [Bitmap.test_setRange, Bool.or_eq_true, decide_eq_true_eq, or_comm]

/-- Of the pages from 256 to 263, all but the first and the third are free. -/
def patchyAllocator : Allocator :=
  ⟨fun offset => if offset = 32 then 5 else 0, 0, 264, ⟨264, 0, 0, 8, 6⟩⟩

theorem allocRun_first_fit_patchy :
    (allocRun patchyAllocator 2).map Prod.fst = some (259 * pageSize) ∧
      IsLeast {start | patchyAllocator.FreeRun 2 start} 259 := by
  have returned : (allocRun patchyAllocator 2).map Prod.fst = some (259 * pageSize) := by
    decide +kernel
  refine ⟨returned, ?_⟩
  generalize patchyAllocator = alloc at returned ⊢
  have spec := @allocRun_first_fit alloc 2 (by decide)
  generalize allocRun alloc 2 = outcome at spec returned
  cases outcome with
  | none => cases returned
  | some answer =>
    obtain ⟨start, least, addr, -⟩ := spec
    have startEq :=
      Nat.eq_of_mul_eq_mul_right (by decide) (addr.symm.trans (Option.some.inj returned))
    exact startEq ▸ least

/-- The pages of a block of the given address and number of pages. -/
def Covers (block : Nat × Nat) (i : Nat) : Prop :=
  block.1 / pageSize ≤ i ∧ i < block.1 / pageSize + block.2

def Apart (block other : Nat × Nat) : Prop :=
  ∀ i, Covers block i → ¬ Covers other i

instance : Std.Symm Apart where
  symm _ _ apart i covered others := apart i others covered

/-- The blocks that callers hold, and the bits that follow from them. -/
structure HeldOk (mmap : Memmap) (s : State) : Prop where
  layout : Layout mmap s.allocator
  calm : s.panicked = false
  aligned : ∀ block ∈ s.held, pageSize ∣ block.1 ∧ 0 < block.2
  pages : ∀ block ∈ s.held, ∀ i, Covers block i → UsablePage mmap i ∧
    lowmemPages ≤ i ∧ ¬ s.allocator.OwnPage i
  apart : s.held.Pairwise Apart
  bits : ∀ i < s.allocator.totalPages, s.allocator.bitmap.test i = false ↔
    UsablePage mmap i ∧ lowmemPages ≤ i ∧ ¬ s.allocator.OwnPage i ∧
      ∀ block ∈ s.held, ¬ Covers block i

namespace HeldOk

variable {mmap : Memmap} {s after : State}

section

variable (held : HeldOk mmap s)

include held

variable {block : Nat × Nat}

theorem index_lt (ok : MemmapOk mmap) (mem : block ∈ s.held) (covered : Covers block i) :
    i < s.allocator.totalPages := by
  rw [held.layout.totalPages]
  exact usablePage_lt ok (held.pages block mem i covered).1

theorem isSet (ok : MemmapOk mmap) (mem : block ∈ s.held) (covered : Covers block i) :
    s.allocator.bitmap.test i = true := by
  rw [← Bool.not_eq_false, held.bits i (held.index_lt ok mem covered)]
  exact fun isFree => isFree.2.2.2 block mem covered

theorem nodup : s.held.Nodup := by
  refine held.apart.imp_of_mem ?_
  rintro block other mem _ apart rfl
  have positive := (held.aligned block mem).2
  exact apart (block.1 / pageSize) ⟨le_rfl, by omega⟩ ⟨le_rfl, by omega⟩

theorem take (positive : 0 < count)
    (isFree : ∀ i, start ≤ i → i < start + count → s.allocator.Free i)
    (page : PageInfo) (usable : page.usable = s.allocator.page.usable) :
    HeldOk mmap { s with
      allocator := { s.allocator with
        bitmap := s.allocator.bitmap.setRange start count, page }
      held := (start * pageSize, count) :: s.held } := by
  have covers : ∀ i, Covers (start * pageSize, count) i ↔
      start ≤ i ∧ i < start + count := by
    simp only [Covers, pageSize]
    omega
  have poolOf : ∀ i, start ≤ i → i < start + count → UsablePage mmap i ∧
      lowmemPages ≤ i ∧ ¬ s.allocator.OwnPage i ∧
        ∀ block ∈ s.held, ¬ Covers block i := by
    intro i above below
    obtain ⟨isClear, _, indexLt⟩ := isFree i above below
    exact (held.bits i indexLt).mp isClear
  refine ⟨⟨held.layout.chosen, held.layout.totalPages, held.layout.own,
    usable.trans held.layout.usable⟩, held.calm, ?_, ?_, ?_, ?_⟩
  · intro block mem
    rcases mem_cons.mp mem with rfl | before
    · exact ⟨Nat.dvd_mul_left _ _, positive⟩
    · exact held.aligned block before
  · intro block mem i covered
    rcases mem_cons.mp mem with rfl | before
    · obtain ⟨above, below⟩ := (covers i).mp covered
      obtain ⟨isUsable, isHigh, notOwn, _⟩ := poolOf i above below
      exact ⟨isUsable, isHigh, notOwn⟩
    · exact held.pages block before i covered
  · refine pairwise_cons.mpr ⟨?_, held.apart⟩
    intro block mem i covered
    obtain ⟨above, below⟩ := (covers i).mp covered
    exact (poolOf i above below).2.2.2 block mem
  · intro i indexLt
    have before := held.bits i indexLt
    simp only [Bitmap.test_setRange, Bool.or_eq_false_iff, decide_eq_false_iff_not, before,
      forall_mem_cons, covers]
    exact ⟨fun ⟨outside, isUsable, isHigh, notOwn, others⟩ =>
      ⟨isUsable, isHigh, notOwn, outside, others⟩, fun ⟨isUsable, isHigh, notOwn, outside, others⟩ =>
      ⟨outside, isUsable, isHigh, notOwn, others⟩⟩

theorem giveBack (mem : block ∈ s.held) (page : PageInfo)
    (usable : page.usable = s.allocator.page.usable) : HeldOk mmap { s with
      allocator := { s.allocator with
        bitmap := s.allocator.bitmap.clearRange (block.1 / pageSize) block.2, page }
      held := s.held.erase block } := by
  have remaining : ∀ other, other ∈ s.held.erase block ↔ other ≠ block ∧ other ∈ s.held :=
    fun other => held.nodup.mem_erase_iff
  refine ⟨⟨held.layout.chosen, held.layout.totalPages, held.layout.own,
    usable.trans held.layout.usable⟩, held.calm, ?_, ?_, ?_, ?_⟩
  · exact fun other stays => held.aligned other ((remaining other).mp stays).2
  · exact fun other stays => held.pages other ((remaining other).mp stays).2
  · exact held.apart.sublist erase_sublist
  · intro i indexLt
    have before := held.bits i indexLt
    simp only [Bitmap.test_clearRange, Bool.and_eq_false_iff, Bool.not_eq_false',
      decide_eq_true_eq, before, remaining]
    constructor
    · rintro (covered | ⟨isUsable, isHigh, notOwn, others⟩)
      · obtain ⟨isUsable, isHigh, notOwn⟩ := held.pages block mem i covered
        refine ⟨isUsable, isHigh, notOwn, ?_⟩
        rintro other ⟨ne, stays⟩ otherCovers
        exact held.apart.forall mem stays ne.symm i covered otherCovers
      · exact ⟨isUsable, isHigh, notOwn, fun other stays => others other stays.2⟩
    rintro ⟨isUsable, isHigh, notOwn, others⟩
    by_cases covered : Covers block i
    · exact .inl covered
    refine .inr ⟨isUsable, isHigh, notOwn, ?_⟩
    intro other stays
    by_cases same : other = block
    · rwa [same]
    · exact others other ⟨same, stays⟩

end

end HeldOk

theorem freeLoop_eq {bitmap : Bitmap}
    (isSet : ∀ page, i ≤ page → page < i + count → bitmap.test page = true) :
    freeLoop bitmap i count = .ok (bitmap.clearRange i count) := by
  induction count generalizing bitmap i with
  | zero => rfl
  | succ count ih =>
    have first := isSet i le_rfl (by omega)
    rw [freeLoop, first, Bitmap.clearRange_succ]
    refine ih fun page above below => ?_
    rw [Bitmap.test_clear, isSet page (by omega) (by omega)]
    simp
    omega

/-- What a step of a client does: nothing, take a run of free pages, or give back
a block. -/
inductive Effect (s : State) : State → Prop
  | same : Effect s s
  | take {start count : Nat} (positive : 0 < count)
      (isFree : ∀ i, start ≤ i → i < start + count → s.allocator.Free i) :
      Effect s { s with
        allocator := { s.allocator with
          bitmap := s.allocator.bitmap.setRange start count
          page := accountAlloc s.allocator.page count }
        held := (start * pageSize, count) :: s.held }
  | giveBack {block : Nat × Nat} (mem : block ∈ s.held) :
      Effect s { s with
        allocator := { s.allocator with
          bitmap := s.allocator.bitmap.clearRange (block.1 / pageSize) block.2
          page := accountFree s.allocator.page block.2 }
        held := s.held.erase block }

theorem effect_allocRun {s : State} (positive : 0 < count) :
    Effect s (receive s count (allocRun s.allocator count)) := by
  unfold allocRun
  cases isFound : findRun s.allocator count with
  | none => exact .same
  | some start => exact .take positive (free_of_findRun positive isFound)

variable {mmap : Memmap} {s after : State}

theorem effect_free (ok : MemmapOk mmap) (held : HeldOk mmap s) {addr : Nat}
    (mem : (addr, 1) ∈ s.held) :
    Effect s (giveUp s (addr, 1) (free s.allocator addr)) := by
  have covered : Covers (addr, 1) (addr / pageSize) := ⟨le_rfl, Nat.lt_succ_self _⟩
  have isAligned := (held.aligned _ mem).1
  have indexLt := held.index_lt ok mem covered
  have isHigh := (held.pages _ mem _ covered).2.1
  have nonzero : addr ≠ 0 := by
    rintro rfl
    exact absurd isHigh (by decide)
  have freed : free s.allocator addr = .ok { s.allocator with
      bitmap := s.allocator.bitmap.clearRange (addr / pageSize) 1
      page := accountFree s.allocator.page 1 } := by
    unfold free
    rw [if_neg nonzero, if_neg (not_not.mpr (Nat.mod_eq_zero_of_dvd isAligned))]
    rw [if_neg (not_le.mpr indexLt), held.isSet ok mem covered]
    rfl
  rw [freed]
  exact .giveBack mem

theorem effect_freePages (ok : MemmapOk mmap) (held : HeldOk mmap s) {addr : Nat}
    (mem : (addr, count) ∈ s.held) :
    Effect s (giveUp s (addr, count) (freePages s.allocator addr count)) := by
  have positive := (held.aligned _ mem).2
  have first : Covers (addr, count) (addr / pageSize) :=
    ⟨le_rfl, Nat.lt_add_of_pos_right positive⟩
  have last : Covers (addr, count) (addr / pageSize + (count - 1)) :=
    ⟨Nat.le_add_right _ _, Nat.add_lt_add_left (by omega) _⟩
  have lastLt := held.index_lt ok mem last
  have isHigh := (held.pages _ mem _ first).2.1
  have nonzero : ¬ (addr = 0 ∨ count = 0) := by
    rintro (rfl | rfl)
    · exact absurd isHigh (by decide)
    · exact absurd positive (Nat.lt_irrefl 0)
  have totalLt : s.allocator.totalPages < 2 ^ 64 := by
    rw [held.layout.totalPages]
    exact (Nat.div_le_self _ _).trans_lt (Nat.mod_lt _ (by decide))
  have noWrap : (addr / pageSize + count) % 2 ^ 64 = addr / pageSize + count :=
    Nat.mod_eq_of_lt (by omega)
  have freed : freePages s.allocator addr count = .ok { s.allocator with
      bitmap := s.allocator.bitmap.clearRange (addr / pageSize) count
      page := accountFree s.allocator.page count } := by
    unfold freePages
    rw [if_neg nonzero]
    rw [if_neg (by omega), noWrap, if_neg (by omega), freeLoop_eq fun page above below =>
      held.isSet ok mem ⟨above, below⟩]
    rfl
  rw [freed]
  exact .giveBack mem

theorem step_effect (ok : MemmapOk mmap) (held : HeldOk mmap s) {action : Action}
    (ran : step s action = some after) : Effect s after := by
  unfold step at ran
  split at ran
  · cases ran
  cases action with
  | alloc =>
    cases ran
    exact effect_allocRun Nat.one_pos
  | allocPages count =>
    cases ran
    unfold allocPages
    split
    · exact .same
    next nonzero => exact effect_allocRun (Nat.pos_of_ne_zero nonzero)
  | free addr =>
    obtain ⟨mem, ⟨⟩⟩ := Option.ite_none_right_eq_some.mp ran
    exact effect_free ok held mem
  | freePages addr count =>
    obtain ⟨mem, ⟨⟩⟩ := Option.ite_none_right_eq_some.mp ran
    exact effect_freePages ok held mem

theorem HeldOk.effect (held : HeldOk mmap s) (effect : Effect s after) :
    HeldOk mmap after := by
  cases effect with
  | same => exact held
  | take positive isFree => exact held.take positive isFree _ rfl
  | giveBack mem => exact held.giveBack mem _ rfl

theorem heldOk_of_reachable (ok : MemmapOk mmap) (reached : (system mmap).Reachable s) :
    HeldOk mmap s := by
  refine reached.invariant ?_ fun _ _ _ _ held ran => held.effect (step_effect ok held ran)
  rintro first ⟨memory, alloc, done, rfl⟩
  have start := initialized ok done
  refine ⟨start.toLayout, rfl, nofun, nofun, List.Pairwise.nil, ?_⟩
  intro i indexLt
  rw [start.bits i indexLt]
  simp

/-- Blocks consist of usable pages above 1 MiB and outside the bitmap, no two share a page, and
nothing panics. -/
theorem blocks_exclusive (ok : MemmapOk mmap) (reached : (system mmap).Reachable s) :
    (∀ block ∈ s.held, pageSize ∣ block.1 ∧ lowmemLimit ≤ block.1 ∧
      ∀ i, Covers block i → UsablePage mmap i ∧ ¬ s.allocator.OwnPage i) ∧
    s.held.Pairwise Apart ∧ s.panicked = false := by
  have held := heldOk_of_reachable ok reached
  refine ⟨?_, held.apart, held.calm⟩
  intro block mem
  obtain ⟨isAligned, positive⟩ := held.aligned block mem
  have first : Covers block (block.1 / pageSize) := ⟨le_rfl, by omega⟩
  have isHigh := (held.pages block mem _ first).2.1
  refine ⟨isAligned, ?_, ?_⟩
  · simp only [lowmemPages, lowmemLimit, pageSize] at isHigh ⊢
    omega
  · intro i covered
    obtain ⟨isUsable, _, notOwn⟩ := held.pages block mem i covered
    exact ⟨isUsable, notOwn⟩

def fourPages : Memmap :=
  [⟨0x100000, 0x4000, .usable, by decide⟩]

theorem fourPages_ok : MemmapOk fourPages where
  aligned := by
    intro entry mem _
    rw [mem_singleton.mp mem]
    decide
  disjoint := pairwise_singleton _ _

def bootState (memory : Bitmap) (mmap : Memmap) : State :=
  match initFromMemmap memory mmap with
  | .ok allocator => ⟨allocator, [], false⟩
  | .error _ => ⟨⟨memory, 0, 0, ⟨0, 0, 0, 0, 0⟩⟩, [], true⟩

theorem initial_bootState {memory : Bitmap} (calm : (bootState memory mmap).panicked = false) :
    (system mmap).initial (bootState memory mmap) := by
  unfold bootState at calm ⊢
  split at calm
  next alloc done => exact ⟨memory, alloc, done, rfl⟩
  next => cases calm

def fourPagesState : State :=
  ((system fourPages).run (bootState (fun _ => 0) fourPages)
    [.allocPages 2, .alloc, .alloc, .free 0x103000]).getD (bootState (fun _ => 0) fourPages)

theorem blocks_exclusive_fourPages :
    fourPagesState.held = [(0x101000, 2)] ∧ fourPagesState.panicked = false ∧
      ∀ i, Covers (0x101000, 2) i → UsablePage fourPages i := by
  have reached : (system fourPages).Reachable fourPagesState :=
    TransitionSystem.Reachable.getD_run (.start (initial_bootState (by decide +kernel))) _
  have heldEq : fourPagesState.held = [(0x101000, 2)] := by
    decide +kernel
  obtain ⟨blocks, _, calm⟩ := blocks_exclusive fourPages_ok reached
  refine ⟨heldEq, calm, fun i covered => ?_⟩
  exact ((blocks (0x101000, 2) (by rw [heldEq]; exact mem_cons_self)).2.2 i covered).1

/-- A usable page above 1 MiB and outside the bitmap that nobody holds. -/
def Available (mmap : Memmap) (s : State) (i : Nat) : Prop :=
  UsablePage mmap i ∧ lowmemPages ≤ i ∧ ¬ s.allocator.OwnPage i ∧
    ∀ block ∈ s.held, ¬ Covers block i

theorem HeldOk.free_iff (held : HeldOk mmap s) (ok : MemmapOk mmap) :
    s.allocator.Free i ↔ Available mmap s i := by
  constructor
  · rintro ⟨isClear, -, inside⟩
    exact (held.bits i inside).mp isClear
  · intro available
    have inside := held.layout.totalPages ▸ usablePage_lt ok available.1
    exact ⟨(held.bits i inside).mpr available, available.2.1, inside⟩

/-- No page is ever lost: after any run, allocation fails only when no run of available pages is
long enough. -/
theorem allocPages_fails_iff (ok : MemmapOk mmap) (reached : (system mmap).Reachable s) :
    allocPages s.allocator count = none ↔ count = 0 ∨
      ∀ start, ∃ i, start ≤ i ∧ i < start + count ∧ ¬ Available mmap s i := by
  have held := heldOk_of_reachable ok reached
  rw [allocPages]
  split
  next isZero => exact iff_of_true rfl (.inl isZero)
  next nonzero =>
    have search := @findRun_spec s.allocator count (Nat.pos_of_ne_zero nonzero)
    have noRun : (∀ start, ¬ s.allocator.FreeRun count start) ↔ ∀ start, ∃ i,
        start ≤ i ∧ i < start + count ∧ ¬ Available mmap s i := by
      simp only [Allocator.FreeRun, held.free_iff ok, not_forall, exists_prop]
    rw [or_iff_right nonzero, ← noRun, allocRun]
    split at search
    next start found =>
      rw [found]
      exact iff_of_false (by rintro ⟨⟩) fun missing => missing start search.1
    next missing =>
      rw [missing]
      exact iff_of_true rfl search

/-- Of the four pages one holds the bitmap. -/
theorem allocPages_fails_fourPages :
    allocPages (bootState (fun _ => 0) fourPages).allocator 4 = none ∧ ∀ start, ∃ i,
      start ≤ i ∧ i < start + 4 ∧
        ¬ Available fourPages (bootState (fun _ => 0) fourPages) i := by
  have failed : allocPages (bootState (fun _ => 0) fourPages).allocator 4 = none :=
    Option.isNone_iff_eq_none.mp (by decide +kernel)
  refine ⟨failed, ((allocPages_fails_iff fourPages_ok (.start ?_)).mp failed).resolve_left
    four_ne_zero⟩
  exact initial_bootState (by decide +kernel)

end LaOS.Pmm
