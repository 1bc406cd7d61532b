import LaOS.PmmBlocks

/-!
# The counters of the page allocator

The pages of a bitmap below 1 MiB are subtracted twice; otherwise `freed` and
`usable - freed` count the free and the used pages.
-/

namespace LaOS.Pmm

open List

variable {mmap : Memmap} {alloc : Allocator} {s after : State}

def Allocator.clearPages (alloc : Allocator) : Finset Nat :=
  alloc.bitmap.clearIn lowmemPages alloc.totalPages

def highPages (mmap : Memmap) (alloc : Allocator) : Finset Nat :=
  (Finset.Ico lowmemPages alloc.totalPages).filter (UsablePage mmap)

instance (block : Nat × Nat) (i : Nat) : Decidable (Covers block i) :=
  inferInstanceAs (Decidable (_ ∧ _))

/-- The usable pages above the low memory that the bitmap occupies or a caller holds. -/
def usedPages (mmap : Memmap) (s : State) : Finset Nat :=
  (highPages mmap s.allocator).filter fun i =>
    s.allocator.OwnPage i ∨ ∃ block ∈ s.held, Covers block i

structure Accounted (mmap : Memmap) (s : State) : Prop where
  freed : s.allocator.page.freed.toNat = s.allocator.clearPages.card
  used : (s.allocator.page.usable - s.allocator.page.freed).toNat =
    (usedPages mmap s).card

/-- The first of the largest usable entries that are not empty. -/
def firstLargest (mmap : Memmap) : Option MemmapEntry :=
  (mmap.filter fun entry => entry.type = .usable ∧ 0 < entry.length).argmax (·.length)

theorem pick_eq_firstLargest (mmap : Memmap) : (pick mmap).maxEntry = firstLargest mmap ∧
    (pick mmap).maxLength = ((firstLargest mmap).map (·.length)).getD 0 := by
  induction mmap using reverseRecOn with
  | nil => exact ⟨rfl, rfl⟩
  | append_singleton seen entry ih =>
    obtain ⟨sameEntry, sameLength⟩ := ih
    rw [pick, foldl_concat, ← pick, pickEntry]
    by_cases usable : entry.type = .usable
    · rw [if_neg (not_not.mpr usable)]
      by_cases longer : (pick seen).maxLength < entry.length
      · have chosen : firstLargest (seen ++ [entry]) = some entry := by
          rw [sameLength] at longer
          have positive : 0 < entry.length := Nat.zero_lt_of_lt longer
          rw [firstLargest, filter_append, filter_cons, filter_nil, if_pos (by simp [usable, positive]),
            argmax_concat, ← firstLargest]
          cases first : firstLargest seen with
          | none => rfl
          | some other =>
            rw [first] at longer
            exact if_pos longer
        simp only [if_pos longer, chosen]
        split <;> exact ⟨rfl, rfl⟩
      · have kept : firstLargest (seen ++ [entry]) = firstLargest seen := by
          rw [sameLength] at longer
          rw [firstLargest, filter_append, filter_cons, filter_nil]
          split
          next counted =>
            rw [argmax_concat, ← firstLargest]
            cases first : firstLargest seen with
            | none =>
              rw [first] at longer
              exact absurd (of_decide_eq_true counted).2 longer
            | some other =>
              rw [first] at longer
              exact if_neg longer
          next => rw [append_nil, firstLargest]
        simp only [if_neg longer, kept]
        split <;> exact ⟨sameEntry, sameLength⟩
    · have same : firstLargest (seen ++ [entry]) = firstLargest seen := by
        simp [firstLargest, usable]
      rw [if_pos usable, same]
      exact ⟨sameEntry, sameLength⟩

theorem card_highPages (ok : MemmapOk mmap) (layout : Layout mmap alloc) :
    (highPages mmap alloc).card = (usablePages mmap).countP (lowmemPages ≤ ·) := by
  have same : highPages mmap alloc =
      ((usablePages mmap).filter (lowmemPages ≤ ·)).toFinset := by
    ext i
    simp only [highPages, Finset.mem_filter, Finset.mem_Ico, mem_toFinset, mem_filter,
      mem_usablePages ok, decide_eq_true_eq]
    constructor
    · rintro ⟨⟨isHigh, _⟩, usable⟩
      exact ⟨usable, isHigh⟩
    rintro ⟨usable, isHigh⟩
    have inside := usablePage_lt ok usable
    rw [← layout.totalPages] at inside
    exact ⟨⟨isHigh, inside⟩, usable⟩
  rw [same, toFinset_card_of_nodup ((nodup_usablePages ok).filter _), countP_eq_length_filter]

theorem HeldOk.card_clear_add_used (held : HeldOk mmap s) :
    s.allocator.clearPages.card + (usedPages mmap s).card =
      (highPages mmap s.allocator).card := by
  have clearEq : s.allocator.clearPages = (highPages mmap s.allocator).filter fun i =>
      ¬ (s.allocator.OwnPage i ∨ ∃ block ∈ s.held, Covers block i) := by
    ext i
    have bits := held.bits i
    simp only [Allocator.clearPages, Bitmap.mem_clearIn, highPages, Finset.mem_filter,
      Finset.mem_Ico, not_or, not_exists, not_and]
    tauto
  rw [clearEq, Nat.add_comm]
  exact Finset.card_filter_add_card_filter_not _

theorem card_highPages_lt (layout : Layout mmap alloc) :
    (highPages mmap alloc).card < 2 ^ 64 := by
  have bounded : (highPages mmap alloc).card ≤ alloc.totalPages := by
    refine (Finset.card_filter_le _ _).trans ?_
    rw [Nat.card_Ico]
    exact Nat.sub_le _ _
  have totalLt : alloc.totalPages < 2 ^ 64 := by
    rw [layout.totalPages]
    exact (Nat.div_le_self _ _).trans_lt (Nat.mod_lt _ (by decide))
  omega

/-- `freed` counts the clear bits modulo `2 ^ 64`. -/
def FreedCounts (alloc : Allocator) : Prop :=
  alloc.page.freed = BitVec.ofNat 64 alloc.clearPages.card

theorem HeldOk.accounted (held : HeldOk mmap s) (ok : MemmapOk mmap)
    (freed : FreedCounts s.allocator) : Accounted mmap s := by
  have split := held.card_clear_add_used
  have bounded := card_highPages_lt held.layout
  have usable := held.layout.usable
  rw [← card_highPages ok held.layout, ← split, BitVec.ofNat_add, ← show _ = _ from freed] at usable
  refine ⟨?_, ?_⟩
  · rw [show s.allocator.page.freed = _ from freed]
    exact Nat.mod_eq_of_lt (by omega)
  · rw [usable, BitVec.add_comm, BitVec.add_sub_cancel]
    exact Nat.mod_eq_of_lt (by omega)

def State.Counted (s : State) : Prop :=
  FreedCounts s.allocator

theorem freed_of_effect (ok : MemmapOk mmap) (held : HeldOk mmap s)
    (effect : Effect s after)
    (freed : FreedCounts s.allocator) : FreedCounts after.allocator := by
  cases effect with
  | same => exact freed
  | @take start count positive isFree =>
    have fewer := s.allocator.bitmap.card_clearIn_setRange fun i above below =>
      (Bitmap.mem_clearIn _).mpr
        ⟨⟨(isFree i above below).2.1, (isFree i above below).2.2⟩,
          (isFree i above below).1⟩
    simp only [accountAlloc]
    rw [freed, Allocator.clearPages, ← fewer, BitVec.ofNat_add, BitVec.add_sub_cancel]
    rfl
  | @giveBack block mem =>
    have positive := (held.aligned block mem).2
    have first : Covers block (block.1 / pageSize) := ⟨le_rfl, by omega⟩
    have last : Covers block (block.1 / pageSize + (block.2 - 1)) :=
      ⟨Nat.le_add_right _ _, by omega⟩
    have isHigh := (held.pages block mem _ first).2.1
    have lastLt := held.index_lt ok mem last
    have more := s.allocator.bitmap.card_clearIn_clearRange isHigh
      (by omega : block.1 / pageSize + block.2 ≤ s.allocator.totalPages)
      fun i above below => held.isSet ok mem ⟨above, below⟩
    simp only [accountFree]
    rw [freed, ← BitVec.ofNat_add]
    exact congrArg (BitVec.ofNat 64) more.symm

theorem Initialized.card_own_add_clear (start : Initialized mmap alloc) :
    ((Finset.Ico lowmemPages alloc.totalPages).filter alloc.OwnPage).card +
      alloc.clearPages.card = (highPages mmap alloc).card := by
  have ownEq : (Finset.Ico lowmemPages alloc.totalPages).filter alloc.OwnPage =
      (highPages mmap alloc).filter alloc.OwnPage := by
    ext i
    have usable := start.own i
    simp only [highPages, Finset.mem_filter, Finset.mem_Ico]
    tauto
  have clearEq : alloc.clearPages =
      (highPages mmap alloc).filter fun i => ¬ alloc.OwnPage i := by
    ext i
    simp only [Allocator.clearPages, Bitmap.mem_clearIn, highPages, Finset.mem_filter,
      Finset.mem_Ico]
    constructor
    · rintro ⟨inside, isClear⟩
      obtain ⟨usable, _, notOwn⟩ := (start.bits i inside.2).mp isClear
      exact ⟨⟨inside, usable⟩, notOwn⟩
    · rintro ⟨⟨inside, usable⟩, notOwn⟩
      exact ⟨inside, (start.bits i inside.2).mpr ⟨usable, inside.1, notOwn⟩⟩
  rw [ownEq, clearEq]
  exact Finset.card_filter_add_card_filter_not _

section

variable (layout : Layout mmap alloc)

include layout

theorem Layout.ownPages_pos (ok : MemmapOk mmap) : 0 < alloc.ownPages := by
  obtain ⟨entry, chosen, _⟩ := layout.chosen
  obtain ⟨mem, usable, positive⟩ := (pickOk mmap).chosen entry chosen
  obtain ⟨⟨first, baseEq⟩, ⟨count, lengthEq⟩⟩ := ok.aligned entry mem usable
  have isUsable : UsablePage mmap first := by
    refine ⟨entry, mem, usable, ?_⟩
    simp only [pageSize] at baseEq lengthEq ⊢
    omega
  have inside := usablePage_lt ok isUsable
  rw [← layout.totalPages] at inside
  simp only [Allocator.ownPages, bitmapPagesOf, bitmapSizeOf, pageSize]
  omega

theorem Layout.own_lt (ok : MemmapOk mmap) {i : Nat}
    (own : alloc.OwnPage i) : i < alloc.totalPages := by
  rw [layout.totalPages]
  exact usablePage_lt ok (layout.own i own)

theorem Layout.card_own_iff (ok : MemmapOk mmap) :
    ((Finset.Ico lowmemPages alloc.totalPages).filter alloc.OwnPage).card =
      alloc.ownPages ↔ lowmemLimit ≤ alloc.base := by
  have within : (Finset.Ico lowmemPages alloc.totalPages).filter alloc.OwnPage ⊆
      Finset.Ico (alloc.base / pageSize)
        (alloc.base / pageSize + alloc.ownPages) := by
    intro i mem
    rw [Finset.mem_Ico]
    exact (Finset.mem_filter.mp mem).2
  have cardEq : (Finset.Ico (alloc.base / pageSize)
      (alloc.base / pageSize + alloc.ownPages)).card = alloc.ownPages := by
    rw [Nat.card_Ico, Nat.add_sub_cancel_left]
  have positive := layout.ownPages_pos ok
  have highIff : lowmemLimit ≤ alloc.base ↔ lowmemPages ≤ alloc.base / pageSize := by
    simp only [lowmemPages, lowmemLimit, pageSize]
    omega
  rw [highIff]
  constructor
  · intro allHigh
    have same := Finset.eq_of_subset_of_card_le within (by rw [cardEq, allHigh])
    have first : alloc.base / pageSize ∈ Finset.Ico (alloc.base / pageSize)
        (alloc.base / pageSize + alloc.ownPages) :=
      Finset.mem_Ico.mpr ⟨le_rfl, by omega⟩
    rw [← same, Finset.mem_filter, Finset.mem_Ico] at first
    exact first.1.1
  intro isHigh
  have same : (Finset.Ico lowmemPages alloc.totalPages).filter alloc.OwnPage =
      Finset.Ico (alloc.base / pageSize)
        (alloc.base / pageSize + alloc.ownPages) := by
    refine Finset.Subset.antisymm within fun i mem => ?_
    have own := Finset.mem_Ico.mp mem
    refine Finset.mem_filter.mpr ⟨Finset.mem_Ico.mpr ⟨?_, layout.own_lt ok own⟩, own⟩
    exact isHigh.trans own.1
  rw [same, cardEq]

theorem Layout.ownPages_lt : alloc.ownPages < 2 ^ 64 := by
  have totalLt : alloc.totalPages < 2 ^ 64 := by
    rw [layout.totalPages]
    exact (Nat.div_le_self _ _).trans_lt (Nat.mod_lt _ (by decide))
  simp only [Allocator.ownPages, bitmapPagesOf, bitmapSizeOf, pageSize]
  omega

end

theorem Initialized.freed_iff (start : Initialized mmap alloc) (ok : MemmapOk mmap) :
    FreedCounts alloc ↔ lowmemLimit ≤ alloc.base := by
  rw [FreedCounts, ← start.card_own_iff ok]
  have split := start.card_own_add_clear
  have cardLe : ((Finset.Ico lowmemPages alloc.totalPages).filter alloc.OwnPage).card <
      2 ^ 64 := by
    have bounded := card_highPages_lt start.toLayout
    omega
  have ownLt := start.ownPages_lt
  rw [start.freed, start.usable, ← card_highPages ok start.toLayout, ← split, BitVec.ofNat_add]
  constructor
  · intro same
    have ownEq : BitVec.ofNat 64
        ((Finset.Ico lowmemPages alloc.totalPages).filter alloc.OwnPage).card =
          BitVec.ofNat 64 alloc.ownPages := by
      rw [BitVec.sub_eq_iff_eq_add, BitVec.add_comm] at same
      exact (BitVec.add_right_inj _).mp same
    have natEq := congrArg BitVec.toNat ownEq
    rwa [BitVec.toNat_ofNat, BitVec.toNat_ofNat, Nat.mod_eq_of_lt cardLe,
      Nat.mod_eq_of_lt ownLt] at natEq
  · intro same
    rw [same, BitVec.add_comm, BitVec.add_sub_cancel]

/-- The counters agree with the bitmap in every run exactly when the first of the largest usable
entries does not begin in the low memory. -/
theorem accounting_iff_bitmap_above_lowmem (ok : MemmapOk mmap) {memory : Bitmap}
    (done : initFromMemmap memory mmap = .ok alloc) :
    (∀ s, (system mmap).Reachable s → Accounted mmap s) ↔
      ∀ entry ∈ firstLargest mmap, lowmemLimit ≤ entry.base := by
  have start := initialized ok done
  have baseOf : ∀ other, Layout mmap other →
      ((∀ entry ∈ firstLargest mmap, lowmemLimit ≤ entry.base) ↔ lowmemLimit ≤ other.base) := by
    intro other layout
    obtain ⟨entry, chosen, baseEq⟩ := layout.chosen
    rw [← (pick_eq_firstLargest mmap).1, chosen, baseEq]
    simp
  constructor
  · intro always
    have first := always ⟨alloc, [], false⟩ (.start ⟨memory, alloc, done, rfl⟩)
    rw [baseOf _ start.toLayout, ← start.freed_iff ok, FreedCounts, ← first.freed, BitVec.ofNat_toNat, BitVec.setWidth_eq]
  intro isHigh s reached
  have counted : s.Counted := by
    refine reached.invariant ?_ ?_
    · rintro first ⟨otherMemory, other, otherDone, rfl⟩
      have otherStart := initialized ok otherDone
      exact (otherStart.freed_iff ok).mpr ((baseOf other otherStart.toLayout).mp isHigh)
    · intro before action next reached freed ran
      have held := heldOk_of_reachable ok reached
      exact freed_of_effect ok held (step_effect ok held ran) freed
  exact (heldOk_of_reachable ok reached).accounted ok counted

/-- One usable entry of two pages that begins with the last low page, where the
bitmap is placed. -/
def lastLowPage : Memmap :=
  [⟨0xff000, 0x2000, .usable, by decide⟩]

theorem lastLowPage_ok : MemmapOk lastLowPage where
  aligned := by
    intro entry mem _
    rw [mem_singleton.mp mem]
    decide
  disjoint := pairwise_singleton _ _

/-- One bit above the low memory is clear and no page there is in use, but `freed`
is 0 and `usable - freed` is 1. -/
theorem lastLowPage_miscounted :
    MemmapOk lastLowPage ∧ (system lastLowPage).initial (bootState (fun _ => 0) lastLowPage) ∧
      (bootState (fun _ => 0) lastLowPage).allocator.clearPages.card = 1 ∧
      (usedPages lastLowPage (bootState (fun _ => 0) lastLowPage)).card = 0 ∧
      (bootState (fun _ => 0) lastLowPage).allocator.page.freed = 0 ∧
      (bootState (fun _ => 0) lastLowPage).allocator.page.usable = 1 :=
  ⟨lastLowPage_ok, initial_bootState (by decide +kernel), by decide +kernel, by decide +kernel,
    by decide +kernel, by decide +kernel⟩

theorem accounting_iff_bitmap_above_lowmem_fourPages : MemmapOk fourPages ∧
      ∀ s, (system fourPages).Reachable s → Accounted fourPages s := by
  obtain ⟨memory, alloc, done, -⟩ : (system fourPages).initial
    (bootState (fun _ => 0) fourPages) := initial_bootState (by decide +kernel)
  refine ⟨fourPages_ok, ?_⟩
  exact (accounting_iff_bitmap_above_lowmem fourPages_ok done).mpr (by decide +kernel)

end LaOS.Pmm
