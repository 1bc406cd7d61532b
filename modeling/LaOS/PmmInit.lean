import LaOS.PmmMachine

/-!
# The allocator after initialization

`pmm_init_from_memmap` in terms of pages: which bits are clear afterwards, where
the bitmap lies, and what the counters say.
-/

namespace LaOS.Pmm

open List

def UsablePage (mmap : Memmap) (i : Nat) : Prop :=
  ∃ entry ∈ mmap, entry.type = .usable ∧ entry.base ≤ i * pageSize ∧
    (i + 1) * pageSize ≤ entry.base + entry.length

instance (mmap : Memmap) (i : Nat) : Decidable (UsablePage mmap i) :=
  inferInstanceAs (Decidable (∃ entry ∈ mmap, _ ∧ _ ∧ _))

/-- Usable entries are page-aligned and do not overlap each other. -/
structure MemmapOk (mmap : Memmap) : Prop where
  aligned : ∀ entry ∈ mmap, entry.type = .usable → pageSize ∣ entry.base ∧ pageSize ∣ entry.length
  disjoint : mmap.Pairwise fun entry other => entry.type = .usable → other.type = .usable →
    Disjoint (Set.Ico entry.base (entry.base + entry.length))
      (Set.Ico other.base (other.base + other.length))

def MemmapEntry.pages (entry : MemmapEntry) : List Nat :=
  if entry.type = .usable then entry.steps.map fun step => entry.base / pageSize + step else []

def usablePages (mmap : Memmap) : List Nat :=
  mmap.flatMap MemmapEntry.pages

variable {entry : MemmapEntry} {i : Nat}

theorem MemmapEntry.mem_pages
    (aligned : entry.type = .usable → pageSize ∣ entry.base ∧ pageSize ∣ entry.length) :
    i ∈ entry.pages ↔ entry.type = .usable ∧ entry.base ≤ i * pageSize ∧
      (i + 1) * pageSize ≤ entry.base + entry.length := by
  unfold pages
  split
  next usable =>
    obtain ⟨⟨first, baseEq⟩, ⟨count, lengthEq⟩⟩ := aligned usable
    simp only [steps, mem_map, mem_range, usable, true_and]
    simp only [pageSize] at baseEq lengthEq ⊢
    constructor
    · rintro ⟨step, stepLt, rfl⟩
      omega
    · rintro ⟨above, below⟩
      exact ⟨i - first, by omega, by omega⟩
  next notUsable => simp [notUsable]

variable {mmap : Memmap}

theorem mem_usablePages (ok : MemmapOk mmap) :
    i ∈ usablePages mmap ↔ UsablePage mmap i := by
  simp only [usablePages, mem_flatMap, UsablePage]
  refine exists_congr fun entry => and_congr_right fun mem => ?_
  exact MemmapEntry.mem_pages (ok.aligned entry mem)

theorem MemmapEntry.nodup_pages (entry : MemmapEntry) : entry.pages.Nodup := by
  unfold pages
  split
  · exact nodup_range.map fun _ _ same => Nat.add_left_cancel same
  · exact nodup_nil

theorem nodup_usablePages (ok : MemmapOk mmap) : (usablePages mmap).Nodup := by
  refine nodup_flatMap.mpr ⟨fun entry _ => entry.nodup_pages, ?_⟩
  refine ok.disjoint.imp_of_mem ?_
  intro entry other entryMember otherMember apart i inEntry inOther
  obtain ⟨entryUsable, above, below⟩ :=
    (MemmapEntry.mem_pages (ok.aligned entry entryMember)).mp inEntry
  obtain ⟨otherUsable, otherAbove, otherBelow⟩ :=
    (MemmapEntry.mem_pages (ok.aligned other otherMember)).mp inOther
  simp only [pageSize] at above below otherAbove otherBelow
  have here : i * 4096 ∈ Set.Ico entry.base (entry.base + entry.length) := ⟨above, by omega⟩
  have there : i * 4096 ∈ Set.Ico other.base (other.base + other.length) :=
    ⟨otherAbove, by omega⟩
  exact Set.disjoint_left.mp (apart entryUsable otherUsable) here there

theorem MemmapEntry.length_pages (usable : entry.type = .usable)
    (aligned : pageSize ∣ entry.length) : entry.pages.length = entry.length / pageSize := by
  obtain ⟨count, lengthEq⟩ := aligned
  simp only [pages, usable, if_true, length_map, steps, length_range]
  simp only [pageSize] at lengthEq ⊢
  omega

theorem scan_usable_from (aligned : ∀ entry ∈ mmap, entry.type = .usable → pageSize ∣ entry.length)
    (page : PageInfo) : (mmap.foldl scanEntry page).usable =
      page.usable + BitVec.ofNat 64 (usablePages mmap).length := by
  induction mmap generalizing page with
  | nil => simp [usablePages]
  | cons entry mmap ih =>
    have restAligned : ∀ other ∈ mmap, other.type = .usable → pageSize ∣ other.length :=
      fun other mem => aligned other (mem_cons_of_mem entry mem)
    have lengthEq : (usablePages (entry :: mmap)).length =
        entry.pages.length + (usablePages mmap).length := by
      simp [usablePages]
    rw [foldl_cons, ih restAligned, lengthEq]
    by_cases usable : entry.type = .usable
    · rw [MemmapEntry.length_pages usable (aligned entry mem_cons_self usable)]
      simp [scanEntry, usable, BitVec.ofNat_add, BitVec.add_assoc]
    · simp [scanEntry, usable, MemmapEntry.pages]

theorem scan_usable (ok : MemmapOk mmap) :
    (scan mmap).usable = BitVec.ofNat 64 (usablePages mmap).length := by
  have scanned := scan_usable_from (fun entry mem usable => (ok.aligned entry mem usable).2)
    ⟨0, 0, 0, 0, 0⟩
  simpa [scan] using scanned

/-- What the loop of `pmm_pick_max_entry` has found in the entries seen so far. -/
structure PickOk (seen : Memmap) (pick : Pick) : Prop where
  chosen : ∀ entry, pick.maxEntry = some entry →
    entry ∈ seen ∧ entry.type = .usable ∧ 0 < entry.length
  reaches : ∀ entry ∈ seen, entry.type = .usable → entry.base + entry.length ≤ pick.maxEndAddr
  attained : pick.maxEndAddr = 0 ∨
    ∃ entry ∈ seen, entry.type = .usable ∧ pick.maxEndAddr = entry.base + entry.length

theorem PickOk.step {seen : Memmap} {pick : Pick} (ok : PickOk seen pick) (entry : MemmapEntry) :
    PickOk (seen ++ [entry]) (pickEntry pick entry) := by
  have earlier : ∀ other ∈ seen, other ∈ seen ++ [entry] := fun other mem =>
    mem_append_left [entry] mem
  have last : entry ∈ seen ++ [entry] := mem_append_right seen mem_cons_self
  unfold pickEntry
  split
  next notUsable =>
    refine ⟨?_, ?_, ?_⟩
    · intro other isChosen
      exact ⟨earlier other (ok.chosen other isChosen).1, (ok.chosen other isChosen).2⟩
    · intro other mem usable
      rcases mem_append.mp mem with before | isEntry
      · exact ok.reaches other before usable
      · rw [mem_singleton.mp isEntry] at usable
        exact absurd usable notUsable
    · exact ok.attained.imp_right fun ⟨other, mem, rest⟩ => ⟨other, earlier other mem, rest⟩
  next usable =>
    have isUsable := not_not.mp usable
    have chosen : ∀ other, (if pick.maxLength < entry.length then
        { pick with maxEntry := some entry, maxLength := entry.length } else pick).maxEntry =
          some other → other ∈ seen ++ [entry] ∧ other.type = .usable ∧ 0 < other.length := by
      intro other isChosen
      split at isChosen
      next longer =>
        cases isChosen
        exact ⟨last, isUsable, Nat.zero_lt_of_lt longer⟩
      next => exact ⟨earlier other (ok.chosen other isChosen).1, (ok.chosen other isChosen).2⟩
    have endKept : (if pick.maxLength < entry.length then
        { pick with maxEntry := some entry, maxLength := entry.length } else pick).maxEndAddr =
          pick.maxEndAddr := by
      split <;> rfl
    simp only
    rw [endKept]
    split
    next further =>
      refine ⟨chosen, ?_, .inr ⟨entry, last, isUsable, rfl⟩⟩
      intro other mem otherUsable
      rcases mem_append.mp mem with before | isEntry
      · exact (ok.reaches other before otherUsable).trans further.le
      · rw [mem_singleton.mp isEntry]
    next nearer =>
      refine ⟨chosen, ?_, ?_⟩
      · intro other mem otherUsable
        rw [endKept]
        rcases mem_append.mp mem with before | isEntry
        · exact ok.reaches other before otherUsable
        · rw [mem_singleton.mp isEntry]
          exact not_lt.mp nearer
      · rw [endKept]
        exact ok.attained.imp_right fun ⟨other, mem, rest⟩ =>
          ⟨other, earlier other mem, rest⟩

theorem pickOk (mmap : Memmap) : PickOk mmap (pick mmap) := by
  induction mmap using reverseRecOn with
  | nil => exact ⟨nofun, nofun, .inl rfl⟩
  | append_singleton seen entry ih =>
    rw [pick, foldl_concat]
    exact ih.step entry

theorem totalPages_eq (ok : MemmapOk mmap) :
    totalPagesOf (pick mmap).maxEndAddr * pageSize = (pick mmap).maxEndAddr := by
  simp only [totalPagesOf, pageSize]
  rcases (pickOk mmap).attained with isZero | ⟨entry, mem, usable, endEq⟩
  · rw [isZero]
    decide
  obtain ⟨⟨first, baseEq⟩, ⟨count, lengthEq⟩⟩ := ok.aligned entry mem usable
  have fits := entry.fits
  simp only [pageSize] at baseEq lengthEq
  omega

theorem usablePage_lt (ok : MemmapOk mmap) (usable : UsablePage mmap i) : i < totalPagesOf
    (pick mmap).maxEndAddr := by
  obtain ⟨entry, mem, isUsable, _, below⟩ := usable
  have reaches := (pickOk mmap).reaches entry mem isUsable
  rw [← totalPages_eq ok] at reaches
  simp only [pageSize] at below reaches
  omega

def Release.visit (release : Release) (i : Nat) : Release :=
  if release.allocator.totalPages ≤ i then
    { release with lostPage := release.lostPage + 1 }
  else if i < lowmemPages then
    { release with dontTouchPage := release.dontTouchPage + 1 }
  else
    { release with
      allocator := { release.allocator with bitmap := release.allocator.bitmap.clear i } }

theorem releasePage_eq (release : Release) (step : Nat) :
    releasePage entry release step = .ok (release.visit (entry.base / pageSize + step)) := by
  have indexEq : (entry.base + step * pageSize) / pageSize = entry.base / pageSize + step := by
    simp only [pageSize]
    omega
  have lowEq : entry.base + step * pageSize < lowmemLimit ↔
      entry.base / pageSize + step < lowmemPages := by
    simp only [pageSize, lowmemLimit, lowmemPages]
    omega
  simp only [releasePage, Release.visit, indexEq, lowEq]
  split
  · rfl
  next inside =>
    split
    · rfl
    · rw [markFree, if_neg inside]
      rfl

theorem foldlM_eq_ok {Value Item Error : Type} {body : Value → Item → Except Error Value}
    {plain : Value → Item → Value} {items : List Item}
    (same : ∀ value, ∀ item ∈ items, body value item = .ok (plain value item)) (value : Value) :
    items.foldlM body value = .ok (items.foldl plain value) := by
  induction items generalizing value with
  | nil => rfl
  | cons item items ih =>
    rw [foldlM_cons, same value item mem_cons_self]
    exact ih (fun value other mem => same value other (mem_cons_of_mem item mem)) _

theorem releaseEntry_eq (release : Release) :
    releaseEntry release entry = .ok (entry.pages.foldl Release.visit release) := by
  unfold releaseEntry MemmapEntry.pages
  split
  next => rfl
  next usable =>
    rw [if_pos (not_not.mp usable), foldl_map]
    exact foldlM_eq_ok (fun release step _ => releasePage_eq release step) release

theorem releaseUsable_eq (alloc : Allocator) : releaseUsable alloc mmap =
      .ok ((usablePages mmap).foldl Release.visit ⟨alloc, 0, 0⟩) := by
  rw [usablePages, foldl_flatMap]
  exact foldlM_eq_ok (fun release entry _ => releaseEntry_eq release) _

/-- What visiting a list of pages changes, when all of them have a bit. -/
structure Visited (before after : Release) (pages : List Nat) : Prop where
  base : after.allocator.base = before.allocator.base
  totalPages : after.allocator.totalPages = before.allocator.totalPages
  page : after.allocator.page = before.allocator.page
  bitmap : ∀ i, after.allocator.bitmap.test i =
    (before.allocator.bitmap.test i && !decide (i ∈ pages ∧ lowmemPages ≤ i))
  dontTouch : after.dontTouchPage =
    before.dontTouchPage + BitVec.ofNat 64 (pages.countP (· < lowmemPages))
  lost : after.lostPage = before.lostPage

theorem visited_foldl {pages : List Nat} (release : Release)
    (inside : ∀ i ∈ pages, i < release.allocator.totalPages) :
    Visited release (pages.foldl Release.visit release) pages := by
  induction pages generalizing release with
  | nil => exact ⟨rfl, rfl, rfl, by simp, by simp, rfl⟩
  | cons first pages ih =>
    have firstInside := not_le.mpr (inside first mem_cons_self)
    have visitTotal : (release.visit first).allocator.totalPages =
        release.allocator.totalPages := by
      unfold Release.visit
      split
      · rfl
      · split <;> rfl
    have rest := ih (release.visit first) fun i mem => by
      rw [visitTotal]
      exact inside i (mem_cons_of_mem first mem)
    rw [foldl_cons]
    by_cases isLow : first < lowmemPages
    · have visitEq : release.visit first =
          { release with dontTouchPage := release.dontTouchPage + 1 } := by
        simp only [Release.visit, if_neg firstInside, if_pos isLow]
      rw [visitEq] at rest ⊢
      refine ⟨rest.base, rest.totalPages, rest.page, ?_, ?_, rest.lost⟩
      · intro i
        rw [rest.bitmap]
        congr 2
        refine decide_eq_decide.mpr ⟨fun both => ⟨mem_cons_of_mem first both.1, both.2⟩, ?_⟩
        rintro ⟨mem, above⟩
        rcases mem_cons.mp mem with rfl | later
        · omega
        · exact ⟨later, above⟩
      · rw [rest.dontTouch, countP_cons_of_pos (by simpa using isLow), BitVec.add_assoc]
        rw [Nat.add_comm, BitVec.ofNat_add]
        rfl
    · have visitEq : release.visit first =
          { release with
            allocator := { release.allocator with
              bitmap := release.allocator.bitmap.clear first } } := by
        simp only [Release.visit, if_neg firstInside, if_neg isLow]
      rw [visitEq] at rest ⊢
      refine ⟨rest.base, rest.totalPages, rest.page, ?_, ?_, rest.lost⟩
      · intro i
        rw [rest.bitmap, Bitmap.test_clear]
        by_cases same : i = first
        · subst same
          have above := not_lt.mp isLow
          simp [above]
        · simp [same]
      · rw [rest.dontTouch, countP_cons_of_neg (by simpa using not_lt.mp isLow)]

def Allocator.ownPages (alloc : Allocator) : Nat :=
  bitmapPagesOf (bitmapSizeOf alloc.totalPages)

def Allocator.OwnPage (alloc : Allocator) (i : Nat) : Prop :=
  alloc.base / pageSize ≤ i ∧ i < alloc.base / pageSize + alloc.ownPages

instance (alloc : Allocator) (i : Nat) : Decidable (alloc.OwnPage i) :=
  inferInstanceAs (Decidable (_ ∧ _))

structure Reserved (before after : Allocator) (start count : Nat) : Prop where
  base : after.base = before.base
  totalPages : after.totalPages = before.totalPages
  page : after.page = before.page
  bitmap : ∀ i, after.bitmap.test i =
    (before.bitmap.test i || decide (start ≤ i ∧ i < start + count))

theorem reserved_foldlM {before after : Allocator} {start count : Nat}
    (reserved : (range count).foldlM (reservePage start) before = .ok after) :
    Reserved before after start count := by
  induction count generalizing after with
  | zero =>
    cases reserved
    refine ⟨rfl, rfl, rfl, ?_⟩
    intro i
    have outside : ¬ (start ≤ i ∧ i < start + 0) := by omega
    rw [decide_eq_false outside, Bool.or_false]
  | succ count ih =>
    rw [range_succ, foldlM_append] at reserved
    cases earlier : (range count).foldlM (reservePage start) before with
    | error reason =>
      rw [earlier] at reserved
      cases reserved
    | ok mid =>
      rw [earlier] at reserved
      have previous := ih earlier
      have grows : ∀ i, decide (start ≤ i ∧ i < start + (count + 1)) =
          (decide (start ≤ i ∧ i < start + count) || decide (i = start + count)) := by
        intro i
        rw [← Bool.decide_or]
        exact decide_eq_decide.mpr (by omega)
      change (reservePage start mid count >>= fun final => pure final) = .ok after at reserved
      simp only [bind_pure, reservePage] at reserved
      split at reserved
      next isSet =>
        cases reserved
        refine { previous with bitmap := ?_ }
        intro i
        rw [grows, ← Bool.or_assoc, ← previous.bitmap]
        by_cases same : i = start + count
        · subst same
          simp [isSet]
        · simp [same]
      next =>
        unfold markUsed at reserved
        split at reserved <;> cases reserved
        refine { previous with bitmap := ?_ }
        intro i
        rw [grows, ← Bool.or_assoc, ← previous.bitmap, Bitmap.test_set, Bool.or_comm]

structure Layout (mmap : Memmap) (alloc : Allocator) : Prop where
  chosen : ∃ entry, (pick mmap).maxEntry = some entry ∧ alloc.base = entry.base
  totalPages : alloc.totalPages = totalPagesOf (pick mmap).maxEndAddr
  own : ∀ i, alloc.OwnPage i → UsablePage mmap i
  usable : alloc.page.usable = BitVec.ofNat 64 ((usablePages mmap).countP (lowmemPages ≤ ·))

/-- After initialization the free pages are the usable ones above the low memory and outside the
bitmap, and the counters are what was counted less the corrections. -/
structure Initialized (mmap : Memmap) (alloc : Allocator) : Prop
    extends Layout mmap alloc where
  bits : ∀ i < alloc.totalPages, alloc.bitmap.test i = false ↔
    UsablePage mmap i ∧ lowmemPages ≤ i ∧ ¬ alloc.OwnPage i
  freed : alloc.page.freed = alloc.page.usable - BitVec.ofNat 64 alloc.ownPages

theorem usablePage_of_own (ok : MemmapOk mmap) (chosen : (pick mmap).maxEntry = some entry)
    {size : Nat} (room : size ≤ entry.length) (above : entry.base / pageSize ≤ i)
    (below : i < entry.base / pageSize + bitmapPagesOf size) : UsablePage mmap i := by
  obtain ⟨mem, usable, _⟩ := (pickOk mmap).chosen entry chosen
  obtain ⟨⟨first, baseEq⟩, ⟨count, lengthEq⟩⟩ := ok.aligned entry mem usable
  simp only [bitmapPagesOf, pageSize] at baseEq lengthEq above below
  refine ⟨entry, mem, usable, ?_⟩
  simp only [pageSize]
  omega

theorem countP_lowmem (pages : List Nat) :
    pages.countP (lowmemPages ≤ ·) + pages.countP (· < lowmemPages) = pages.length := by
  rw [length_eq_countP_add_countP (fun i => decide (lowmemPages ≤ i))]
  simp

theorem settled_counts (ok : MemmapOk mmap) {installed : Allocator}
    {released : Release} (pageEq : installed.page = scan mmap)
    (visited : Visited ⟨installed, 0, 0⟩ released (usablePages mmap)) (own : Nat) :
    (settleCounts released own).page.usable =
        BitVec.ofNat 64 ((usablePages mmap).countP (lowmemPages ≤ ·)) ∧
      (settleCounts released own).page.freed =
        (settleCounts released own).page.usable - BitVec.ofNat 64 own := by
  have dontTouch := visited.dontTouch.trans (BitVec.zero_add _)
  have lost := visited.lost
  have usableEq : released.allocator.page.usable = BitVec.ofNat 64 (usablePages mmap).length := by
    rw [visited.page, pageEq]
    exact scan_usable ok
  have freedEq : released.allocator.page.freed = released.allocator.page.usable := by
    rw [visited.page, pageEq]
    rfl
  refine ⟨?_, ?_⟩
  · simp only [settleCounts]
    rw [usableEq, dontTouch, lost, ← countP_lowmem, BitVec.ofNat_add, BitVec.add_sub_cancel]
    exact BitVec.sub_zero _
  · simp only [settleCounts]
    rw [freedEq]

def installed (memory : Bitmap) (mmap : Memmap) (entry : MemmapEntry) : Allocator where
  bitmap := memory.fill 0xff#8 (bitmapSizeOf (totalPagesOf (pick mmap).maxEndAddr))
  base := entry.base
  totalPages := totalPagesOf (pick mmap).maxEndAddr
  page := scan mmap

variable {memory : Bitmap} {alloc : Allocator}

theorem init_stages (ok : MemmapOk mmap) (done : initFromMemmap memory mmap = .ok alloc) :
    ∃ entry released, (pick mmap).maxEntry = some entry ∧
      bitmapSizeOf (totalPagesOf (pick mmap).maxEndAddr) ≤ entry.length ∧
      Visited ⟨installed memory mmap entry, 0, 0⟩ released (usablePages mmap) ∧
      Reserved (settleCounts released (installed memory mmap entry).ownPages) alloc
        (entry.base / pageSize) (installed memory mmap entry).ownPages := by
  unfold initFromMemmap pickMaxEntry at done
  cases chosen : (pick mmap).maxEntry with
  | none =>
    rw [chosen] at done
    cases done
  | some entry =>
    rw [chosen] at done
    simp only [bind, Except.bind, installBitmap] at done
    split at done
    next => cases done
    next _ isInstalled =>
      split at isInstalled <;> cases isInstalled
      next room =>
        rw [releaseUsable_eq] at done
        simp only at done
        split at done
        · cases done
        next isReserved =>
          split at done <;> cases done
          exact ⟨entry, _, rfl, not_lt.mp room, visited_foldl _ fun i mem =>
            usablePage_lt ok ((mem_usablePages ok).mp mem), reserved_foldlM isReserved⟩

theorem initialized (ok : MemmapOk mmap) (done : initFromMemmap memory mmap = .ok alloc) :
    Initialized mmap alloc := by
  obtain ⟨entry, released, chosen, room, visited, reserved⟩ := init_stages ok done
  have baseEq : alloc.base = entry.base := reserved.base.trans visited.base
  have totalEq : alloc.totalPages = totalPagesOf (pick mmap).maxEndAddr :=
    reserved.totalPages.trans visited.totalPages
  have ownEq : (installed memory mmap entry).ownPages = alloc.ownPages := by
    rw [Allocator.ownPages, Allocator.ownPages, totalEq]
    rfl
  have counts := settled_counts ok rfl visited alloc.ownPages
  rw [ownEq] at reserved
  refine ⟨⟨⟨entry, chosen, baseEq⟩, totalEq, ?_, ?_⟩, ?_, ?_⟩
  · rintro i ⟨above, below⟩
    rw [baseEq] at above below
    rw [← ownEq] at below
    exact usablePage_of_own ok chosen room above below
  · rw [reserved.page]
    exact counts.1
  · intro i indexLt
    have filled : (installed memory mmap entry).bitmap.test i = true := by
      refine Bitmap.test_fill memory ?_
      simp only [bitmapSizeOf]
      omega
    have releasedBit : (settleCounts released alloc.ownPages).bitmap.test i =
        !decide (i ∈ usablePages mmap ∧ lowmemPages ≤ i) := by
      refine (visited.bitmap i).trans ?_
      rw [filled, Bool.true_and]
    rw [reserved.bitmap, releasedBit, Allocator.OwnPage, baseEq, ← mem_usablePages ok]
    simp only [Bool.or_eq_false_iff, Bool.not_eq_false', decide_eq_true_eq,
      decide_eq_false_iff_not, and_assoc]
  · rw [reserved.page]
    exact counts.2

end LaOS.Pmm
