import LaOS.VmmLarge

/-!
# Splitting large pages

`__vmm_map` replaces a large page by a table of smaller pages before it changes one of
them.  The new entries repeat bit 7, the size of a large page but a part of the memory
type of a small one, so no split is transparent.
-/

namespace LaOS.Vmm

open List RadixTree

variable {root table next new : Frame} {i : Index} {m after : Machine}
  {va other paddr flags entry : Word} {stride : Option Word} {overwriteOk : Bool}

/-- Different tables that are in use. -/
def Visited (m : Machine) (tables : List Frame) : Prop :=
  tables.Nodup ∧ ∀ table ∈ tables, m.allocated table = true

section Visited

variable {tables : List Frame}

theorem Visited.tail (visited : Visited m (table :: tables)) : Visited m tables :=
  ⟨(nodup_cons.mp visited.1).2, fun other isIn => visited.2 other (mem_cons_of_mem _ isIn)⟩

theorem Visited.ne (visited : Visited m (table :: tables)) (isIn : next ∈ tables) :
    table ≠ next := by
  rintro rfl
  exact (nodup_cons.mp visited.1).1 isIn

theorem Visited.putTable (visited : Visited m tables) (free : m.allocated new = false)
    {answers : List Frame} {contents : Index → Word} :
    Visited (m.putTable new answers contents table i entry) (tables ++ [new]) := by
  have allocated : (m.putTable new answers contents table i entry).allocated =
      Function.update m.allocated new true := rfl
  have isNew : new ∉ tables := fun isIn => by cases free.symm.trans (visited.2 new isIn)
  refine ⟨nodup_append.mpr ⟨visited.1, nodup_singleton new, ?_⟩, fun table isIn => ?_⟩
  · rintro table isIn _ isLast rfl
    exact isNew (mem_singleton.mp isLast ▸ isIn)
  · rw [allocated]
    by_cases same : table = new
    · rw [same, Function.update_self]
    · rw [Function.update_of_ne same]
      exact visited.2 table ((mem_append.mp isIn).resolve_right fun isLast =>
        same (mem_singleton.mp isLast))

end Visited

/-- A level of `__vmm_map` leaves an entry that leads to a table of the given contents, and
writes to no other table. -/
structure Level (table : Frame) (i : Index) (m : Machine) (next : Frame) (entry : Word)
    (contents : Index → Word) (after : Machine) : Prop where
  leads : frameOf entry = next
  written : after.memory table i = entry
  filled : after.memory next = contents
  others : ∀ frame, frame ≠ table → frame ≠ next → after.memory frame = m.memory frame

section Level

variable (found : ensureTable stride table i flags m = (some next, after))
  {tables : List Frame} (visited : Visited m tables)
include found visited

theorem passed_of_ensureTable (read : m.memory table i = entry)
    (isPresent : present entry = true) (notLeaf : stride = none ∨ huge entry = false)
    (ne : table ≠ frameOf entry) : next = frameOf entry ∧ Visited after tables ∧
      Level table i m next (widen entry flags) (m.memory next) after := by
  subst read
  cases (ensureTable_present isPresent notLeaf).symm.trans found
  exact ⟨rfl, visited, frameOf_widen, write_memory_self _ _ _,
    funext fun slot => write_memory_of_ne fun same => ne same.1.symm,
    fun frame notTable _ => funext fun slot => write_memory_of_ne fun same => notTable same.1⟩

variable (isIn : table ∈ tables)
include isIn

theorem Level.putTable {contents : Index → Word} {new : Word} {answers : List Frame}
    (free : m.allocated next = false) (leads : frameOf new = next)
    (afterEq : after = m.putTable next answers contents table i new) :
    Visited after (tables ++ [next]) ∧ Level table i m next new contents after := by
  have ne : table ≠ next := fun same => by cases free.symm.trans (visited.2 _ (same ▸ isIn))
  subst afterEq
  exact ⟨visited.putTable free, leads, putTable_memory_self _ _ _ _, putTable_memory_new _ _ _ ne.symm,
    fun frame notTable notNew => funext fun slot =>
      putTable_memory_of_ne _ _ _ notNew fun same => notTable same.1⟩

theorem created_of_ensureTable (isAbsent : present (m.memory table i) = false) :
    Visited after (tables ++ [next]) ∧
      Level table i m next (tableEntry next flags) (fun _ => 0) after := by
  rcases ensureTable_absent stride flags isAbsent with ⟨answers, refused⟩ |
    ⟨new, answers, _, free, created⟩
  · cases refused.symm.trans found
  · cases created.symm.trans found
    exact Level.putTable found visited isIn free frameOf_tableEntry rfl

theorem split_of_ensureTable {size : Word} (hasStride : stride = some size)
    (read : m.memory table i = entry)
    (isPresent : present entry = true) (isHuge : huge entry = true) :
    Visited after (tables ++ [next]) ∧
      Level table i m next (widen (tableEntry next flags) flags) (splitEntry size entry)
        after := by
  subst read hasStride
  rcases ensureTable_leaf size flags isPresent isHuge with ⟨answers, refused⟩ |
    ⟨new, answers, _, free, created⟩
  · cases refused.symm.trans found
  · cases created.symm.trans found
    exact Level.putTable found visited isIn free (by rw [frameOf_widen, frameOf_tableEntry]) rfl

end Level

theorem levels_of_vmmMapLocked
    (mapped : vmmMapLocked root va paddr flags overwriteOk m = .ok (true, after)) :
    ∃ pdpt pd pt first second third,
      ensureTable none root (pml4Idx va) flags m = (some pdpt, first) ∧
      ensureTable (some 0x200000) pdpt (pdptIdx va) flags first = (some pd, second) ∧
      ensureTable (some 0x1000) pd (pdIdx va) flags second = (some pt, third) ∧
      (overwriteOk = false → present (third.memory pt (ptIdx va)) = false) ∧
      after = third.write pt (ptIdx va) ((paddr &&& pteAddrMask) ||| flags) := by
  simp only [vmmMapLocked, pml4Idx_page, pdptIdx_page, pdIdx_page, ptIdx_page] at mapped
  split at mapped
  · cases mapped
  next pdpt first firstFound =>
  split at mapped
  · cases mapped
  next pd second secondFound =>
  split at mapped
  · cases mapped
  next pt third thirdFound =>
  split at mapped <;> cases mapped
  next allowed =>
    refine ⟨pdpt, pd, pt, first, second, third, firstFound, secondFound, thirdFound, ?_, rfl⟩
    rintro rfl
    simpa using allowed

theorem and_pteAddrMask : entry &&& pteAddrMask = frameAddr (frameOf entry) := by
  refine BitVec.eq_of_getLsbD_eq fun bit bitLt => ?_
  simp only [BitVec.getLsbD_and, getLsbD_pteAddrMask, getLsbD_frameAddr, frameOf,
    BitVec.getLsbD_extractLsb']
  grind

section SplitEntry

variable (scale : Nat) (size : Word) (pos : Index)
  (isSize : size.toNat = scale * 2 ^ 12) (scaleLe : scale ≤ 512)
include isSize scaleLe

theorem toNat_split_address : ((entry &&& pteAddrMask) + pos.setWidth 64 * size).toNat =
      ((frameOf entry).toNat + pos.toNat * scale) * 2 ^ 12 := by
  have positionLt := pos.isLt
  have productLe := Nat.mul_le_mul positionLt.le scaleLe
  rw [and_pteAddrMask, BitVec.toNat_add, toNat_frameAddr, BitVec.toNat_mul,
    BitVec.toNat_setWidth, isSize, Nat.mod_eq_of_lt (by omega : pos.toNat < 2 ^ 64),
    ← Nat.mul_assoc]
  omega

theorem getLsbD_splitEntry {bit : Nat} (low : bit < 12) :
    (splitEntry size entry pos).getLsbD bit = entry.getLsbD bit := by
  have clear :
      ((entry &&& pteAddrMask) + pos.setWidth 64 * size).getLsbD bit = false := by
    rw [BitVec.getLsbD, toNat_split_address scale size pos isSize scaleLe,
      Nat.testBit_mul_two_pow]
    simp [Nat.not_le.mpr low]
  rw [splitEntry, BitVec.getLsbD_or, clear, BitVec.getLsbD_and, BitVec.getLsbD_not,
    getLsbD_pteAddrMask]
  simp [show bit < 64 by omega, Nat.not_le.mpr low]

/-- The frames of the entries follow each other from the frame of the large page,
in whose number the memory type bit is counted. -/
theorem toNat_frameOf_splitEntry : (frameOf (splitEntry size entry pos)).toNat =
      ((frameOf entry).toNat + pos.toNat * scale) % 2 ^ 40 := by
  have same : frameOf (splitEntry size entry pos) =
      frameOf ((entry &&& pteAddrMask) + pos.setWidth 64 * size) := by
    refine BitVec.eq_of_getLsbD_eq fun bit bitLt => ?_
    simp only [splitEntry, frameOf, BitVec.getLsbD_extractLsb', BitVec.getLsbD_or,
      BitVec.getLsbD_and, BitVec.getLsbD_not, getLsbD_pteAddrMask]
    grind
  rw [same, toNat_frameOf, toNat_split_address scale size pos isSize scaleLe,
    Nat.mul_div_cancel _ (by decide)]

end SplitEntry

theorem toNat_div_of_getLsbD {bit : Nat} (set : entry.getLsbD bit = true) :
    entry.toNat / 2 ^ bit % 2 = 1 := by
  rw [BitVec.getLsbD, Nat.testBit_eq_decide_div_mod_eq] at set
  exact of_decide_eq_true set

theorem frameOf_split_megabytes (pos : Index) (pat : entry.getLsbD 12 = true) :
    frameOf (splitEntry 0x1000 entry pos) ≠ entry.extractLsb' 21 31 ++ pos := by
  intro same
  have set := toNat_div_of_getLsbD pat
  have frames := congrArg BitVec.toNat same
  have positionLt := pos.isLt
  rw [toNat_frameOf_splitEntry 1 0x1000 pos rfl (by decide), toNat_frameOf,
    BitVec.toNat_append, ← Nat.shiftLeft_add_eq_or_of_lt positionLt, Nat.shiftLeft_eq] at frames
  omega

theorem frameOf_split_gigabyte (outer pos : Index) (pat : entry.getLsbD 12 = true) :
    frameOf (splitEntry 0x1000 (splitEntry 0x200000 entry outer) pos) ≠
      (entry.extractLsb' 30 22 ++ outer) ++ pos := by
  intro same
  have set := toNat_div_of_getLsbD pat
  have frames := congrArg BitVec.toNat same
  have positionLt := pos.isLt
  have outerLt := outer.isLt
  rw [toNat_frameOf_splitEntry 1 0x1000 pos rfl (by decide),
    toNat_frameOf_splitEntry 512 0x200000 outer rfl (by decide), toNat_frameOf,
    BitVec.toNat_append, ← Nat.shiftLeft_add_eq_or_of_lt positionLt, Nat.shiftLeft_eq,
    BitVec.toNat_append, ← Nat.shiftLeft_add_eq_or_of_lt outerLt, Nat.shiftLeft_eq] at frames
  omega

theorem WellFormed.visited (ok : WellFormed root m) (paths : List (List Index))
    {tables : List Frame} (reach : paths.map (tableAt m root) = tables.map some)
    (distinct : paths.Nodup) (short : ∀ path ∈ paths, path.length ≤ 3) :
    Visited m tables := by
  have reached : ∀ path ∈ paths, ∃ table, tableAt m root path = some table := by
    intro path isIn
    have found := mem_map_of_mem isIn (f := tableAt m root)
    rw [reach, mem_map] at found
    exact found.imp fun table same => same.2.symm
  refine ⟨.of_map some (reach ▸ distinct.map_on fun left leftIn right rightIn same => ?_),
    fun table isIn => ?_⟩
  · obtain ⟨table, leftReaches⟩ := reached left leftIn
    exact ok.unshared left right table (anywhere_of_length (short left leftIn))
      (anywhere_of_length (short right rightIn)) leftReaches (same.symm.trans leftReaches)
  · have found := mem_map_of_mem isIn (f := some)
    rw [← reach, mem_map] at found
    obtain ⟨path, isPath, reaches⟩ := found
    exact ok.allocated path table (anywhere_of_length (short path isPath)) reaches

section Apart

variable (ok : WellFormed root m)
include ok

theorem WellFormed.visited_pdpt (pdpt : ReachesPdpt root m va) :
    Visited m [root, frameOf (pml4Entry root m va)] :=
  ok.visited [[], [pml4Idx va]] (by simp [pdpt.tableAt_eq]) (by simp) (by simp)

theorem WellFormed.visited_pd (pd : ReachesPd root m va) :
    Visited m [root, frameOf (pml4Entry root m va),
      frameOf (pdptEntry root m va)] :=
  ok.visited [[], [pml4Idx va], [pml4Idx va, pdptIdx va]]
    (by simp [pd.toReachesPdpt.tableAt_eq, pd.tableAt_eq]) (by simp) (by simp)

end Apart

structure Entries (root : Frame) (m : Machine) (vaddr pml4e pdpte pde pte : Word) :
    Prop where
  pml4 : m.memory root (pml4Idx vaddr) = pml4e
  pdpt : m.memory (frameOf pml4e) (pdptIdx vaddr) = pdpte
  pd : m.memory (frameOf pdpte) (pdIdx vaddr) = pde
  pt : m.memory (frameOf pde) (ptIdx vaddr) = pte

theorem Entries.translate_eq {pml4e pdpte pde pte : Word}
    (entries : Entries root m va pml4e pdpte pde pte)
    (directories : ∀ entry ∈ [pml4e, pdpte, pde], present entry = true ∧ huge entry = false)
    (isPresent : present pte = true) : translate m.memory root va =
      some (leafTranslation [pml4e, pdpte, pde, pte] pte (frameOf pte) (pte.getLsbD 7)) := by
  obtain ⟨rfl, rfl, rfl, rfl⟩ := entries
  simp only [forall_mem_cons, not_mem_nil, false_implies, implies_true, and_true] at directories
  obtain ⟨pml4, pdpt, pd⟩ := directories
  rw [translate_page ⟨⟨⟨pml4.1, pml4.2⟩, pdpt.1, pdpt.2⟩, pd.1, pd.2⟩, if_pos isPresent]

theorem entries_of_dirs (same : dirs other = dirs va) (root : Frame) (m : Machine) :
    pml4Entry root m other = pml4Entry root m va ∧
      pdptEntry root m other = pdptEntry root m va ∧
      pdEntry root m other = pdEntry root m va := by
  simp only [dirs, cons.injEq, and_true] at same
  simp only [pml4Entry, pdptEntry, pdEntry, same, and_self]

section Levels

variable {first second third : Machine} {pdpt pd pt : Frame} {pml4e pdpte pde leaf : Word}
  {pdptOf pdOf ptOf : Index → Word}
  (one : Level root (pml4Idx va) m pdpt pml4e pdptOf first)
  (two : Level pdpt (pdptIdx va) first pd pdpte pdOf second)
  (three : Level pd (pdIdx va) second pt pde ptOf third)
  (visited : Visited third [root, pdpt, pd, pt])
include one two three visited

theorem entries_of_levels (sameDirs : dirs other = dirs va) :
    Entries root (third.write pt (ptIdx va) leaf) other pml4e pdpte pde
      (if ptIdx other = ptIdx va then leaf else ptOf (ptIdx other)) := by
  simp only [dirs, cons.injEq, and_true] at sameDirs
  obtain ⟨samePml4, samePdpt, samePd⟩ := sameDirs
  have rootNe := fun next isIn => @Visited.ne _ next _ _ visited isIn
  have pdptNe := fun next isIn => @Visited.ne _ next _ _ visited.tail isIn
  have pdNe := visited.tail.tail.ne mem_cons_self
  simp only [forall_mem_cons, not_mem_nil, false_implies, implies_true, and_true] at rootNe pdptNe
  obtain ⟨rootPdpt, rootPd, rootPt⟩ := rootNe
  obtain ⟨pdptPd, pdptPt⟩ := pdptNe
  refine ⟨?_, one.leads ▸ ?_, two.leads ▸ ?_, three.leads ▸ ?_⟩
  · rw [samePml4, write_memory_of_ne fun same => rootPt same.1, three.others _ rootPd rootPt,
      two.others _ rootPdpt rootPd, one.written]
  · rw [samePdpt, write_memory_of_ne fun same => pdptPt same.1, three.others _ pdptPd pdptPt,
      two.written]
  · rw [samePd, write_memory_of_ne fun same => pdNe same.1, three.written]
  · split
    next same => rw [same, write_memory_self]
    next different =>
      rw [write_memory_of_ne fun same => different same.2, three.leads, three.filled]

theorem entries_at_of_levels :
    Entries root (third.write pt (ptIdx va) leaf) va pml4e pdpte pde leaf := by
  have entries : Entries root (third.write pt _ leaf) va _ _ _ _ :=
    entries_of_levels one two three visited rfl
  rwa [if_pos rfl] at entries

end Levels

section Split

variable (ok : WellFormed root m) (sameDirs : dirs other = dirs va)
  (mapped : vmmMapLocked root va paddr flags overwriteOk m = .ok (true, after))
include ok sameDirs mapped

theorem entries_split_megabytes (large : MegabytesPage root m va) :
    overwriteOk = true ∧ ∃ new, Entries root after other
      (widen (pml4Entry root m va) flags) (widen (pdptEntry root m va) flags)
      (widen (tableEntry new flags) flags)
      (if ptIdx other = ptIdx va then (paddr &&& pteAddrMask) ||| flags
        else splitEntry 0x1000 (pdEntry root m va) (ptIdx other)) := by
  have visited := ok.visited_pd large.toReachesPd
  have rootPd := visited.ne (mem_cons_of_mem _ mem_cons_self)
  have pdptPd := visited.tail.ne mem_cons_self
  obtain ⟨_, _, new, _, _, _, first, second, third, allowed, rfl⟩ := levels_of_vmmMapLocked mapped
  obtain ⟨rfl, visited, one⟩ := passed_of_ensureTable first visited rfl large.pml4Present
    (.inl rfl) (visited.ne mem_cons_self)
  obtain ⟨rfl, visited, two⟩ := passed_of_ensureTable second visited
    (congrFun one.filled _) large.pdptPresent (.inr large.pdptTable) pdptPd
  obtain ⟨visited, three⟩ := split_of_ensureTable third visited (by simp) rfl
    ((congrFun two.filled _).trans (congrFun (one.others _ rootPd.symm pdptPd.symm) _))
    large.pdPresent large.leaf
  refine ⟨Bool.not_eq_false _ ▸ fun refused => ?_, new,
    entries_of_levels one two three visited sameDirs⟩
  have vacant := allowed refused
  rw [three.filled] at vacant
  cases vacant.symm.trans
    ((getLsbD_splitEntry 1 0x1000 _ rfl (by decide) (by decide)).trans large.pdPresent)

theorem entries_split_gigabyte (large : GigabytePage root m va) :
    overwriteOk = true ∧ ∃ pd pt, Entries root after other
      (widen (pml4Entry root m va) flags) (widen (tableEntry pd flags) flags)
      (widen (tableEntry pt flags) flags)
      (if ptIdx other = ptIdx va then (paddr &&& pteAddrMask) ||| flags
        else splitEntry 0x1000 (splitEntry 0x200000 (pdptEntry root m va) (pdIdx va))
          (ptIdx other)) := by
  have visited := ok.visited_pdpt large.toReachesPdpt
  have bits := fun bit => @getLsbD_splitEntry (pdptEntry root m va) 512 0x200000
    (pdIdx va) rfl le_rfl bit
  have partPresent := (bits 0 (by decide)).trans large.pdptPresent
  obtain ⟨_, pd, pt, _, _, _, first, second, third, allowed, rfl⟩ := levels_of_vmmMapLocked mapped
  obtain ⟨rfl, visited, one⟩ := passed_of_ensureTable first visited rfl large.pml4Present
    (.inl rfl) (visited.ne mem_cons_self)
  obtain ⟨visited, two⟩ := split_of_ensureTable second visited (by simp) rfl
    (congrFun one.filled _) large.pdptPresent large.leaf
  obtain ⟨visited, three⟩ := split_of_ensureTable third visited (by simp) rfl
    (congrFun two.filled _) partPresent ((bits 7 (by decide)).trans large.leaf)
  refine ⟨Bool.not_eq_false _ ▸ fun refused => ?_, pd, pt,
    entries_of_levels one two three visited sameDirs⟩
  have vacant := allowed refused
  rw [three.filled] at vacant
  cases vacant.symm.trans
    ((getLsbD_splitEntry 1 0x1000 _ rfl (by decide) (by decide)).trans partPresent)

variable (ptNe : ptIdx other ≠ ptIdx va)
include ptNe

theorem translate_ne_megabytes (large : MegabytesPage root m va) :
    translate after.memory root other ≠ translate m.memory root other := by
  obtain ⟨-, new, entries⟩ := entries_split_megabytes ok sameDirs mapped large
  rw [if_neg ptNe] at entries
  obtain ⟨samePml4, samePdpt, samePd⟩ := entries_of_dirs sameDirs root m
  have otherLarge : MegabytesPage root m other := by
    refine ⟨⟨⟨?_, ?_⟩, ?_, ?_⟩, ?_, ?_⟩ <;> simp only [samePml4, samePdpt, samePd, large.pml4Present,
      large.pml4Table, large.pdptPresent, large.pdptTable, large.pdPresent, large.leaf]
  have format := (ok.format other).megabytes otherLarge
  have bits := fun bit => @getLsbD_splitEntry (pdEntry root m va) 1 0x1000 (ptIdx other)
    rfl (by decide) bit
  have splitPresent := (bits 0 (by decide)).trans large.pdPresent
  have splitPat := (bits 7 (by decide)).trans large.leaf
  rw [entries.translate_eq (by simp [large.pml4Present, large.pml4Table, large.pdptPresent,
    large.pdptTable]) splitPresent, translate_megabytes otherLarge format, samePd]
  intro same
  have translations := Option.some.inj same
  have pats := congrArg Translation.pat translations
  exact frameOf_split_megabytes (ptIdx other) (pats.symm.trans splitPat)
    (congrArg Translation.frame translations)

theorem translate_ne_gigabyte (large : GigabytePage root m va) :
    translate after.memory root other ≠ translate m.memory root other := by
  obtain ⟨-, pd, pt, entries⟩ := entries_split_gigabyte ok sameDirs mapped large
  rw [if_neg ptNe] at entries
  obtain ⟨samePml4, samePdpt, _⟩ := entries_of_dirs sameDirs root m
  have otherLarge : GigabytePage root m other := by
    refine ⟨⟨?_, ?_⟩, ?_, ?_⟩ <;> simp only [samePml4, samePdpt, large.pml4Present,
      large.pml4Table, large.pdptPresent, large.leaf]
  have format := (ok.format other).gigabyte otherLarge
  have outer := fun bit => @getLsbD_splitEntry (pdptEntry root m va) 512 0x200000
    (pdIdx va) rfl le_rfl bit
  have inner := fun bit => @getLsbD_splitEntry
    (splitEntry 0x200000 (pdptEntry root m va) (pdIdx va)) 1 0x1000 (ptIdx other)
    rfl (by decide) bit
  have splitPresent := ((inner 0 (by decide)).trans (outer 0 (by decide))).trans large.pdptPresent
  have splitPat := ((inner 7 (by decide)).trans (outer 7 (by decide))).trans large.leaf
  rw [entries.translate_eq (by simp [large.pml4Present, large.pml4Table]) splitPresent,
    translate_gigabyte otherLarge format, samePdpt]
  intro same
  have translations := Option.some.inj same
  have pats := congrArg Translation.pat translations
  have samePd : pdIdx other = pdIdx va := by
    simp only [dirs, cons.injEq, and_true] at sameDirs
    exact sameDirs.2.2
  rw [samePd] at translations
  exact frameOf_split_gigabyte (pdIdx va) (ptIdx other) (pats.symm.trans splitPat)
    (congrArg Translation.frame translations)

end Split

/-- All other pages of a large page keep their frame, rights and memory type. -/
def Transparent (root : Frame) (m after : Machine) (vaddr : Word) : Prop :=
  ∀ other, Covers root m vaddr other → pageOf other ≠ pageOf vaddr →
    translate after.memory root other = translate m.memory root other

def neighbour (vaddr : Word) : Word := vaddr ^^^ 0x1000

theorem dirs_neighbour (va : Word) : dirs (neighbour va) = dirs va := by
  have same : ∀ start, 13 ≤ start →
      (neighbour va).extractLsb' start 9 = va.extractLsb' start 9 := by
    intro start high
    refine BitVec.eq_of_getLsbD_eq fun bit bitLt => ?_
    have clear : (0x1000 : Word).getLsbD (start + bit) = false := by
      rw [show (0x1000 : Word) = BitVec.twoPow 64 12 by decide]
      simp
      omega
    simp only [neighbour, BitVec.getLsbD_extractLsb', BitVec.getLsbD_xor, clear, Bool.xor_false]
  simp only [dirs, pml4Idx, pdptIdx, pdIdx, same 39 (by decide), same 30 (by decide),
    same 21 (by decide)]

theorem ptIdx_neighbour (va : Word) : ptIdx (neighbour va) ≠ ptIdx va := by
  intro same
  have bits := congrArg (BitVec.getLsbD · 0) same
  simp only [ptIdx, neighbour, BitVec.getLsbD_extractLsb', BitVec.getLsbD_xor] at bits
  simp at bits

/-- A successful `vmm_remap` keeps the other pages of the large page exactly when it splits
none: a split changes the neighbouring page. -/
theorem transparent_iff_not_largePage (ok : WellFormed root m)
    (remapped : vmmRemap root va paddr flags m = .ok (true, after)) :
    Transparent root m after va ↔ ¬ LargePage root m va := by
  have sameDirs := dirs_neighbour va
  have ptNe := ptIdx_neighbour va
  constructor
  · intro transparent large
    have pageNe : pageOf (neighbour va) ≠ pageOf va := fun same =>
      ptNe (pageOf_eq_iff.mp same).2
    have indices := sameDirs
    simp only [dirs, cons.injEq, and_true] at indices
    obtain ⟨samePml4, samePdpt, samePd⟩ := indices
    rcases large with gigabyte | megabytes
    · exact translate_ne_gigabyte ok sameDirs remapped ptNe gigabyte
        (transparent _ (.gigabyte gigabyte samePml4 samePdpt) pageNe)
    · exact translate_ne_megabytes ok sameDirs remapped ptNe megabytes
        (transparent _ (.megabytes megabytes samePml4 samePdpt samePd) pageNe)
  · intro small other covered pageNe
    cases covered with
    | page same => exact absurd same pageNe
    | gigabyte large => exact absurd (.inl large) small
    | megabytes large => exact absurd (.inr large) small

/-- The page at 0x1000 is mapped anew, with frame 4 for the table that this
takes. -/
def remapLow (pde : Word) : Except Panic (Bool × Machine) :=
  vmmRemap 1 0x1000 0x7000 (ptePresent ||| pteWritable) (onePath pde [4])

def remappedLow (pde : Word) : Machine :=
  match remapLow pde with
  | .ok (_, m) => m
  | .error _ => onePath pde []

theorem transparent_iff_not_largePage_remappedLow :
    remapLow largeEntry = .ok (true, remappedLow largeEntry) ∧
      LargePage 1 (onePath largeEntry [4]) 0x1000 ∧
      ¬ Transparent 1 (onePath largeEntry [4]) (remappedLow largeEntry) 0x1000 := by
  have large : LargePage 1 (onePath largeEntry [4]) 0x1000 :=
    .inr ⟨⟨⟨rfl, rfl⟩, rfl, rfl⟩, rfl, rfl⟩
  have remapped : remapLow largeEntry = .ok (true, remappedLow largeEntry) := rfl
  refine ⟨remapped, large, fun transparent => ?_⟩
  exact (transparent_iff_not_largePage (wellFormed_largeEntry [4]) remapped).mp transparent large

def largePatEntry : Word := largeEntry ||| 0x1000

/-- The page at 0x2000 changes its memory type when its large page has the
memory type bit clear, and its frame when it is set. -/
theorem remapLow_changes_neighbour :
    WellFormed 1 (onePath largeEntry [4]) ∧ WellFormed 1 (onePath largePatEntry [4]) ∧
      remapLow largeEntry = .ok (true, remappedLow largeEntry) ∧
      remapLow largePatEntry = .ok (true, remappedLow largePatEntry) ∧
      Covers 1 (onePath largeEntry [4]) 0x1000 0x2000 ∧
      Covers 1 (onePath largePatEntry [4]) 0x1000 0x2000 ∧
      (translate (onePath largeEntry [4]).memory 1 0x2000).map Translation.pat = some false ∧
      (translate (remappedLow largeEntry).memory 1 0x2000).map Translation.pat = some true ∧
      (translate (onePath largePatEntry [4]).memory 1 0x2000).map Translation.frame = some 0x40002 ∧
      (translate (remappedLow largePatEntry).memory 1 0x2000).map Translation.frame =
        some 0x40003 :=
  ⟨wellFormed_largeEntry [4], wellFormed_onePath (by decide) (by decide), rfl, rfl,
    .megabytes ⟨⟨⟨rfl, rfl⟩, rfl, rfl⟩, rfl, rfl⟩ rfl rfl rfl,
    .megabytes ⟨⟨⟨rfl, rfl⟩, rfl, rfl⟩, rfl, rfl⟩ rfl rfl rfl,
    by decide, by decide, by decide, by decide⟩

end LaOS.Vmm
