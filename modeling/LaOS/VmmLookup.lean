import LaOS.VmmSplit

/-!
# Looking up a mapping

Where the processor takes bits 51 to 12 of an entry, `vmm_is_mapped` and `vmm_get_phys`
keep bits 63 to 52 as well, and for a large page they add the offset within it.
-/

namespace LaOS.Vmm

open List RadixTree

variable {root : Frame} {m after : Machine} {va paddr flags entry : Word}

/-- The bits above the address in an entry: the no-execute bit, the protection
key and the bits available to software. -/
def highBits (entry : Word) : BitVec 12 := entry.extractLsb' 52 12

theorem highBits_eq_zero_iff : highBits entry = 0#12 ↔ entry.toNat / 2 ^ 52 = 0 := by
  rw [← BitVec.toNat_inj]
  simp only [highBits, BitVec.extractLsb'_toNat, Nat.shiftRight_eq_div_pow, BitVec.toNat_ofNat]
  omega

theorem toNat_and_low (bits : Nat) (mask : Word) (isMask : mask.toNat = 2 ^ bits - 1) :
    (entry &&& mask).toNat = entry.toNat % 2 ^ bits := by
  rw [BitVec.toNat_and, isMask, Nat.and_two_pow_sub_one_eq_mod]

theorem toNat_and_not_low (bits : Nat) (mask : Word) (isMask : mask.toNat = 2 ^ bits - 1) :
    (entry &&& ~~~mask).toNat = entry.toNat / 2 ^ bits * 2 ^ bits := by
  have disjoint : (entry &&& mask) &&& (entry &&& ~~~mask) = 0#64 := by
    refine BitVec.eq_of_getLsbD_eq fun bit bitLt => ?_
    simp only [BitVec.getLsbD_and, BitVec.getLsbD_not, BitVec.getLsbD_zero]
    cases mask.getLsbD bit <;> simp
  have parts : (entry &&& mask) + (entry &&& ~~~mask) = entry := by
    rw [BitVec.add_eq_or_of_and_eq_zero _ _ disjoint]
    refine BitVec.eq_of_getLsbD_eq fun bit bitLt => ?_
    simp only [BitVec.getLsbD_or, BitVec.getLsbD_and, BitVec.getLsbD_not, bitLt, decide_true,
      Bool.true_and]
    cases mask.getLsbD bit <;> simp
  have sum := BitVec.toNat_add_of_and_eq_zero disjoint
  rw [parts, toNat_and_low bits mask isMask] at sum
  have division := Nat.div_add_mod entry.toNat (2 ^ bits)
  rw [Nat.mul_comm] at division
  omega

theorem page_aligned_iff : va &&& pageMask = 0#64 ↔ va.toNat % 2 ^ 12 = 0 := by
  rw [← BitVec.toNat_inj, toNat_and_low 12 pageMask (by decide)]
  rfl

theorem page_phys_iff :
    entry &&& ~~~pageMask = frameAddr (frameOf entry) ↔ highBits entry = 0#12 := by
  rw [highBits_eq_zero_iff, ← BitVec.toNat_inj, toNat_frameAddr, toNat_frameOf,
    toNat_and_not_low 12 pageMask (by decide)]
  omega

theorem megabytes_phys_iff : (entry &&& ~~~0x1fffff) + (va &&& 0x1fffff) =
        frameAddr (entry.extractLsb' 21 31 ++ ptIdx va) ↔
      highBits entry = 0#12 ∧ va &&& pageMask = 0#64 := by
  rw [highBits_eq_zero_iff, page_aligned_iff, ← BitVec.toNat_inj, toNat_frameAddr,
    BitVec.toNat_add, toNat_and_not_low 21 0x1fffff (by decide),
    toNat_and_low 21 0x1fffff (by decide), BitVec.toNat_append]
  simp only [ptIdx, BitVec.extractLsb'_toNat, Nat.shiftRight_eq_div_pow]
  rw [Nat.shiftLeft_add_eq_or_of_lt (by omega) _ |>.symm]
  omega

theorem gigabyte_phys_iff : (entry &&& ~~~0x3fffffff) + (va &&& 0x3fffffff) =
        frameAddr ((entry.extractLsb' 30 22 ++ pdIdx va) ++ ptIdx va) ↔
      highBits entry = 0#12 ∧ va &&& pageMask = 0#64 := by
  rw [highBits_eq_zero_iff, page_aligned_iff, ← BitVec.toNat_inj, toNat_frameAddr,
    BitVec.toNat_add, toNat_and_not_low 30 0x3fffffff (by decide),
    toNat_and_low 30 0x3fffffff (by decide), BitVec.toNat_append, BitVec.toNat_append]
  simp only [pdIdx, ptIdx, BitVec.extractLsb'_toNat, Nat.shiftRight_eq_div_pow]
  rw [← Nat.shiftLeft_add_eq_or_of_lt (by omega), ← Nat.shiftLeft_add_eq_or_of_lt (by omega),
    Nat.shiftLeft_eq, Nat.shiftLeft_eq]
  omega

theorem deref_page_ok (clear : highBits entry = 0#12) :
    deref (entry &&& ~~~pageMask) = .ok (frameOf entry) := by
  simp only [deref, extractLsb'_page 52 12 (by decide), frameOf_page]
  exact if_pos clear

theorem deref_page_error (used : highBits entry ≠ 0#12) :
    deref (entry &&& ~~~pageMask) = .error .badPointer := by
  simp only [deref, extractLsb'_page 52 12 (by decide)]
  exact if_neg used

section Lookup

variable {Result : Type} (absent : Result) (gigabyte megabytes page : Word → Result)

/-- The walk that both lookups perform, with the results they give. -/
def lookup (root : Frame) (vaddr : Word) (m : Machine) : Except Panic Result := do
  let pml4e := m.memory root (pml4Idx vaddr)
  if !present pml4e then return absent
  let pdpt ← deref (pml4e &&& ~~~pageMask)
  let pdpte := m.memory pdpt (pdptIdx vaddr)
  if !present pdpte then return absent
  if pteIsLeaf pdpte then return gigabyte pdpte
  let pd ← deref (pdpte &&& ~~~pageMask)
  let pde := m.memory pd (pdIdx vaddr)
  if !present pde then return absent
  if pteIsLeaf pde then return megabytes pde
  let pt ← deref (pde &&& ~~~pageMask)
  let pte := m.memory pt (ptIdx vaddr)
  if !present pte then return absent
  return page pte

theorem vmmIsMapped_eq : vmmIsMapped root va m =
      lookup false (fun _ => true) (fun _ => true) (fun _ => true) root va m :=
  rfl

theorem vmmGetPhys_eq (rootBound : frameAddr root ≤ 0x00007fffffffffff) :
    vmmGetPhys root va m =
      lookup 0 (fun pdpte => (pdpte &&& ~~~0x3fffffff) + (va &&& 0x3fffffff))
        (fun pde => (pde &&& ~~~0x1fffff) + (va &&& 0x1fffff)) (fun pte => pte &&& ~~~pageMask)
        root va m := by
  simp only [vmmGetPhys, gt_iff_lt, BitVec.not_lt.mpr rootBound, ite_false]
  rfl

theorem vmmGetPhys_of_gt (tooHigh : ¬ frameAddr root ≤ 0x00007fffffffffff) :
    vmmGetPhys root va m = .error .virtualRoot := by
  simp only [vmmGetPhys, gt_iff_lt, BitVec.not_le.mp tooHigh, ite_true]
  rfl

end Lookup

/-- The entries that lead to a table have no bits above their address field. -/
structure DirectoriesClear (root : Frame) (m : Machine) (vaddr : Word) : Prop where
  pml4 : present (pml4Entry root m vaddr) = true →
    highBits (pml4Entry root m vaddr) = 0#12
  pdpt : ReachesPd root m vaddr → highBits (pdptEntry root m vaddr) = 0#12
  pd : ReachesPt root m vaddr → highBits (pdEntry root m vaddr) = 0#12

section Evaluation

variable {Result : Type} (absent : Result) (gigabyte megabytes page : Word → Result)

theorem directoriesClear_of_lookup {result : Result}
    (found : lookup absent gigabyte megabytes page root va m = .ok result) :
    DirectoriesClear root m va := by
  have pml4 : present (pml4Entry root m va) = true →
      highBits (pml4Entry root m va) = 0#12 := by
    intro isPresent
    by_contra used
    simp only [lookup, isPresent, Bool.not_true, Bool.false_eq_true, ite_false,
      deref_page_error used] at found
    cases found
  have pdpt : ReachesPd root m va → highBits (pdptEntry root m va) = 0#12 := by
    intro reaches
    by_contra used
    simp only [lookup, reaches.pml4Present, Bool.not_true, Bool.false_eq_true, ite_false,
      deref_page_ok (pml4 reaches.pml4Present), bind, Except.bind, reaches.pdptPresent, pteIsLeaf,
      reaches.pdptTable, Bool.and_false, deref_page_error used] at found
    cases found
  refine ⟨pml4, pdpt, fun reaches => ?_⟩
  by_contra used
  simp only [lookup, reaches.pml4Present, Bool.not_true, Bool.false_eq_true, ite_false,
    deref_page_ok (pml4 reaches.pml4Present), bind, Except.bind, reaches.pdptPresent, pteIsLeaf,
    reaches.pdptTable, Bool.and_false, deref_page_ok (pdpt reaches.toReachesPd),
    reaches.pdPresent, reaches.pdTable, deref_page_error used] at found
  cases found

variable (clear : DirectoriesClear root m va)

theorem lookup_noPdpt (pml4Absent : present (pml4Entry root m va) = false) :
    lookup absent gigabyte megabytes page root va m = .ok absent := by
  simp only [lookup, pml4Absent, Bool.not_false, ite_true]
  rfl

include clear

theorem lookup_noPd (pdpt : ReachesPdpt root m va)
    (pdptAbsent : present (pdptEntry root m va) = false) :
    lookup absent gigabyte megabytes page root va m = .ok absent := by
  simp only [lookup, pdpt.pml4Present, Bool.not_true, Bool.false_eq_true, ite_false,
    deref_page_ok (clear.pml4 pdpt.pml4Present), bind, Except.bind, pdptAbsent, Bool.not_false,
    ite_true]
  rfl

theorem lookup_gigabyte (large : GigabytePage root m va) :
    lookup absent gigabyte megabytes page root va m =
      .ok (gigabyte (pdptEntry root m va)) := by
  simp only [lookup, large.pml4Present, Bool.not_true, Bool.false_eq_true, ite_false,
    deref_page_ok (clear.pml4 large.pml4Present), bind, Except.bind, large.pdptPresent, pteIsLeaf,
    large.leaf, Bool.and_self, ite_true]
  rfl

theorem lookup_noPt (pd : ReachesPd root m va)
    (pdAbsent : present (pdEntry root m va) = false) :
    lookup absent gigabyte megabytes page root va m = .ok absent := by
  simp only [lookup, pd.pml4Present, Bool.not_true, Bool.false_eq_true, ite_false,
    deref_page_ok (clear.pml4 pd.pml4Present), bind, Except.bind, pd.pdptPresent, pteIsLeaf,
    pd.pdptTable, Bool.and_false, deref_page_ok (clear.pdpt pd), pdAbsent, Bool.not_false, ite_true]
  rfl

theorem lookup_megabytes (large : MegabytesPage root m va) :
    lookup absent gigabyte megabytes page root va m =
      .ok (megabytes (pdEntry root m va)) := by
  simp only [lookup, large.pml4Present, Bool.not_true, Bool.false_eq_true, ite_false,
    deref_page_ok (clear.pml4 large.pml4Present), bind, Except.bind, large.pdptPresent, pteIsLeaf,
    large.pdptTable, Bool.and_false, deref_page_ok (clear.pdpt large.toReachesPd), large.pdPresent,
    large.leaf, Bool.and_self, ite_true]
  rfl

theorem lookup_page (pt : ReachesPt root m va) :
    lookup absent gigabyte megabytes page root va m =
      .ok (if present (ptEntry root m va) then page (ptEntry root m va)
        else absent) := by
  simp only [lookup, pt.pml4Present, Bool.not_true, Bool.false_eq_true, ite_false,
    deref_page_ok (clear.pml4 pt.pml4Present), bind, Except.bind, pt.pdptPresent, pteIsLeaf,
    pt.pdptTable, Bool.and_false, deref_page_ok (clear.pdpt pt.toReachesPd), pt.pdPresent,
    pt.pdTable, deref_page_ok (clear.pd pt)]
  cases present (ptEntry root m va) <;> rfl

end Evaluation

/-- The physical address of a page, and 0 when there is none. -/
def physOf : Option Translation → Word
  | none => 0
  | some translation => frameAddr translation.frame

structure LookupAgrees (root : Frame) (m : Machine) (vaddr : Word) : Prop where
  isMapped : vmmIsMapped root vaddr m = .ok (translate m.memory root vaddr).isSome
  getPhys : vmmGetPhys root vaddr m = .ok (physOf (translate m.memory root vaddr))

/-- No entry on the way to an address has bits above its address field, and a large page is
aligned. -/
structure LookupOk (root : Frame) (m : Machine) (vaddr : Word) : Prop where
  rootBound : frameAddr root ≤ 0x00007fffffffffff
  clear : DirectoriesClear root m vaddr
  gigabyte : GigabytePage root m vaddr →
    highBits (pdptEntry root m vaddr) = 0#12 ∧ vaddr &&& pageMask = 0#64
  megabytes : MegabytesPage root m vaddr →
    highBits (pdEntry root m vaddr) = 0#12 ∧ vaddr &&& pageMask = 0#64
  page : ReachesPt root m vaddr → present (ptEntry root m vaddr) = true →
    highBits (ptEntry root m vaddr) = 0#12

theorem lookupOk_of_vacant (rootBound : frameAddr root ≤ 0x00007fffffffffff)
    (clear : DirectoriesClear root m va) (small : ¬ LargePage root m va)
    (vacant : ReachesPt root m va → present (ptEntry root m va) = false) :
    LookupOk root m va := by
  refine ⟨rootBound, clear, fun large => absurd (.inl large) small,
    fun large => absurd (.inr large) small, fun pt isPresent => ?_⟩
  cases (vacant pt).symm.trans isPresent

theorem lookupAgrees_iff_lookupOk (format : FormatOk root m va) :
    LookupAgrees root m va ↔ LookupOk root m va := by
  by_cases rootBound : frameAddr root ≤ 0x00007fffffffffff
  swap
  · refine ⟨fun agrees => ?_, fun ok => absurd ok.rootBound rootBound⟩
    cases (vmmGetPhys_of_gt rootBound).symm.trans agrees.getPhys
  by_cases clear : DirectoriesClear root m va
  swap
  · refine ⟨fun agrees => ?_, fun ok => absurd ok.clear clear⟩
    exact absurd (directoriesClear_of_lookup _ _ _ _ (vmmIsMapped_eq.symm.trans agrees.isMapped))
      clear
  have agreesIff : LookupAgrees root m va ↔ _ ∧ _ :=
    ⟨fun agrees => And.intro agrees.isMapped agrees.getPhys, fun both => ⟨both.1, both.2⟩⟩
  rw [agreesIff, vmmIsMapped_eq, vmmGetPhys_eq rootBound]
  cases format.shape with
  | noPdpt absent =>
    rw [lookup_noPdpt _ _ _ _ absent, lookup_noPdpt _ _ _ _ absent, translate_noPdpt absent]
    refine ⟨fun _ => lookupOk_of_vacant rootBound clear ?_ ?_, fun _ => ⟨rfl, rfl⟩⟩
    · rintro (large | large) <;> cases absent.symm.trans large.pml4Present
    · exact fun pt => by cases absent.symm.trans pt.pml4Present
  | noPd pdpt absent =>
    rw [lookup_noPd _ _ _ _ clear pdpt absent, lookup_noPd _ _ _ _ clear pdpt absent,
      translate_noPd pdpt absent]
    refine ⟨fun _ => lookupOk_of_vacant rootBound clear ?_ ?_, fun _ => ⟨rfl, rfl⟩⟩
    · rintro (large | large) <;> cases absent.symm.trans large.pdptPresent
    · exact fun pt => by cases absent.symm.trans pt.pdptPresent
  | gigabyte large reserved =>
    rw [lookup_gigabyte _ _ _ _ clear large, lookup_gigabyte _ _ _ _ clear large,
      translate_gigabyte large reserved]
    simp only [Option.isSome_some, physOf, leafTranslation, true_and, Except.ok.injEq,
      gigabyte_phys_iff]
    refine ⟨fun both => ⟨rootBound, clear, fun _ => both, ?_, ?_⟩, fun ok => ok.gigabyte large⟩
    · exact fun other => by cases other.pdptTable.symm.trans large.leaf
    · exact fun pt => by cases pt.pdptTable.symm.trans large.leaf
  | noPt pd absent =>
    rw [lookup_noPt _ _ _ _ clear pd absent, lookup_noPt _ _ _ _ clear pd absent,
      translate_noPt pd absent]
    refine ⟨fun _ => lookupOk_of_vacant rootBound clear ?_ ?_, fun _ => ⟨rfl, rfl⟩⟩
    · rintro (large | large)
      · cases pd.pdptTable.symm.trans large.leaf
      · cases absent.symm.trans large.pdPresent
    · exact fun pt => by cases absent.symm.trans pt.pdPresent
  | megabytes large reserved =>
    rw [lookup_megabytes _ _ _ _ clear large, lookup_megabytes _ _ _ _ clear large,
      translate_megabytes large reserved]
    simp only [Option.isSome_some, physOf, leafTranslation, true_and, Except.ok.injEq,
      megabytes_phys_iff]
    refine ⟨fun both => ⟨rootBound, clear, ?_, fun _ => both, ?_⟩, fun ok => ok.megabytes large⟩
    · exact fun other => by cases large.pdptTable.symm.trans other.leaf
    · exact fun pt => by cases pt.pdTable.symm.trans large.leaf
  | page pt =>
    have small := pt.not_largePage
    rw [lookup_page _ _ _ _ clear pt, lookup_page _ _ _ _ clear pt, translate_page pt]
    cases ptPresent : present (ptEntry root m va) with
    | false =>
      exact ⟨fun _ => lookupOk_of_vacant rootBound clear small fun _ => ptPresent,
        fun _ => ⟨rfl, rfl⟩⟩
    | true =>
      simp only [ite_true, Option.isSome_some, physOf, leafTranslation, true_and,
        Except.ok.injEq, page_phys_iff]
      exact ⟨fun ptClear => ⟨rootBound, clear, fun large => absurd (.inl large) small,
        fun large => absurd (.inr large) small, fun _ _ => ptClear⟩,
        fun ok => ok.page pt ptPresent⟩

/-- The entries for tables on the way to a page after it was mapped without
splitting a large page. -/
inductive NewPath (root : Frame) (m : Machine) (vaddr flags : Word) :
    Word → Word → Word → Prop
  | page (pt : ReachesPt root m vaddr)
      (vacant : present (ptEntry root m vaddr) = false) :
      NewPath root m vaddr flags (widen (pml4Entry root m vaddr) flags)
        (widen (pdptEntry root m vaddr) flags) (widen (pdEntry root m vaddr) flags)
  | noPt (pd : ReachesPd root m vaddr) (absent : present (pdEntry root m vaddr) = false)
      (pt : Frame) :
      NewPath root m vaddr flags (widen (pml4Entry root m vaddr) flags)
        (widen (pdptEntry root m vaddr) flags) (tableEntry pt flags)
  | noPd (pdpt : ReachesPdpt root m vaddr)
      (absent : present (pdptEntry root m vaddr) = false) (pd pt : Frame) :
      NewPath root m vaddr flags (widen (pml4Entry root m vaddr) flags)
        (tableEntry pd flags) (tableEntry pt flags)
  | noPdpt (absent : present (pml4Entry root m vaddr) = false) (pdpt pd pt : Frame) :
      NewPath root m vaddr flags (tableEntry pdpt flags) (tableEntry pd flags)
        (tableEntry pt flags)

section NewMapping

variable (ok : WellFormed root m)
  (mapped : vmmMap root va paddr flags m = .ok (true, after))
include ok mapped

theorem entries_page (pt : ReachesPt root m va) :
    present (ptEntry root m va) = false ∧
      Entries root after va (widen (pml4Entry root m va) flags)
        (widen (pdptEntry root m va) flags) (widen (pdEntry root m va) flags)
        ((paddr &&& pteAddrMask) ||| flags) := by
  have visited : Visited m [root, frameOf (pml4Entry root m va),
      frameOf (pdptEntry root m va), frameOf (pdEntry root m va)] :=
    ok.visited [[], [pml4Idx va], [pml4Idx va, pdptIdx va], dirs va]
      (by simp [pt.toReachesPdpt.tableAt_eq, pt.toReachesPd.tableAt_eq, pt.tableAt_eq])
      (by simp [dirs]) (by simp [dirs])
  have below := visited.tail
  have atPd := (visited.ne (mem_cons_of_mem _ mem_cons_self)).symm
  obtain ⟨_, _, _, _, _, _, first, second, third, allowed, rfl⟩ := levels_of_vmmMapLocked mapped
  obtain ⟨rfl, visited, one⟩ := passed_of_ensureTable first visited rfl pt.pml4Present
    (.inl rfl) (visited.ne mem_cons_self)
  obtain ⟨rfl, visited, two⟩ := passed_of_ensureTable second visited
    (congrFun one.filled _) pt.pdptPresent (.inr pt.pdptTable) (below.ne mem_cons_self)
  obtain ⟨rfl, visited, three⟩ := passed_of_ensureTable third visited
    ((congrFun two.filled _).trans
      (congrFun (one.others _ atPd (below.ne mem_cons_self).symm) _)) pt.pdPresent
    (.inr pt.pdTable) (below.tail.ne mem_cons_self)
  refine ⟨?_, entries_at_of_levels one two three visited⟩
  have vacant := allowed rfl
  have ptBelow := below.ne (mem_cons_of_mem _ mem_cons_self)
  rwa [three.filled, two.others _ ptBelow.symm (below.tail.ne mem_cons_self).symm,
    one.others _ (visited.ne (by simp)).symm ptBelow.symm] at vacant

theorem entries_noPt (pd : ReachesPd root m va)
    (absent : present (pdEntry root m va) = false) :
    ∃ pt, Entries root after va (widen (pml4Entry root m va) flags)
      (widen (pdptEntry root m va) flags) (tableEntry pt flags)
      ((paddr &&& pteAddrMask) ||| flags) := by
  have visited := ok.visited_pd pd
  have rootPd := visited.ne (mem_cons_of_mem _ mem_cons_self)
  have pdptPd := visited.tail.ne mem_cons_self
  obtain ⟨_, _, pt, _, _, _, first, second, third, _, rfl⟩ := levels_of_vmmMapLocked mapped
  obtain ⟨rfl, visited, one⟩ := passed_of_ensureTable first visited rfl pd.pml4Present
    (.inl rfl) (visited.ne mem_cons_self)
  obtain ⟨rfl, visited, two⟩ := passed_of_ensureTable second visited
    (congrFun one.filled _) pd.pdptPresent (.inr pd.pdptTable) pdptPd
  obtain ⟨visited, three⟩ := created_of_ensureTable third visited (by simp)
    (by rwa [two.filled, one.others _ rootPd.symm pdptPd.symm])
  exact ⟨pt, entries_at_of_levels one two three visited⟩

theorem entries_noPd (pdpt : ReachesPdpt root m va)
    (absent : present (pdptEntry root m va) = false) :
    ∃ pd pt, Entries root after va (widen (pml4Entry root m va) flags)
      (tableEntry pd flags) (tableEntry pt flags) ((paddr &&& pteAddrMask) ||| flags) := by
  have visited := ok.visited_pdpt pdpt
  obtain ⟨_, pd, pt, _, _, _, first, second, third, _, rfl⟩ := levels_of_vmmMapLocked mapped
  obtain ⟨rfl, visited, one⟩ := passed_of_ensureTable first visited rfl pdpt.pml4Present
    (.inl rfl) (visited.ne mem_cons_self)
  obtain ⟨visited, two⟩ := created_of_ensureTable second visited (by simp) (by rwa [one.filled])
  obtain ⟨visited, three⟩ := created_of_ensureTable third visited (by simp)
    (by simp [two.filled, present])
  exact ⟨pd, pt, entries_at_of_levels one two three visited⟩

theorem entries_noPdpt (absent : present (pml4Entry root m va) = false) :
    ∃ pdpt pd pt, Entries root after va (tableEntry pdpt flags)
      (tableEntry pd flags) (tableEntry pt flags) ((paddr &&& pteAddrMask) ||| flags) := by
  have visited : Visited m [root] := ok.visited [[]] (by simp) (by simp) (by simp)
  obtain ⟨pdpt, pd, pt, _, _, _, first, second, third, _, rfl⟩ := levels_of_vmmMapLocked mapped
  obtain ⟨visited, one⟩ := created_of_ensureTable first visited (by simp) absent
  obtain ⟨visited, two⟩ := created_of_ensureTable second visited (by simp)
    (by simp [one.filled, present])
  obtain ⟨visited, three⟩ := created_of_ensureTable third visited (by simp)
    (by simp [two.filled, present])
  exact ⟨pdpt, pd, pt, entries_at_of_levels one two three visited⟩

theorem newPath_of_vmmMap : ∃ pml4e pdpte pde, NewPath root m va flags pml4e pdpte pde ∧
      Entries root after va pml4e pdpte pde ((paddr &&& pteAddrMask) ||| flags) := by
  cases (ok.format va).shape with
  | noPdpt absent =>
    obtain ⟨pdpt, pd, pt, entries⟩ := entries_noPdpt ok mapped absent
    exact ⟨_, _, _, .noPdpt absent pdpt pd pt, entries⟩
  | noPd pdpt absent =>
    obtain ⟨pd, pt, entries⟩ := entries_noPd ok mapped pdpt absent
    exact ⟨_, _, _, .noPd pdpt absent pd pt, entries⟩
  | gigabyte large =>
    cases (entries_split_gigabyte ok rfl mapped large).1
  | noPt pd absent =>
    obtain ⟨pt, entries⟩ := entries_noPt ok mapped pd absent
    exact ⟨_, _, _, .noPt pd absent pt, entries⟩
  | megabytes large =>
    cases (entries_split_megabytes ok rfl mapped large).1
  | page pt =>
    obtain ⟨vacant, entries⟩ := entries_page ok mapped pt
    exact ⟨_, _, _, .page pt vacant, entries⟩

end NewMapping

@[simp]
theorem highBits_widen (entry flags : Word) : highBits (widen entry flags) = highBits entry := by
  refine BitVec.eq_of_getLsbD_eq fun bit bitLt => ?_
  simp only [highBits, BitVec.getLsbD_extractLsb', getLsbD_widen]
  grind

@[simp]
theorem highBits_tableEntry (frame : Frame) (flags : Word) :
    highBits (tableEntry frame flags) = 0#12 := by
  refine BitVec.eq_of_getLsbD_eq fun bit bitLt => ?_
  simp only [highBits, BitVec.getLsbD_extractLsb', getLsbD_tableEntry]
  grind

variable {pml4e pdpte pde pte phys : Word}

namespace NewPath

variable (path : NewPath root m va flags pml4e pdpte pde)
include path

theorem directories : ∀ entry ∈ [pml4e, pdpte, pde], present entry = true ∧ huge entry = false := by
  cases path with
  | page pt _ =>
    simp [pt.pml4Present, pt.pml4Table, pt.pdptPresent, pt.pdptTable, pt.pdPresent, pt.pdTable]
  | noPt pd _ _ => simp [pd.pml4Present, pd.pml4Table, pd.pdptPresent, pd.pdptTable]
  | noPd pdpt _ _ _ => simp [pdpt.pml4Present, pdpt.pml4Table]
  | noPdpt _ _ _ _ => simp

theorem clear_iff : (highBits pml4e = 0#12 ∧ highBits pdpte = 0#12 ∧ highBits pde = 0#12) ↔
      DirectoriesClear root m va := by
  cases path with
  | page pt _ =>
    simp only [highBits_widen]
    exact ⟨fun clear => ⟨fun _ => clear.1, fun _ => clear.2.1, fun _ => clear.2.2⟩,
      fun clear => ⟨clear.pml4 pt.pml4Present, clear.pdpt pt.toReachesPd, clear.pd pt⟩⟩
  | noPt pd absent _ =>
    simp only [highBits_widen, highBits_tableEntry, and_true]
    refine ⟨fun clear => ⟨fun _ => clear.1, fun _ => clear.2, fun pt => ?_⟩,
      fun clear => ⟨clear.pml4 pd.pml4Present, clear.pdpt pd⟩⟩
    cases absent.symm.trans pt.pdPresent
  | noPd pdpt absent _ _ =>
    simp only [highBits_widen, highBits_tableEntry, and_true]
    refine ⟨fun clear => ⟨fun _ => clear, fun pd => ?_, fun pt => ?_⟩,
      fun clear => clear.pml4 pdpt.pml4Present⟩
    · cases absent.symm.trans pd.pdptPresent
    · cases absent.symm.trans pt.pdptPresent
  | noPdpt absent _ _ _ =>
    simp only [highBits_tableEntry, and_self, true_iff]
    refine ⟨fun isPresent => ?_, fun pd => ?_, fun pt => ?_⟩
    · cases absent.symm.trans isPresent
    · cases absent.symm.trans pd.pml4Present
    · cases absent.symm.trans pt.pml4Present

theorem not_largePage : ¬ LargePage root m va := by
  cases path with
  | page pt _ => exact pt.not_largePage
  | noPt pd absent _ =>
    rintro (large | large)
    · cases pd.pdptTable.symm.trans large.leaf
    · cases absent.symm.trans large.pdPresent
  | noPd _ absent _ _ => rintro (large | large) <;> cases absent.symm.trans large.pdptPresent
  | noPdpt absent _ _ _ => rintro (large | large) <;> cases absent.symm.trans large.pml4Present

theorem vacant (pt : ReachesPt root m va) :
    present (ptEntry root m va) = false := by
  cases path with
  | page _ vacant => exact vacant
  | noPt _ absent _ => cases absent.symm.trans pt.pdPresent
  | noPd _ absent _ _ => cases absent.symm.trans pt.pdptPresent
  | noPdpt absent _ _ _ => cases absent.symm.trans pt.pml4Present

end NewPath

theorem Entries.vmmGetPhys_iff (entries : Entries root m va pml4e pdpte pde pte)
    (directories : ∀ entry ∈ [pml4e, pdpte, pde], present entry = true ∧ huge entry = false) :
    vmmGetPhys root va m = .ok phys ↔ frameAddr root ≤ 0x00007fffffffffff ∧
        (highBits pml4e = 0#12 ∧ highBits pdpte = 0#12 ∧ highBits pde = 0#12) ∧
        (if present pte then pte &&& ~~~pageMask else 0) = phys := by
  obtain ⟨rfl, rfl, rfl, rfl⟩ := entries
  simp only [List.forall_mem_cons, List.not_mem_nil, false_implies, implies_true,
    and_true] at directories
  obtain ⟨pml4, pdpt, pd⟩ := directories
  have pt : ReachesPt root m va := ⟨⟨⟨pml4.1, pml4.2⟩, pdpt.1, pdpt.2⟩, pd.1, pd.2⟩
  by_cases rootBound : frameAddr root ≤ 0x00007fffffffffff
  swap
  · rw [vmmGetPhys_of_gt rootBound]
    exact ⟨nofun, fun conditions => absurd conditions.1 rootBound⟩
  rw [vmmGetPhys_eq rootBound]
  constructor
  · intro found
    have clear := directoriesClear_of_lookup _ _ _ _ found
    rw [lookup_page _ _ _ _ clear pt] at found
    exact ⟨rootBound, ⟨clear.pml4 pt.pml4Present, clear.pdpt pt.toReachesPd, clear.pd pt⟩,
      Except.ok.inj found⟩
  · rintro ⟨_, ⟨pml4Clear, pdptClear, pdClear⟩, rfl⟩
    exact lookup_page _ _ _ _ ⟨fun _ => pml4Clear, fun _ => pdptClear, fun _ => pdClear⟩ pt

/-- The flags of a new mapping do not disturb its address: they mark the page present and set no
other bit above the page offset, or the address is 0. -/
def FlagsKeepAddress (paddr flags : Word) : Prop :=
  if present flags then flags &&& ~~~pageMask &&& ~~~(paddr &&& pteAddrMask) = 0#64
  else paddr &&& pteAddrMask = 0#64

theorem flagsKeepAddress_iff : (if present ((paddr &&& pteAddrMask) ||| flags) then
      ((paddr &&& pteAddrMask) ||| flags) &&& ~~~pageMask else 0) = paddr &&& pteAddrMask ↔
      FlagsKeepAddress paddr flags := by
  have samePresent : present ((paddr &&& pteAddrMask) ||| flags) = present flags := by
    simp only [present, BitVec.getLsbD_or, BitVec.getLsbD_and, getLsbD_pteAddrMask]
    simp
  rw [samePresent, FlagsKeepAddress]
  cases present flags with
  | false => exact eq_comm
  | true =>
    simp only [ite_true]
    rw [BitVec.eq_of_getLsbD_eq_iff, BitVec.eq_of_getLsbD_eq_iff]
    simp only [BitVec.getLsbD_or, BitVec.getLsbD_and, BitVec.getLsbD_not, getLsbD_pteAddrMask,
      getLsbD_pageMask, BitVec.getLsbD_zero]
    refine forall_congr' fun bit => forall_congr' fun bitLt => ?_
    by_cases high : bit < 12
    · simp [high, Nat.not_le.mpr high]
    · cases flags.getLsbD bit <;> simp [high, Nat.not_lt.mp high, bitLt]

/-- `vmm_is_mapped` and `vmm_get_phys` agree with the processor exactly when no entry they use
has bits above its address and a large page is aligned; the same after a `vmm_map` whose flags
do not disturb the address. -/
theorem lookup_agrees_iff (ok : WellFormed root m) (va : Word) :
    (LookupAgrees root m va ↔ LookupOk root m va) ∧
      ∀ paddr flags after, vmmMap root va paddr flags m = .ok (true, after) →
        (vmmGetPhys root va after = .ok (paddr &&& pteAddrMask) ↔
          LookupOk root m va ∧ FlagsKeepAddress paddr flags) := by
  refine ⟨lookupAgrees_iff_lookupOk (ok.format va), fun paddr flags after mapped => ?_⟩
  obtain ⟨pml4e, pdpte, pde, path, entries⟩ := newPath_of_vmmMap ok mapped
  rw [entries.vmmGetPhys_iff path.directories, path.clear_iff, flagsKeepAddress_iff]
  constructor
  · rintro ⟨rootBound, clear, flagsOk⟩
    exact ⟨lookupOk_of_vacant rootBound clear path.not_largePage path.vacant, flagsOk⟩
  · rintro ⟨lookupOk, flagsOk⟩
    exact ⟨lookupOk.rootBound, lookupOk.clear, flagsOk⟩

theorem lookup_agrees_iff_largeEntry : WellFormed 1 (onePath largeEntry []) ∧
    LargePage 1 (onePath largeEntry []) 0x1000 ∧ LookupAgrees 1 (onePath largeEntry []) 0x1000 := by
  have large : MegabytesPage 1 (onePath largeEntry []) 0x1000 := ⟨⟨⟨rfl, rfl⟩, rfl, rfl⟩, rfl, rfl⟩
  refine ⟨wellFormed_largeEntry [], .inr large,
    (lookup_agrees_iff (wellFormed_largeEntry []) 0x1000).1.mpr ⟨by decide, ?_, ?_, ?_, ?_⟩⟩
  · exact ⟨fun _ => by decide, fun _ => by decide, fun _ => by decide⟩
  · exact fun gigabyte => absurd gigabyte.leaf (by decide)
  · exact fun _ => by decide
  · exact fun pt => absurd pt.pdTable (by decide)

def mapNoExecute : Except Panic (Bool × Machine) :=
  vmmMap 1 0x1000 0x7000 (ptePresent ||| pteNx) (onePath 0 [4])

def noExecuteMapped : Machine :=
  match mapNoExecute with
  | .ok (_, m) => m
  | .error _ => onePath 0 []

/-- The no-execute bit of a page is returned as a part of its address. -/
theorem vmmGetPhys_returns_noExecute : WellFormed 1 (onePath (largeEntry ||| pteNx) []) ∧
      physOf (translate (onePath (largeEntry ||| pteNx) []).memory 1 0x1000) = 0x40001000 ∧
      vmmGetPhys 1 0x1000 (onePath (largeEntry ||| pteNx) []) = .ok 0x8000000040001000 ∧
      WellFormed 1 (onePath 0 [4]) ∧ mapNoExecute = .ok (true, noExecuteMapped) ∧
      vmmGetPhys 1 0x1000 noExecuteMapped = .ok 0x8000000000007000 :=
  ⟨wellFormed_onePath (by decide) (by decide), by decide, rfl,
    wellFormed_onePath (by decide) (by decide), rfl, rfl⟩

end LaOS.Vmm
