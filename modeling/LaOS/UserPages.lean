import LaOS.ElfProcess
import LaOS.UserVmas

/-!
# What the page functions do to the tree of a process

The lower half of the root of a page table belongs to one process, and there the lookups
of `vmm.c` give the leaf of a page.
-/

namespace LaOS.UserSpace

open BitVec Option Vmm RadixTree

variable {root frame phys : Frame} {m mid after : Machine} {va flags raw : Word}
  {answers : List Frame}

/-- The entries of a root that belong to the process. -/
def low (i : Index) : Prop := i.toNat < 256

theorem low_iff : low (pml4Idx va) ↔ va.toNat / 2 ^ 39 % 2 ^ 9 < 256 := by
  simp only [low, pml4Idx, extractLsb'_toNat, Nat.shiftRight_eq_div_pow]

theorem low_of_lt (bound : va.toNat < 2 ^ 47) : low (pml4Idx va) := by
  rw [low_iff]
  omega

section Lookups

variable {scope : Index → Prop} (ok : TreeOk scope root m) (inScope : scope (pml4Idx va))
include ok inScope

theorem lookup_eq_leafOf {Result : Type} {absent result : Result}
    {gigabyte megabytes page : Word → Result}
    (found : lookup absent gigabyte megabytes page root va m = .ok result) :
    result = ((leafOf m root va).map page).getD absent := by
  have clear := directoriesClear_of_lookup absent gigabyte megabytes page found
  have walk := ok.walk inScope
  have table := walk.tableAt_eq
  rw [leafOf, table]
  cases walk with
  | noPdpt isAbsent =>
    rw [lookup_noPdpt absent gigabyte megabytes page isAbsent] at found
    cases found
    simp [isAbsent]
  | noPd pml4Present pml4Directory isAbsent =>
    rw [lookup_noPd absent gigabyte megabytes page clear
      ⟨pml4Present, pml4Directory.notHuge⟩ isAbsent] at found
    cases found
    simp [isAbsent]
  | noPt pml4Present pml4Directory pdptPresent pdptDirectory isAbsent =>
    rw [lookup_noPt absent gigabyte megabytes page clear
      ⟨⟨pml4Present, pml4Directory.notHuge⟩, pdptPresent, pdptDirectory.notHuge⟩ isAbsent] at found
    cases found
    simp [isAbsent]
  | complete pml4Present pml4Directory pdptPresent pdptDirectory pdPresent pdDirectory =>
    rw [lookup_page absent gigabyte megabytes page clear
      ⟨⟨⟨pml4Present, pml4Directory.notHuge⟩, pdptPresent, pdptDirectory.notHuge⟩, pdPresent,
        pdDirectory.notHuge⟩] at found
    cases found
    simp only [pml4Present, pdptPresent, pdPresent, Bool.and_self, ite_true, bind_some]
    cases present (ptEntry root m va) with
    | false => rfl
    | true => rfl

theorem mapped_eq_of_isMapped {mapped : Bool}
    (found : vmmIsMapped root va m = .ok mapped) :
    mapped = (leafOf m root va).isSome := by
  rw [vmmIsMapped_eq] at found
  rw [lookup_eq_leafOf ok inScope found]
  cases leafOf m root va with
  | none => rfl
  | some leaf => rfl

theorem frame_of_getPhys (found : vmmGetPhys root va m = .ok raw) :
    frameOf (raw &&& pteAddrMask) = ((leafOf m root va).map frameOf).getD 0 := by
  have rootBound : frameAddr root ≤ 0x00007fffffffffff := by
    by_contra tooHigh
    rw [vmmGetPhys_of_gt tooHigh] at found
    cases found
  have masked : frameOf (raw &&& pteAddrMask) = frameOf raw := by
    refine eq_of_getLsbD_eq fun bit bitLt => ?_
    simp only [frameOf, getLsbD_extractLsb', getLsbD_and, getLsbD_pteAddrMask]
    grind
  rw [vmmGetPhys_eq rootBound] at found
  rw [masked, lookup_eq_leafOf ok inScope found]
  cases leafOf m root va with
  | none => rfl
  | some leaf => exact frameOf_page

end Lookups

theorem deref_error {address : Word} {reason : Panic} (failed : deref address = .error reason) :
    reason ≠ .overwritingMapping := by
  rw [deref] at failed
  split at failed <;> cases failed
  rintro ⟨⟩

theorem lookup_error {Result : Type} {absent : Result} {gigabyte megabytes page : Word → Result}
    {reason : Panic}
    (failed : lookup absent gigabyte megabytes page root va m = .error reason) :
    reason ≠ .overwritingMapping := by
  simp only [lookup, bind, Except.bind, pure, Except.pure] at failed
  split at failed
  · cases failed
  split at failed
  · next pdptFailed =>
    cases failed
    exact deref_error pdptFailed
  split at failed
  · cases failed
  split at failed
  · cases failed
  split at failed
  · next pdFailed =>
    cases failed
    exact deref_error pdFailed
  split at failed
  · cases failed
  split at failed
  · cases failed
  split at failed
  · next ptFailed =>
    cases failed
    exact deref_error ptFailed
  · split at failed <;> cases failed

theorem vmmGetPhys_error {reason : Panic}
    (failed : vmmGetPhys root va m = .error reason) : reason ≠ .overwritingMapping := by
  by_cases rootBound : frameAddr root ≤ 0x00007fffffffffff
  · rw [vmmGetPhys_eq rootBound] at failed
    exact lookup_error failed
  · rw [vmmGetPhys_of_gt rootBound] at failed
    cases failed
    nofun

def granted (m : Machine) (frame : Frame) (answers : List Frame) : Machine :=
  { m with allocated := Function.update m.allocated frame true, answers }

def reclaimed (m : Machine) (frame : Frame) : Machine :=
  { m with allocated := Function.update m.allocated frame false }

theorem pmmFree_of_allocated (frameNe : frame ≠ 0) (allocated : m.allocated frame = true) :
    pmmFree frame m = .ok (reclaimed m frame) := by
  rw [pmmFree, if_neg frameNe, if_pos allocated]
  rfl

theorem treeOk_granted {scope : Index → Prop} (ok : TreeOk scope root m) :
    TreeOk scope root (granted m frame answers) where
  unshared := ok.unshared
  allocated := by
    intro path table isInside reaches
    by_cases same : table = frame
    · simp [granted, same]
    · simp [granted, same, ok.allocated path table isInside reaches]
  directory := ok.directory

def pageEntry (phys : Frame) (flags : Word) : Word := (frameAddr phys &&& pteAddrMask) ||| flags

/-- Flags that describe a mapping and contain no address. -/
structure MapsPage (flags : Word) : Prop where
  present : present flags = true
  noFrame : frameOf flags = 0#40
  user : user flags = true

theorem frameOf_pageEntry (flagsOk : MapsPage flags) : frameOf (pageEntry phys flags) = phys := by
  refine eq_of_getLsbD_eq fun bit bitLt => ?_
  have noBit := congrArg (getLsbD · bit) flagsOk.noFrame
  simp only [frameOf, getLsbD_extractLsb', bitLt, decide_true, Bool.true_and, getLsbD_zero] at noBit
  simp only [frameOf, pageEntry, getLsbD_extractLsb', getLsbD_or, getLsbD_and,
    getLsbD_frameAddr, getLsbD_pteAddrMask, noBit]
  grind

theorem present_pageEntry (flagsOk : MapsPage flags) : present (pageEntry phys flags) = true := by
  have isPresent := flagsOk.present
  simp only [present] at isPresent
  simp [present, pageEntry, isPresent]

theorem leafOf_setLeaf {scope : Index → Prop} {table : Frame} {other : Word}
    (ok : TreeOk scope root m) (inScope : scope (pml4Idx va))
    (reaches : tableAt m root (dirs va) = some table) (flagsOk : MapsPage flags)
    (isLow : scope (pml4Idx other)) :
    leafOf (m.write table (ptIdx va) (pageEntry phys flags)) root other =
      if pageOf other = pageOf va then some (pageEntry phys flags)
      else leafOf m root other := by
  rw [leafOf_writeLeaf ok inScope reaches isLow, present_pageEntry flagsOk]
  rfl

/-- What a call of `vmm_map` with a frame that was just allocated may do. -/
inductive FreshMap (root : Frame) (vaddr flags : Word) (phys : Frame) (m : Machine) :
    Except Panic (Bool × Machine) → Prop
  | failed {mid : Machine} (grows : Grows low root m mid) :
      FreshMap root vaddr flags phys m (.ok (false, mid))
  | mapped {mid : Machine} {table : Frame} (grows : Grows low root m mid)
      (reaches : tableAt mid root (dirs vaddr) = some table)
      (pathUser : user flags = true → PathUser mid root vaddr)
      (vacant : leafOf m root vaddr = none) :
      FreshMap root vaddr flags phys m
        (.ok (true, mid.write table (ptIdx vaddr) (pageEntry phys flags)))
  | panicked (taken : (leafOf m root vaddr).isSome = true) :
      FreshMap root vaddr flags phys m (.error .overwritingMapping)

theorem vmmMap_fresh (ok : TreeOk low root m) (inScope : low (pml4Idx va)) :
    FreshMap root va flags phys m (vmmMap root va (frameAddr phys) flags m) := by
  have effect := @vmmMapLocked_effect low root m va (frameAddr phys) flags ok inScope false
  rw [vmmMap]
  generalize vmmMapLocked root va (frameAddr phys) flags false m = outcome at effect
  cases effect with
  | failed grows => exact .failed grows
  | mapped grows reaches pathUser vacant => exact .mapped grows reaches pathUser (vacant rfl)
  | panicked _ taken => exact .panicked taken

inductive FreshEffect (root : Frame) (vaddr flags : Word) (m : Machine) :
    Except Panic (Frame × Machine) → Prop
  | refused (answers : List Frame) :
      FreshEffect root vaddr flags m (.ok (0, { m with answers }))
  | failed {phys : Frame} {answers : List Frame} {mid : Machine} (physNe : phys ≠ 0)
      (free : m.allocated phys = false)
      (grows : Grows low root (granted m phys answers) mid) :
      FreshEffect root vaddr flags m (.ok (0, reclaimed mid phys))
  | mapped {phys : Frame} {answers : List Frame} {mid : Machine} {table : Frame}
      (physNe : phys ≠ 0) (free : m.allocated phys = false)
      (grows : Grows low root (granted m phys answers) mid)
      (reaches : tableAt mid root (dirs vaddr) = some table)
      (pathUser : user (flags ||| pteUser) = true → PathUser mid root vaddr)
      (vacant : leafOf m root vaddr = none) :
      FreshEffect root vaddr flags m
        (.ok (phys, mid.write table (ptIdx vaddr) (pageEntry phys (flags ||| pteUser))))
  | panicked (taken : (leafOf m root vaddr).isSome = true) :
      FreshEffect root vaddr flags m (.error .overwritingMapping)

theorem mapFresh_effect (ok : TreeOk low root m) (inScope : low (pml4Idx va)) :
    FreshEffect root va flags m (mapFresh root va flags m) := by
  rcases pmmAlloc_cases m with ⟨answers, refused⟩ | ⟨phys, answers, physNe, free, allocates⟩
  · simp only [mapFresh, refused, ite_true]
    exact .refused answers
  have granting : pmmAlloc m = (phys, granted m phys answers) := allocates
  simp only [mapFresh, granting, if_neg physNe]
  have effect := @vmmMap_fresh root phys (granted m phys answers) va
    (flags ||| pteUser) (treeOk_granted ok) inScope
  change FreshMap root va (flags ||| pteUser) phys (granted m phys answers)
    (vmmMapUser root va (frameAddr phys) flags (granted m phys answers)) at effect
  generalize vmmMapUser root va (frameAddr phys) flags (granted m phys answers) =
    outcome at effect
  cases effect with
  | @failed mid grows =>
    have isAllocated := (grows.allocated phys).mpr (.inl (by simp [granted]))
    simp only [pmmFree_of_allocated physNe isAllocated]
    exact .failed physNe free grows
  | mapped grows reaches pathUser vacant =>
    exact .mapped physNe free grows reaches pathUser vacant
  | panicked taken => exact .panicked taken

/-- `elf_load_segment` allocates a frame for the page, and `vmm_map_specific` fails
to map it. -/
def mapSpecificFails (root : Frame) (vaddr flags : Word) (m : Machine) : Bool :=
  match vmmGetPhys root vaddr m with
  | .error _ => false
  | .ok raw =>
    if frameOf (raw &&& pteAddrMask) = 0 then
      let (phys, m) := pmmAlloc m
      if phys = 0 then false
      else
        match vmmMap root vaddr (frameAddr phys) flags m with
        | .error _ => false
        | .ok (mapped, _) => !mapped
    else false

/-- What the choice of a frame for a page of a segment may do, and whether the frame
is lost. -/
inductive SegmentEffect (root : Frame) (vaddr flags : Word) (m : Machine) :
    Bool → Except Panic (Frame × Machine) → Prop
  | present {leaf : Word} (found : leafOf m root vaddr = some leaf) :
      SegmentEffect root vaddr flags m false (.ok (frameOf leaf, m))
  | refused (answers : List Frame) :
      SegmentEffect root vaddr flags m false (.ok (0, { m with answers }))
  | lost {phys : Frame} {answers : List Frame} {mid : Machine} (physNe : phys ≠ 0)
      (free : m.allocated phys = false)
      (grows : Grows low root (granted m phys answers) mid)
      (vacant : leafOf m root vaddr = none) :
      SegmentEffect root vaddr flags m true (.ok (phys, mid))
  | mapped {phys : Frame} {answers : List Frame} {mid : Machine} {table : Frame}
      (physNe : phys ≠ 0) (free : m.allocated phys = false)
      (grows : Grows low root (granted m phys answers) mid)
      (reaches : tableAt mid root (dirs vaddr) = some table)
      (pathUser : user flags = true → PathUser mid root vaddr)
      (vacant : leafOf m root vaddr = none) :
      SegmentEffect root vaddr flags m false
        (.ok (phys, mid.write table (ptIdx vaddr) (pageEntry phys flags)))
  | panicked {reason : Panic} (other : reason ≠ .overwritingMapping) :
      SegmentEffect root vaddr flags m false (.error reason)

theorem segmentFrame_effect (ok : TreeOk low root m) (inScope : low (pml4Idx va))
    (nonzero : ∀ leaf, leafOf m root va = some leaf → frameOf leaf ≠ 0) :
    SegmentEffect root va flags m (mapSpecificFails root va flags m)
      (segmentFrame root va flags m) := by
  rw [segmentFrame, mapSpecificFails]
  cases found : vmmGetPhys root va m with
  | error reason => exact .panicked (vmmGetPhys_error found)
  | ok raw =>
    simp only [frame_of_getPhys ok inScope found]
    cases leafEq : leafOf m root va with
    | some leaf =>
      simp only [map_some, getD_some, if_neg (nonzero leaf leafEq)]
      exact .present leafEq
    | none =>
      rcases pmmAlloc_cases m with ⟨answers, refused⟩ |
        ⟨phys, answers, physNe, free, allocates⟩
      · simp only [refused, ite_true]
        exact .refused answers
      have effect := @vmmMap_fresh root phys (granted m phys answers) va flags
        (treeOk_granted ok) inScope
      have allocatesEq : pmmAlloc m = (phys, granted m phys answers) := allocates
      simp only [allocatesEq, if_neg physNe]
      generalize vmmMap root va (frameAddr phys) flags (granted m phys answers) =
        outcome at effect
      cases effect with
      | failed grows => exact .lost physNe free grows leafEq
      | mapped grows reaches pathUser vacant =>
        exact .mapped physNe free grows reaches pathUser vacant
      | panicked taken =>
        have vacant : leafOf (granted m phys answers) root va = none := leafEq
        rw [vacant] at taken
        cases taken

inductive ReleaseEffect (root : Frame) (vaddr : Word) (m : Machine) :
    Except Panic Machine → Prop
  | absent {after : Machine} (vacant : leafOf m root vaddr = none)
      (same : after = m ∨ ∃ table, tableAt m root (dirs vaddr) = some table ∧
        after = m.write table (ptIdx vaddr) 0) :
      ReleaseEffect root vaddr m (.ok after)
  | released {table : Frame} {leaf : Word} (found : leafOf m root vaddr = some leaf)
      (reaches : tableAt m root (dirs vaddr) = some table) :
      ReleaseEffect root vaddr m
        (.ok (reclaimed (m.write table (ptIdx vaddr) 0) (frameOf leaf)))
  | panicked {reason : Panic} (other : reason ≠ .overwritingMapping) :
      ReleaseEffect root vaddr m (.error reason)

theorem releasePage_effect (ok : TreeOk low root m) (inScope : low (pml4Idx va))
    (inUse : ∀ leaf, leafOf m root va = some leaf →
      frameOf leaf ≠ 0 ∧ m.allocated (frameOf leaf) = true) :
    ReleaseEffect root va m (releasePage root va m) := by
  rw [releasePage]
  split
  · next failed => exact .panicked (vmmGetPhys_error failed)
  next raw found =>
  have frameEq := frame_of_getPhys ok inScope found
  simp only [frameEq]
  cases leafEq : leafOf m root va with
  | none =>
    rcases vmmUnmap_effect ok va inScope with ⟨_, unmapped⟩ | ⟨table, reaches, unmapped⟩
    · rw [unmapped]
      exact .absent leafEq (.inl rfl)
    · rw [unmapped]
      exact .absent leafEq (.inr ⟨table, reaches, rfl⟩)
  | some leaf =>
    obtain ⟨frameNe, allocated⟩ := inUse leaf leafEq
    simp only [map_some, getD_some, if_neg frameNe]
    rcases vmmUnmap_effect ok va inScope with ⟨vacant, _⟩ | ⟨table, reaches, unmapped⟩
    · cases leafEq.symm.trans vacant
    have stillAllocated : (vmmUnmap root va m).2.allocated (frameOf leaf) = true := by
      rw [unmapped]
      exact allocated
    rw [pmmFree_of_allocated frameNe stillAllocated, unmapped]
    exact .released leafEq reaches

end LaOS.UserSpace
