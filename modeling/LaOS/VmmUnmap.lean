import LaOS.VmmLarge

/-!
# Unmapping in trees with large pages

`__vmm_unmap` follows three entries without asking whether one of them is a large
page, and clears the word that it arrives at.
-/

namespace LaOS.Vmm

open Option List RadixTree

variable {root frame : Frame} {i : Index} {m after : Machine} {va other : Word}

def indices (vaddr : Word) : List Index :=
  [pml4Idx vaddr, pdptIdx vaddr, pdIdx vaddr, ptIdx vaddr]

abbrev walkSlots (root : Frame) (m : Machine) (vaddr : Word) : List (Frame × Index) :=
  slots child m.memory root (indices vaddr)

theorem pml4_mem_walkSlots : (root, pml4Idx va) ∈ walkSlots root m va :=
  mem_slots.mpr ⟨[], ⟨_, rfl⟩, rfl⟩

theorem ReachesPdpt.mem_walkSlots (pdpt : ReachesPdpt root m va) :
    (frameOf (pml4Entry root m va), pdptIdx va) ∈ walkSlots root m va :=
  mem_slots.mpr ⟨[pml4Idx va], ⟨_, rfl⟩, pdpt.tableAt_eq⟩

theorem ReachesPd.mem_walkSlots (pd : ReachesPd root m va) :
    (frameOf (pdptEntry root m va), pdIdx va) ∈ walkSlots root m va :=
  mem_slots.mpr ⟨[pml4Idx va, pdptIdx va], ⟨_, rfl⟩, pd.tableAt_eq⟩

theorem ReachesPt.mem_walkSlots (pt : ReachesPt root m va) :
    (frameOf (pdEntry root m va), ptIdx va) ∈ walkSlots root m va :=
  mem_slots.mpr ⟨dirs va, ⟨[], rfl⟩, pt.tableAt_eq⟩

variable {slot : Frame × Index}

theorem tableAt_of_mem_walkSlots (read : slot ∈ walkSlots root m va) :
    ∃ path, anywhere path ∧ path ++ [slot.2] <+: indices va ∧
      tableAt m root path = some slot.1 := by
  obtain ⟨path, begins, reaches⟩ := mem_slots.mp read
  refine ⟨path, anywhere_of_length ?_, begins, reaches⟩
  have := begins.length_le
  simp only [length_append, indices, length_cons, length_nil] at this
  omega

theorem translate_congr (format : FormatOk root m va)
    (same : ∀ slot ∈ walkSlots root m va,
      after.memory slot.1 slot.2 = m.memory slot.1 slot.2) :
    translate after.memory root va = translate m.memory root va := by
  have pml4 := same _ pml4_mem_walkSlots
  have pdpt : ReachesPdpt root m va →
      after.memory (frameOf (pml4Entry root m va)) (pdptIdx va) =
        pdptEntry root m va := fun reaches => same _ reaches.mem_walkSlots
  have pd : ReachesPd root m va →
      after.memory (frameOf (pdptEntry root m va)) (pdIdx va) =
        pdEntry root m va := fun reaches => same _ reaches.mem_walkSlots
  cases format.shape with
  | noPdpt absent => simp [translate, pml4, absent]
  | noPd reaches absent => simp [translate, pml4, pdpt reaches, absent]
  | gigabyte large _ =>
    simp only [translate, pml4, pdpt large.toReachesPdpt, large.pdptPresent, large.leaf,
      Bool.not_true, Bool.false_eq_true, ite_false, ite_true]
  | noPt reaches absent =>
    simp [translate, pml4, pdpt reaches.toReachesPdpt, pd reaches, absent]
  | megabytes large _ =>
    simp only [translate, pml4, pdpt large.toReachesPdpt, pd large.toReachesPd,
      large.pdPresent, large.leaf, Bool.not_true, Bool.false_eq_true, ite_false, ite_true]
  | page reaches =>
    have pt := same _ reaches.mem_walkSlots
    simp only [translate, pml4, pdpt reaches.toReachesPdpt, pd reaches.toReachesPd, pt]

theorem walkSlots_cases (read : slot ∈ walkSlots root m va) :
    slot = (root, pml4Idx va) ∨ (ReachesPdpt root m va ∧
        slot = (frameOf (pml4Entry root m va), pdptIdx va)) ∨
      (ReachesPd root m va ∧
        slot = (frameOf (pdptEntry root m va), pdIdx va)) ∨
      (ReachesPt root m va ∧
        slot = (frameOf (pdEntry root m va), ptIdx va)) := by
  simp only [walkSlots, slots, indices, mem_cons] at read
  refine read.imp id fun deeper => ?_
  cases pml4 : child (pml4Entry root m va) with
  | none => simp [pml4] at deeper
  | some pdptTable =>
    obtain ⟨pml4Present, pml4Table, rfl⟩ := child_eq_some pml4
    have pdpt : ReachesPdpt root m va := ⟨pml4Present, pml4Table⟩
    simp only [pml4, map_some, getD_some, mem_cons] at deeper
    refine deeper.imp (fun same => ⟨pdpt, same⟩) fun deeper => ?_
    cases pdptChild : child (pdptEntry root m va) with
    | none => simp [pdptChild] at deeper
    | some pdTable =>
      obtain ⟨pdptPresent, pdptTable, rfl⟩ := child_eq_some pdptChild
      have pd : ReachesPd root m va := ⟨pdpt, pdptPresent, pdptTable⟩
      simp only [pdptChild, map_some, getD_some, mem_cons] at deeper
      refine deeper.imp (fun same => ⟨pd, same⟩) fun deeper => ?_
      cases pdChild : child (pdEntry root m va) with
      | none => simp [pdChild] at deeper
      | some ptTable =>
        obtain ⟨pdPresent, pdTable, rfl⟩ := child_eq_some pdChild
        refine ⟨⟨pd, pdPresent, pdTable⟩, ?_⟩
        simp only [pdChild, map_some, getD_some, mem_cons] at deeper
        refine deeper.elim id fun tooDeep => ?_
        cases last : child (ptEntry root m va) <;> simp [last] at tooDeep

theorem translate_clear (read : (frame, i) ∈ walkSlots root m va) :
    translate (m.write frame i 0).memory root va = none := by
  by_cases pml4Cleared : root = frame ∧ pml4Idx va = i
  · obtain ⟨rfl, rfl⟩ := pml4Cleared
    exact translate_noPdpt (by simp)
  have pml4 : pml4Entry root (m.write frame i 0) va = pml4Entry root m va :=
    write_memory_of_ne pml4Cleared
  have pdptReached : ReachesPdpt root m va := by
    rcases walkSlots_cases read with same | ⟨pdpt, _⟩ | ⟨pd, _⟩ | ⟨pt, _⟩
    · cases same
      exact absurd ⟨rfl, rfl⟩ pml4Cleared
    · exact pdpt
    · exact pd.toReachesPdpt
    · exact pt.toReachesPdpt
  have pdptAfter : ReachesPdpt root (m.write frame i 0) va :=
    ⟨pml4 ▸ pdptReached.pml4Present, pml4 ▸ pdptReached.pml4Table⟩
  by_cases pdptCleared : frameOf (pml4Entry root m va) = frame ∧ pdptIdx va = i
  · refine translate_noPd pdptAfter ?_
    rw [pdptEntry, pml4, pdptCleared.1, pdptCleared.2, write_memory_self]
    rfl
  have pdpt : pdptEntry root (m.write frame i 0) va = pdptEntry root m va := by
    rw [pdptEntry, pml4]
    exact write_memory_of_ne pdptCleared
  have pdReached : ReachesPd root m va := by
    rcases walkSlots_cases read with same | ⟨_, same⟩ | ⟨pd, _⟩ | ⟨pt, _⟩
    · cases same
      exact absurd ⟨rfl, rfl⟩ pml4Cleared
    · cases same
      exact absurd ⟨rfl, rfl⟩ pdptCleared
    · exact pd
    · exact pt.toReachesPd
  have pdAfter : ReachesPd root (m.write frame i 0) va :=
    ⟨pdptAfter, pdpt ▸ pdReached.pdptPresent, pdpt ▸ pdReached.pdptTable⟩
  by_cases pdCleared : frameOf (pdptEntry root m va) = frame ∧ pdIdx va = i
  · refine translate_noPt pdAfter ?_
    rw [pdEntry, pdpt, pdCleared.1, pdCleared.2, write_memory_self]
    rfl
  have pd : pdEntry root (m.write frame i 0) va = pdEntry root m va := by
    rw [pdEntry, pdpt]
    exact write_memory_of_ne pdCleared
  rcases walkSlots_cases read with same | ⟨_, same⟩ | ⟨_, same⟩ | ⟨pt, same⟩
  · cases same
    exact absurd ⟨rfl, rfl⟩ pml4Cleared
  · cases same
    exact absurd ⟨rfl, rfl⟩ pdptCleared
  · cases same
    exact absurd ⟨rfl, rfl⟩ pdCleared
  · rw [translate_page ⟨pdAfter, pd ▸ pt.pdPresent, pd ▸ pt.pdTable⟩, if_neg]
    rw [ptEntry, pd]
    cases same
    rw [write_memory_self]
    decide

/-- The word that `vmm_unmap` clears. -/
def unmapSlot (root : Frame) (m : Machine) (vaddr : Word) : Frame × Index :=
  (frameOf (pdEntry root m vaddr), ptIdx vaddr)

theorem vmmUnmap_eq_true (unmapped : vmmUnmap root va m = (true, after)) :
    present (pml4Entry root m va) = true ∧ present (pdptEntry root m va) = true ∧
      present (pdEntry root m va) = true ∧
      after = m.write (unmapSlot root m va).1 (unmapSlot root m va).2 0 := by
  simp only [vmmUnmap, pml4Idx_page, pdptIdx_page, pdIdx_page, ptIdx_page] at unmapped
  split at unmapped
  · cases unmapped
  next pml4Present =>
  split at unmapped
  · cases unmapped
  next pdptPresent =>
  split at unmapped <;> cases unmapped
  next pdPresent =>
    simp only [Bool.not_eq_true', Bool.not_eq_false] at pml4Present pdptPresent pdPresent
    exact ⟨pml4Present, pdptPresent, pdPresent, rfl⟩

/-- Unmapping a page: it loses its translation, pages outside the leaf keep theirs, and only
tables are written. -/
structure Unmapped (root : Frame) (m after : Machine) (vaddr : Word) : Prop where
  gone : translate after.memory root vaddr = none
  others : ∀ other, ¬ Covers root m vaddr other →
    translate after.memory root other = translate m.memory root other
  confined : ∀ frame, (∀ path, anywhere path → tableAt m root path ≠ some frame) →
    after.memory frame = m.memory frame

/-- The cleared word is read by the walk of the address, and by no walk that translates an
address outside its large page. -/
structure SlotOnPath (root : Frame) (m : Machine) (vaddr : Word) : Prop where
  read : unmapSlot root m vaddr ∈ walkSlots root m vaddr
  unused : ∀ other, ¬ Covers root m vaddr other →
    unmapSlot root m vaddr ∈ walkSlots root m other →
    translate m.memory root other = none

theorem translate_isSome_of_largePage (ok : WellFormed root m)
    (large : LargePage root m va) : translate m.memory root va ≠ none := by
  rcases large with gigabyte | megabytes
  · rw [translate_gigabyte gigabyte ((ok.format va).gigabyte gigabyte)]
    exact some_ne_none _
  · rw [translate_megabytes megabytes ((ok.format va).megabytes megabytes)]
    exact some_ne_none _

theorem ReachesPt.slotOnPath (ok : WellFormed root m) (pt : ReachesPt root m va) :
    SlotOnPath root m va := by
  refine ⟨pt.mem_walkSlots, fun other outside read => absurd (Covers.page ?_) outside⟩
  obtain ⟨path, isInside, begins, reaches⟩ := tableAt_of_mem_walkSlots read
  obtain rfl := ok.unshared path (dirs va) _ isInside (anywhere_of_length le_rfl) reaches
    pt.tableAt_eq
  have same := begins.eq_of_length rfl
  simp only [dirs, unmapSlot, indices, cons_append, nil_append, cons.injEq, and_true] at same
  obtain ⟨samePml4, samePdpt, samePd, samePt⟩ := same
  refine pageOf_eq_iff.mpr ⟨?_, samePt.symm⟩
  rw [dirs, dirs, samePml4, samePdpt, samePd]

/-- When `vmm_unmap` returns 0 it has unmapped just the page exactly when the page is a small
one, or the word it cleared lies on the page's own path. -/
theorem unmapped_iff_not_largePage (ok : WellFormed root m)
    (unmapped : vmmUnmap root va m = (true, after)) : Unmapped root m after va ↔
      (LargePage root m va → SlotOnPath root m va) := by
  obtain ⟨pml4Present, pdptPresent, pdPresent, rfl⟩ := vmmUnmap_eq_true unmapped
  have untouched : ∀ other, unmapSlot root m va ∉ walkSlots root m other →
      translate (m.write (unmapSlot root m va).1
        (unmapSlot root m va).2 0).memory root other =
        translate m.memory root other := by
    intro other unread
    refine translate_congr (ok.format other) fun slot read => write_memory_of_ne fun same => ?_
    exact unread (Prod.ext same.1 same.2 ▸ read)
  constructor
  · intro effect large
    refine ⟨by_contra fun unread => ?_, fun other outside read => ?_⟩
    · exact translate_isSome_of_largePage ok large
        ((untouched va unread).symm.trans effect.gone)
    · rw [← effect.others other outside]
      exact translate_clear read
  intro condition
  have onPath : SlotOnPath root m va := by
    cases (ok.format va).shape with
    | noPdpt absent => cases absent.symm.trans pml4Present
    | noPd _ absent => cases absent.symm.trans pdptPresent
    | gigabyte large _ => exact condition (.inl large)
    | noPt _ absent => cases absent.symm.trans pdPresent
    | megabytes large _ => exact condition (.inr large)
    | page pt => exact pt.slotOnPath ok
  refine ⟨translate_clear onPath.read, fun other outside => ?_, fun frame notTable => ?_⟩
  · by_cases read : unmapSlot root m va ∈ walkSlots root m other
    · exact (translate_clear read).trans (onPath.unused other outside read).symm
    · exact untouched other read
  obtain ⟨path, isInside, _, reaches⟩ := tableAt_of_mem_walkSlots onPath.read
  funext pos
  refine write_memory_of_ne fun same => notTable path isInside ?_
  rw [reaches, same.1]

/-- The page of two megabytes is not taken away: the word that is cleared is not on its path. -/
theorem unmapped_iff_not_largePage_largeEntry :
    (vmmUnmap 1 0x1000 (onePath largeEntry [])).1 = true ∧
      LargePage 1 (onePath largeEntry []) 0x1000 ∧
      ¬ SlotOnPath 1 (onePath largeEntry []) 0x1000 ∧
      ¬ Unmapped 1 (onePath largeEntry []) (vmmUnmap 1 0x1000 (onePath largeEntry [])).2 0x1000 := by
  have large : LargePage 1 (onePath largeEntry []) 0x1000 :=
    .inr ⟨⟨⟨rfl, rfl⟩, rfl, rfl⟩, rfl, rfl⟩
  have notOnPath : ¬ SlotOnPath 1 (onePath largeEntry []) 0x1000 :=
    fun onPath => absurd onPath.read (by decide)
  refine ⟨by decide, large, notOnPath, fun effect => notOnPath ?_⟩
  exact (unmapped_iff_not_largePage (wellFormed_largeEntry []) (Prod.ext (by decide) rfl)).mp
    effect large

/-- A page inside a large page is reported as unmapped, but it stays mapped, and
a word of the large page's contents is lost. -/
theorem vmmUnmap_clears_contents :
    WellFormed 1 (onePath largeEntry []) ∧ (vmmUnmap 1 0x1000 (onePath largeEntry [])).1 = true ∧
      ¬ Unmapped 1 (onePath largeEntry []) (vmmUnmap 1 0x1000 (onePath largeEntry [])).2 0x1000 ∧
      (translate (vmmUnmap 1 0x1000 (onePath largeEntry [])).2.memory 1 0x1000).isSome = true ∧
      (onePath largeEntry []).memory 0x40000 1 = BitVec.allOnes 64 ∧
      (vmmUnmap 1 0x1000 (onePath largeEntry [])).2.memory 0x40000 1 = 0 :=
  ⟨wellFormed_largeEntry [], by decide, fun effect => absurd effect.gone (by decide), by decide,
    by decide, by decide⟩

end LaOS.Vmm
