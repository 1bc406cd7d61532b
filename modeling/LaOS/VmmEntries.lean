import LaOS.VmmMachine

/-!
# Page table entries bit by bit

The words that `__vmm_map` writes, described by their bits: which frame they
point to and which rights they grant.
-/

namespace LaOS.Vmm

open BitVec

variable {entry flags paddr va : Word} {frame : Frame}

theorem getLsbD_pageMask (bit : Nat) : pageMask.getLsbD bit = decide (bit < 12) := by
  by_cases small : bit < 64
  · revert bit
    decide
  · rw [getLsbD_of_ge _ _ (by omega)]
    exact (decide_eq_false (by omega)).symm

theorem getLsbD_pteAddrMask (bit : Nat) :
    pteAddrMask.getLsbD bit = decide (12 ≤ bit ∧ bit < 52) := by
  by_cases small : bit < 64
  · revert bit
    decide
  · rw [getLsbD_of_ge _ _ (by omega)]
    exact (decide_eq_false (by omega)).symm

theorem getLsbD_frameAddr (bit : Nat) :
    (frameAddr frame).getLsbD bit = (decide (12 ≤ bit) && frame.getLsbD (bit - 12)) := by
  simp only [frameAddr, getLsbD_shiftLeft, getLsbD_setWidth]
  by_cases small : bit < 64
  · grind
  · have := frame.getLsbD_of_ge (bit - 12) (by omega)
    simp [this]

theorem getLsbD_page {bit : Nat} (high : 12 ≤ bit) :
    (va &&& ~~~pageMask).getLsbD bit = va.getLsbD bit := by
  simp only [getLsbD_and, getLsbD_not, getLsbD_pageMask]
  by_cases small : bit < 64
  · simp [small, Nat.not_lt.mpr high]
  · rw [getLsbD_of_ge va _ (by omega), Bool.false_and]

theorem extractLsb'_page (start length : Nat) (high : 12 ≤ start) :
    (va &&& ~~~pageMask).extractLsb' start length = va.extractLsb' start length := by
  refine eq_of_getLsbD_eq fun bit _ => ?_
  simp only [getLsbD_extractLsb', getLsbD_page (Nat.le_add_right_of_le high)]

@[simp]
theorem pml4Idx_page : pml4Idx (va &&& ~~~pageMask) = pml4Idx va :=
  extractLsb'_page _ _ (by decide)

@[simp]
theorem pdptIdx_page : pdptIdx (va &&& ~~~pageMask) = pdptIdx va :=
  extractLsb'_page _ _ (by decide)

@[simp]
theorem pdIdx_page : pdIdx (va &&& ~~~pageMask) = pdIdx va := extractLsb'_page _ _ (by decide)

@[simp]
theorem ptIdx_page : ptIdx (va &&& ~~~pageMask) = ptIdx va := extractLsb'_page _ _ (by decide)

@[simp]
theorem frameOf_page : frameOf (va &&& ~~~pageMask) = frameOf va :=
  extractLsb'_page _ _ (by decide)

theorem toNat_frameAddr (frame : Frame) : (frameAddr frame).toNat = frame.toNat * 2 ^ 12 := by
  simp only [frameAddr, toNat_shiftLeft, toNat_setWidth, Nat.shiftLeft_eq]
  omega

theorem toNat_frameOf (word : Word) : (frameOf word).toNat = word.toNat / 2 ^ 12 % 2 ^ 40 := by
  simp only [frameOf, extractLsb'_toNat, Nat.shiftRight_eq_div_pow]

theorem getLsbD_tableEntry (bit : Nat) : (tableEntry frame flags).getLsbD bit =
      ((decide (12 ≤ bit) && frame.getLsbD (bit - 12)) || decide (bit = 0) || decide (bit = 1) ||
        (user flags && decide (bit = 2))) := by
  simp only [tableEntry, ptePresent, pteWritable, pteUser, user, getLsbD_or,
    getLsbD_and, getLsbD_twoPow, getLsbD_frameAddr]
  grind

theorem getLsbD_widen (bit : Nat) : (widen entry flags).getLsbD bit =
      (entry.getLsbD bit || decide (bit = 1) || (user flags && decide (bit = 2))) := by
  simp only [widen, pteWritable, pteUser, user, getLsbD_or, getLsbD_and, getLsbD_twoPow]
  grind

@[simp]
theorem frameOf_tableEntry : frameOf (tableEntry frame flags) = frame := by
  refine eq_of_getLsbD_eq fun bit bitLt => ?_
  simp only [frameOf, getLsbD_extractLsb', getLsbD_tableEntry]
  grind

@[simp]
theorem frameOf_widen : frameOf (widen entry flags) = frameOf entry := by
  refine eq_of_getLsbD_eq fun bit bitLt => ?_
  simp only [frameOf, getLsbD_extractLsb', getLsbD_widen]
  grind

@[simp]
theorem present_tableEntry : present (tableEntry frame flags) = true := by
  simp only [present, getLsbD_tableEntry]
  simp

@[simp]
theorem huge_tableEntry : huge (tableEntry frame flags) = false := by
  simp only [huge, getLsbD_tableEntry]
  simp

@[simp]
theorem writable_tableEntry : writable (tableEntry frame flags) = true := by
  simp only [writable, getLsbD_tableEntry]
  simp

@[simp]
theorem noExecute_tableEntry : noExecute (tableEntry frame flags) = false := by
  simp only [noExecute, getLsbD_tableEntry]
  simp

@[simp]
theorem user_tableEntry : user (tableEntry frame flags) = user flags := by
  simp only [user, getLsbD_tableEntry]
  simp

@[simp]
theorem present_widen : present (widen entry flags) = present entry := by
  simp only [present, getLsbD_widen]
  simp

@[simp]
theorem huge_widen : huge (widen entry flags) = huge entry := by
  simp only [huge, getLsbD_widen]
  simp

@[simp]
theorem writable_widen : writable (widen entry flags) = true := by
  simp only [writable, getLsbD_widen]
  simp

@[simp]
theorem noExecute_widen : noExecute (widen entry flags) = noExecute entry := by
  simp only [noExecute, getLsbD_widen]
  simp

@[simp]
theorem user_widen : user (widen entry flags) = (user entry || user flags) := by
  simp only [user, getLsbD_widen]
  simp

end LaOS.Vmm
