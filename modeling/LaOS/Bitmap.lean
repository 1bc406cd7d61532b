import Mathlib

/-!
# Byte-packed bitmaps

Bit `i` of a sequence of bytes is bit `i % 8` of byte `i / 8`, set and cleared with masks.
-/

namespace LaOS

open BitVec Function

abbrev Bitmap := Nat → BitVec 8

namespace Bitmap

def mask (i : Nat) : BitVec 8 :=
  1#8 <<< (i % 8)

def test (bitmap : Bitmap) (i : Nat) : Bool :=
  bitmap (i / 8) &&& mask i ≠ 0#8

def set (bitmap : Bitmap) (i : Nat) : Bitmap :=
  Function.update bitmap (i / 8) (bitmap (i / 8) ||| mask i)

def clear (bitmap : Bitmap) (i : Nat) : Bitmap :=
  Function.update bitmap (i / 8) (bitmap (i / 8) &&& ~~~mask i)

/-- The first `count` bytes are overwritten. -/
def fill (bitmap : Bitmap) (byte : BitVec 8) (count : Nat) : Bitmap :=
  fun offset => if offset < count then byte else bitmap offset

def setRange (bitmap : Bitmap) (start : Nat) : Nat → Bitmap
  | 0 => bitmap
  | count + 1 => (bitmap.setRange start count).set (start + count)

def clearRange (bitmap : Bitmap) (start : Nat) : Nat → Bitmap
  | 0 => bitmap
  | count + 1 => (bitmap.clearRange start count).clear (start + count)

variable (bitmap : Bitmap) {i other : Nat}

theorem getLsbD_mask (i bit : Nat) (bitLt : bit < 8) :
    (mask i).getLsbD bit = decide (bit = i % 8) := by
  have all : ∀ offset < 8, ∀ bit < 8, (1#8 <<< offset).getLsbD bit = decide (bit = offset) := by
    decide
  exact all (i % 8) (Nat.mod_lt _ (by decide)) bit bitLt

theorem test_eq_getLsbD (i : Nat) :
    bitmap.test i = (bitmap (i / 8)).getLsbD (i % 8) := by
  have offsetLt : i % 8 < 8 := Nat.mod_lt _ (by decide)
  cases inByte : (bitmap (i / 8)).getLsbD (i % 8) with
  | false =>
    have isZero : bitmap (i / 8) &&& mask i = 0#8 := by
      apply eq_of_getLsbD_eq
      intro bit bitLt
      rw [getLsbD_and, getLsbD_mask i bit bitLt]
      by_cases same : bit = i % 8
      · simp [same, inByte]
      · simp [same]
    simp [test, isZero]
  | true =>
    have nonzero : bitmap (i / 8) &&& mask i ≠ 0#8 := by
      intro isZero
      have bitZero := congrArg (getLsbD · (i % 8)) isZero
      simp only [getLsbD_and, inByte, getLsbD_mask i _ offsetLt] at bitZero
      simp at bitZero
    simp [test, nonzero]

theorem test_set (i other : Nat) :
    (bitmap.set i).test other = (decide (other = i) || bitmap.test other) := by
  have otherLt : other % 8 < 8 := Nat.mod_lt _ (by decide)
  simp only [test_eq_getLsbD, set]
  by_cases sameByte : other / 8 = i / 8
  · rw [sameByte, update_self, getLsbD_or, getLsbD_mask i _ otherLt, Bool.or_comm]
    congr 1
    exact decide_eq_decide.mpr (by omega)
  · have ne : other ≠ i := fun same => sameByte (by rw [same])
    rw [update_of_ne sameByte]
    simp [ne]

theorem test_clear (i other : Nat) :
    (bitmap.clear i).test other = (!decide (other = i) && bitmap.test other) := by
  have otherLt : other % 8 < 8 := Nat.mod_lt _ (by decide)
  simp only [test_eq_getLsbD, clear]
  by_cases sameByte : other / 8 = i / 8
  · rw [sameByte, update_self, getLsbD_and, getLsbD_not,
      getLsbD_mask i _ otherLt, Bool.and_comm]
    have sameBit : decide (other % 8 = i % 8) = decide (other = i) :=
      decide_eq_decide.mpr (by omega)
    simp [otherLt, sameBit]
  · have ne : other ≠ i := fun same => sameByte (by rw [same])
    rw [update_of_ne sameByte]
    simp [ne]

theorem test_fill {count : Nat} (indexLt : i < 8 * count) :
    (bitmap.fill 0xff#8 count).test i = true := by
  have byteLt : i / 8 < count := by omega
  have bitLt : i % 8 < 8 := Nat.mod_lt _ (by decide)
  rw [test_eq_getLsbD]
  simp only [fill, byteLt, if_true]
  have all : ∀ bit < 8, (0xff#8).getLsbD bit = true := by
    decide
  exact all _ bitLt

theorem test_setRange (start count other : Nat) : (bitmap.setRange start count).test other =
      (decide (start ≤ other ∧ other < start + count) || bitmap.test other) := by
  induction count with
  | zero =>
    have outside : ¬ (start ≤ other ∧ other < start + 0) := by omega
    rw [decide_eq_false outside]
    rfl
  | succ count ih =>
    rw [setRange, test_set, ih, ← Bool.or_assoc, ← Bool.decide_or]
    congr 1
    exact decide_eq_decide.mpr (by omega)

theorem test_clearRange (start count other : Nat) : (bitmap.clearRange start count).test other =
      (!decide (start ≤ other ∧ other < start + count) && bitmap.test other) := by
  induction count with
  | zero =>
    have outside : ¬ (start ≤ other ∧ other < start + 0) := by omega
    rw [decide_eq_false outside]
    rfl
  | succ count ih =>
    rw [clearRange, test_clear, ih, ← Bool.and_assoc, ← Bool.not_or, ← Bool.decide_or]
    congr 2
    exact decide_eq_decide.mpr (by omega)

theorem clearRange_succ (start count : Nat) :
    bitmap.clearRange start (count + 1) = (bitmap.clear start).clearRange (start + 1) count := by
  induction count with
  | zero => rfl
  | succ count ih =>
    rw [clearRange]
    congr 1
    omega

def clearIn (low high : Nat) : Finset Nat :=
  (Finset.Ico low high).filter fun i => bitmap.test i = false

variable {low high start count : Nat}

theorem mem_clearIn :
    i ∈ bitmap.clearIn low high ↔ (low ≤ i ∧ i < high) ∧ bitmap.test i = false := by
  simp [clearIn]

theorem card_clearIn_setRange
    (isClear : ∀ i, start ≤ i → i < start + count → i ∈ bitmap.clearIn low high) :
    ((bitmap.setRange start count).clearIn low high).card + count =
      (bitmap.clearIn low high).card := by
  have within : Finset.Ico start (start + count) ⊆ bitmap.clearIn low high := by
    intro i mem
    rw [Finset.mem_Ico] at mem
    exact isClear i mem.1 mem.2
  have remains : (bitmap.setRange start count).clearIn low high =
      bitmap.clearIn low high \ Finset.Ico start (start + count) := by
    ext i
    simp only [mem_clearIn, Finset.mem_sdiff, Finset.mem_Ico, test_setRange, Bool.or_eq_false_iff,
      decide_eq_false_iff_not]
    tauto
  have removed := Finset.card_sdiff_add_card_eq_card within
  rw [remains]
  rwa [Nat.card_Ico, Nat.add_sub_cancel_left] at removed

theorem card_clearIn_clearRange (above : low ≤ start) (below : start + count ≤ high)
    (isSet : ∀ i, start ≤ i → i < start + count → bitmap.test i = true) :
    ((bitmap.clearRange start count).clearIn low high).card =
      (bitmap.clearIn low high).card + count := by
  have fresh : Disjoint (bitmap.clearIn low high) (Finset.Ico start (start + count)) := by
    rw [Finset.disjoint_left]
    intro i isClear mem
    rw [Finset.mem_Ico] at mem
    rw [mem_clearIn, isSet i mem.1 mem.2] at isClear
    cases isClear.2
  have extended : (bitmap.clearRange start count).clearIn low high =
      bitmap.clearIn low high ∪ Finset.Ico start (start + count) := by
    ext i
    simp only [mem_clearIn, Finset.mem_union, Finset.mem_Ico, test_clearRange,
      Bool.and_eq_false_iff, Bool.not_eq_false', decide_eq_true_eq]
    constructor
    · rintro ⟨inside, inRange | isClear⟩
      · exact .inr inRange
      · exact .inl ⟨inside, isClear⟩
    · rintro (⟨inside, isClear⟩ | inRange)
      · exact ⟨inside, .inr isClear⟩
      · exact ⟨by omega, .inl inRange⟩
  rw [extended, Finset.card_union_of_disjoint fresh, Nat.card_Ico, Nat.add_sub_cancel_left]

end Bitmap

end LaOS
