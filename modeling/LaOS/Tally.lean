import Mathlib

/-!
# Counting the entries of a finite table

Each key of a finite table holds at most one value.  The number of keys that hold a
given value changes by at most one when one entry is replaced.
-/

namespace LaOS

open Function

variable {Key Value : Type*} [Fintype Key] [DecidableEq Value]

def tally (entry : Key → Option Value) (value : Value) : Nat :=
  (Finset.univ.filter fun key => entry key = some value).card

variable {entry : Key → Option Value}

theorem tally_pos {key : Key} {value : Value}
    (holds : entry key = some value) : 0 < tally entry value :=
  Finset.card_pos.mpr ⟨key, by simp [holds]⟩

theorem tally_eq_zero {value : Value}
    (absent : ∀ key, entry key ≠ some value) : tally entry value = 0 := by
  simp [tally, absent]

theorem tally_update [DecidableEq Key] (entry : Key → Option Value) (key : Key)
    (new : Option Value) (value : Value) :
    tally (update entry key new) value + (if entry key = some value then 1 else 0) =
      tally entry value + (if new = some value then 1 else 0) := by
  have others : (∑ other ∈ Finset.univ.erase key,
      if update entry key new other = some value then 1 else 0) =
      ∑ other ∈ Finset.univ.erase key, if entry other = some value then 1 else 0 := by
    refine Finset.sum_congr rfl fun other mem => ?_
    rw [update_of_ne (Finset.ne_of_mem_erase mem)]
  simp only [tally, Finset.card_filter]
  rw [← Finset.add_sum_erase _ _ (Finset.mem_univ key), others, update_self,
    ← Finset.add_sum_erase Finset.univ (fun other => if entry other = some value then 1 else 0)
      (Finset.mem_univ key)]
  omega

end LaOS
