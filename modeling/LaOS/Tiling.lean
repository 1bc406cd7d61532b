import Mathlib

/-!
# Tilings of an interval by blocks

A list of blocks tiles an interval when the blocks follow one another without gaps.  A
segment of a tiling may be exchanged for another one with the same ends, which is how
an allocator splits and merges its blocks.
-/

namespace LaOS.Tiling

open List

variable {Block : Type*} (start size : Block → Nat)

/-- The blocks follow one another from `low` to `high`. -/
def Tiles (low : Nat) : List Block → Nat → Prop
  | [], high => low = high
  | block :: blocks, high => start block = low ∧ Tiles (low + size block) blocks high

variable {start size} {low high : Nat} {before after old new blocks : List Block} {block : Block}

theorem tiles_append : Tiles start size low (before ++ after) high ↔
      ∃ mid, Tiles start size low before mid ∧ Tiles start size mid after high := by
  induction before generalizing low with
  | nil =>
    constructor
    · exact fun tiles => ⟨low, rfl, tiles⟩
    · rintro ⟨mid, rfl, tiles⟩
      exact tiles
  | cons block before ih =>
    simp only [cons_append, Tiles, ih]
    constructor
    · rintro ⟨atLow, mid, left, right⟩
      exact ⟨mid, ⟨atLow, left⟩, right⟩
    · rintro ⟨mid, ⟨atLow, left⟩, right⟩
      exact ⟨atLow, mid, left, right⟩

theorem Tiles.last (tiles : Tiles start size low (before ++ [block]) high) :
    start block + size block = high := by
  obtain ⟨mid, _, rfl, rfl⟩ := tiles_append.mp tiles
  rfl

theorem Tiles.replace (tiles : Tiles start size low (before ++ (old ++ after)) high)
    (same : ∀ first last, Tiles start size first old last → Tiles start size first new last) :
    Tiles start size low (before ++ (new ++ after)) high := by
  obtain ⟨first, left, rest⟩ := tiles_append.mp tiles
  obtain ⟨last, segment, right⟩ := tiles_append.mp rest
  exact tiles_append.mpr ⟨first, left, tiles_append.mpr ⟨last, same first last segment, right⟩⟩

section

variable (tiles : Tiles start size low blocks high)

include tiles

theorem Tiles.mem_bounds (mem : block ∈ blocks) :
    low ≤ start block ∧ start block + size block ≤ high := by
  obtain ⟨before, after, rfl⟩ := append_of_mem mem
  have le : ∀ {first last : Nat} {segment : List Block},
      Tiles start size first segment last → first ≤ last := by
    intro first last segment
    induction segment generalizing first with
    | nil => exact fun same => same.le
    | cons head segment ih => exact fun tiles => (Nat.le_add_right _ _).trans (ih tiles.2)
  obtain ⟨mid, left, atMiddle, right⟩ := tiles_append.mp tiles
  have lower := le left
  have upper := le right
  omega

theorem Tiles.pairwise :
    blocks.Pairwise fun left right => start left + size left ≤ start right := by
  induction blocks generalizing low with
  | nil => exact .nil
  | cons block blocks ih =>
    obtain ⟨atLow, rest⟩ := tiles
    refine .cons (fun later mem => ?_) (ih rest)
    rw [atLow]
    exact (rest.mem_bounds mem).1

theorem Tiles.apart {left right : Block}
    (leftMem : left ∈ blocks) (rightMem : right ∈ blocks) (ne : left ≠ right) :
    start left + size left ≤ start right ∨ start right + size right ≤ start left :=
  List.Pairwise.forall_of_forall_of_flip (R := fun left right => left ≠ right →
      start left + size left ≤ start right ∨ start right + size right ≤ start left)
    (fun _ _ => absurd rfl) (tiles.pairwise.imp fun le _ => .inl le)
    (tiles.pairwise.imp fun le _ => .inr le) leftMem rightMem ne

theorem Tiles.eq_of_start_eq (positive : ∀ block ∈ blocks, 0 < size block) {left right : Block}
    (leftMem : left ∈ blocks) (rightMem : right ∈ blocks) (same : start left = start right) :
    left = right := by
  by_contra ne
  have leftPositive := positive left leftMem
  have rightPositive := positive right rightMem
  rcases tiles.apart leftMem rightMem ne with before | after
  all_goals omega

end

section Flags

variable {flagged : Block → Bool}

def Sparse (flagged : Block → Bool) (blocks : List Block) : Prop :=
  blocks.IsChain fun left right => ¬ (flagged left = true ∧ flagged right = true)

theorem sparse_middle : Sparse flagged (before ++ block :: after) ↔
      Sparse flagged before ∧ Sparse flagged after ∧ (flagged block = true →
          (∀ left ∈ before.getLast?, flagged left = false) ∧
            ∀ right ∈ after.head?, flagged right = false) := by
  simp only [Sparse, isChain_append, isChain_cons, head?_cons, Option.mem_def,
    Option.some.injEq, forall_eq', not_and, Bool.not_eq_true]
  grind

theorem Sparse.cons (sparse : Sparse flagged blocks) (unflagged : flagged block = false) :
    Sparse flagged (block :: blocks) :=
  isChain_cons.mpr ⟨fun _ _ both => by simp [unflagged] at both, sparse⟩

theorem Sparse.length_le (sparse : Sparse flagged blocks) :
    blocks.length ≤ 2 * (blocks.filter (!flagged ·)).length + 1 := by
  induction blocks using twoStepInduction with
  | nil => exact Nat.zero_le 1
  | singleton block => exact Nat.le_add_left 1 _
  | cons_cons block second blocks skipped ih =>
    obtain ⟨apart, rest⟩ := isChain_cons_cons.mp sparse
    have short := ih second rest
    have shorter := skipped rest.tail
    simp only [filter_cons, length_cons] at short ⊢
    grind

end Flags

end LaOS.Tiling
