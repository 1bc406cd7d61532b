import Mathlib

/-!
# Bucket queues

A queue with one list for each rank, a flag for each rank that says whether its
list is nonempty, and a counter for the whole, which are changed separately.
-/

namespace LaOS

open List Function

/-- One list and one flag for each rank, and a counter. -/
structure Buckets (Rank Item : Type*) where
  heads : Rank → List Item
  occupied : Rank → Bool
  count : Nat

namespace Buckets

variable {Rank Item : Type*}

def empty : Buckets Rank Item where
  heads := fun _ => []
  occupied := fun _ => false
  count := 0

def Linked (buckets : Buckets Rank Item) (item : Item) : Prop :=
  ∃ rank, item ∈ buckets.heads rank

instance [Fintype Rank] [DecidableEq Item] (buckets : Buckets Rank Item) (item : Item) :
    Decidable (buckets.Linked item) :=
  inferInstanceAs (Decidable (∃ rank, item ∈ buckets.heads rank))

def erase [DecidableEq Item] (buckets : Buckets Rank Item) (item : Item) : Buckets Rank Item :=
  { buckets with heads := fun rank => (buckets.heads rank).erase item }

variable {item other : Item}

theorem linked_of_erase [DecidableEq Item] {buckets : Buckets Rank Item}
    (linked : (buckets.erase item).Linked other) : buckets.Linked other := by
  obtain ⟨rank, mem⟩ := linked
  exact ⟨rank, mem_of_mem_erase mem⟩

theorem linked_erase_of_ne [DecidableEq Item] {buckets : Buckets Rank Item}
    (ne : other ≠ item) : (buckets.erase item).Linked other ↔ buckets.Linked other := by
  refine ⟨linked_of_erase, ?_⟩
  rintro ⟨rank, mem⟩
  exact ⟨rank, (mem_erase_of_ne ne).mpr mem⟩

theorem erase_of_not_linked [DecidableEq Item] {buckets : Buckets Rank Item}
    (absent : ¬ buckets.Linked item) : buckets.erase item = buckets := by
  have headsEq : (buckets.erase item).heads = buckets.heads := by
    funext rank
    exact erase_of_not_mem fun mem => absent ⟨rank, mem⟩
  exact congrArg (fun heads => { buckets with heads }) headsEq

def addCount (buckets : Buckets Rank Item) : Buckets Rank Item :=
  { buckets with count := buckets.count + 1 }

def subCount (buckets : Buckets Rank Item) : Buckets Rank Item :=
  { buckets with count := buckets.count - 1 }

variable {rank : Rank} {items : List Item}

section Ranks

variable [DecidableEq Rank]

section

variable (buckets : Buckets Rank Item)

def clearIfEmpty (rank : Rank) : Buckets Rank Item :=
  if buckets.heads rank = [] then
    { buckets with occupied := update buckets.occupied rank false }
  else
    buckets

@[simp] theorem heads_clearIfEmpty (buckets : Buckets Rank Item) (rank : Rank) :
    (buckets.clearIfEmpty rank).heads = buckets.heads := by
  unfold clearIfEmpty
  split
  · rfl
  · rfl

@[simp] theorem count_clearIfEmpty (buckets : Buckets Rank Item) (rank : Rank) :
    (buckets.clearIfEmpty rank).count = buckets.count := by
  unfold clearIfEmpty
  split
  · rfl
  · rfl

theorem linked_clearIfEmpty {buckets : Buckets Rank Item} :
    (buckets.clearIfEmpty rank).Linked item ↔ buckets.Linked item := by
  unfold Linked
  rw [heads_clearIfEmpty]

theorem occupied_clearIfEmpty_of_ne {other : Rank} (ne : other ≠ rank) :
    (buckets.clearIfEmpty rank).occupied other = buckets.occupied other := by
  unfold clearIfEmpty
  split
  · exact update_of_ne ne _ _
  · rfl

def pushFront (rank : Rank) (item : Item) : Buckets Rank Item :=
  { buckets with heads := update buckets.heads rank (item :: buckets.heads rank) }

def flag (rank : Rank) : Buckets Rank Item :=
  { buckets with occupied := update buckets.occupied rank true }

def addFront (rank : Rank) (item : Item) : Buckets Rank Item :=
  (buckets.pushFront rank item).flag rank

def addBack (rank : Rank) (item : Item) : Buckets Rank Item :=
  { buckets with
    heads := update buckets.heads rank (buckets.heads rank ++ [item])
    occupied := update buckets.occupied rank true }

end

theorem linked_iff_of_update {buckets after : Buckets Rank Item}
    (extended : items.Perm (item :: buckets.heads rank))
    (headsEq : after.heads = update buckets.heads rank items) :
    after.Linked other ↔ other = item ∨ buckets.Linked other := by
  unfold Linked
  rw [headsEq]
  constructor
  · rintro ⟨bucket, mem⟩
    by_cases same : bucket = rank
    · subst same
      rw [update_self, extended.mem_iff, mem_cons] at mem
      exact mem.imp_right fun before => ⟨bucket, before⟩
    · rw [update_of_ne same] at mem
      exact .inr ⟨bucket, mem⟩
  rintro (rfl | ⟨bucket, mem⟩)
  · refine ⟨rank, ?_⟩
    rw [update_self, extended.mem_iff]
    exact mem_cons_self
  refine ⟨bucket, ?_⟩
  by_cases same : bucket = rank
  · subst same
    rw [update_self, extended.mem_iff]
    exact mem_cons_of_mem item mem
  · rwa [update_of_ne same]

theorem linked_pushFront {buckets : Buckets Rank Item} :
    (buckets.pushFront rank item).Linked other ↔ other = item ∨ buckets.Linked other :=
  linked_iff_of_update (List.Perm.refl _) rfl

theorem linked_addFront {buckets : Buckets Rank Item} :
    (buckets.addFront rank item).Linked other ↔ other = item ∨ buckets.Linked other :=
  linked_pushFront

theorem linked_addBack {buckets : Buckets Rank Item} :
    (buckets.addBack rank item).Linked other ↔ other = item ∨ buckets.Linked other :=
  linked_iff_of_update (perm_append_singleton item _) rfl

variable [DecidableEq Item]

def remove (buckets : Buckets Rank Item) (rank : Rank) (item : Item) : Buckets Rank Item :=
  ((buckets.erase item).clearIfEmpty rank).subCount

/-- Take an item off its list and put it at the back of another, or of the same. -/
def move (buckets : Buckets Rank Item) (source target : Rank) (item : Item) : Buckets Rank Item :=
  ((buckets.erase item).clearIfEmpty source).addBack target item

theorem heads_move (buckets : Buckets Rank Item) (source target : Rank) (item : Item) :
    (buckets.move source target item).heads = update (buckets.erase item).heads target
        ((buckets.heads target).erase item ++ [item]) := by
  simp only [move, addBack, heads_clearIfEmpty]
  rfl

theorem linked_of_remove {buckets : Buckets Rank Item}
    (linked : (buckets.remove rank item).Linked other) : buckets.Linked other := by
  exact linked_of_erase (linked_clearIfEmpty.mp linked)

theorem linked_of_move {buckets : Buckets Rank Item} {source target : Rank}
    (linked : (buckets.move source target item).Linked other) :
    other = item ∨ buckets.Linked other := by
  rcases linked_addBack.mp linked with isItem | remains
  · exact .inl isItem
  · exact .inr (linked_of_erase (linked_clearIfEmpty.mp remains))

end Ranks

/-- Every item is on the list of its rank only, flags say which lists are nonempty, and the
counter is the number of items. -/
structure Proper [Fintype Rank] (rankOf : Item → Rank) (buckets : Buckets Rank Item) : Prop where
  nodup : ∀ rank, (buckets.heads rank).Nodup
  placed : ∀ rank item, item ∈ buckets.heads rank → rankOf item = rank
  flagged : ∀ rank, buckets.occupied rank = true ↔ buckets.heads rank ≠ []
  counted : buckets.count = ∑ rank, (buckets.heads rank).length

variable [Fintype Rank] {rankOf : Item → Rank} {buckets : Buckets Rank Item}

theorem proper_empty : Proper rankOf (empty : Buckets Rank Item) where
  nodup _ := nodup_nil
  placed := nofun
  flagged _ := by simp [empty]
  counted := by simp [empty]

namespace Proper

theorem count_pos (proper : Proper rankOf buckets) (linked : buckets.Linked item) :
    buckets.count ≠ 0 := by
  obtain ⟨rank, mem⟩ := linked
  intro isZero
  rw [proper.counted] at isZero
  have isEmpty := Finset.sum_eq_zero_iff.mp isZero rank (Finset.mem_univ rank)
  exact absurd (length_pos_of_mem mem) (by omega)

variable {rankOf' : Item → Rank}

theorem congr (proper : Proper rankOf buckets)
    (same : ∀ item, buckets.Linked item → rankOf' item = rankOf item) : Proper rankOf' buckets :=
  { proper with
    placed := fun rank item mem =>
      (same item ⟨rank, mem⟩).trans (proper.placed rank item mem) }

theorem not_linked_erase [DecidableEq Item] (proper : Proper rankOf buckets) (item : Item) :
    ¬ (buckets.erase item).Linked item := by
  rintro ⟨rank, mem⟩
  exact (proper.nodup rank).not_mem_erase mem

variable [DecidableEq Rank]

theorem total_update (heads : Rank → List Item) (rank : Rank) (items : List Item) :
    (∑ other, (update heads rank items other).length) + (heads rank).length =
      (∑ other, (heads other).length) + items.length := by
  have others : (∑ other ∈ Finset.univ.erase rank, (update heads rank items other).length) =
      ∑ other ∈ Finset.univ.erase rank, (heads other).length := by
    refine Finset.sum_congr rfl fun other mem => ?_
    rw [update_of_ne (Finset.ne_of_mem_erase mem)]
  rw [← Finset.add_sum_erase _ _ (Finset.mem_univ rank), others, update_self,
    ← Finset.add_sum_erase Finset.univ (fun other => (heads other).length) (Finset.mem_univ rank)]
  omega

theorem insert (proper : Proper rankOf buckets) (fresh : ¬ buckets.Linked item)
    (ranked : rankOf item = rank)
    (extended : items.Perm (item :: buckets.heads rank)) :
    Proper rankOf
      { heads := update buckets.heads rank items
        occupied := update buckets.occupied rank true
        count := buckets.count + 1 } := by
  have absent : item ∉ buckets.heads rank := fun mem => fresh ⟨rank, mem⟩
  refine ⟨?_, ?_, ?_, ?_⟩
  · intro other
    by_cases same : other = rank
    · subst same
      simp only [update_self]
      exact extended.nodup_iff.mpr (nodup_cons.mpr ⟨absent, proper.nodup other⟩)
    · simp only [update_of_ne same]
      exact proper.nodup other
  · intro other candidate mem
    by_cases same : other = rank
    · subst same
      simp only [update_self] at mem
      rcases mem_cons.mp (extended.mem_iff.mp mem) with rfl | before
      · exact ranked
      · exact proper.placed other candidate before
    · simp only [update_of_ne same] at mem
      exact proper.placed other candidate mem
  · intro other
    by_cases same : other = rank
    · subst same
      have nonempty : items ≠ [] := by
        rintro rfl
        exact absurd extended.length_eq (by simp)
      simp [nonempty]
    · simp only [update_of_ne same]
      exact proper.flagged other
  · have total := total_update buckets.heads rank items
    have length := extended.length_eq
    simp only [length_cons] at length
    have counted := proper.counted
    simp only
    omega

theorem addFront (proper : Proper rankOf buckets) (fresh : ¬ buckets.Linked item) :
    Proper rankOf (buckets.addFront (rankOf item) item).addCount :=
  proper.insert fresh rfl (List.Perm.refl _)

theorem addBack (proper : Proper rankOf buckets) (fresh : ¬ buckets.Linked item) :
    Proper rankOf (buckets.addBack (rankOf item) item).addCount :=
  proper.insert fresh rfl (perm_append_singleton item _)

variable [DecidableEq Item]

section

variable (proper : Proper rankOf buckets)

include proper

theorem erase_heads (item : Item) : (buckets.erase item).heads =
      update buckets.heads (rankOf item) ((buckets.heads (rankOf item)).erase item) := by
  funext rank
  by_cases same : rank = rankOf item
  · subst same
    rw [update_self]
    rfl
  · rw [update_of_ne same]
    refine erase_of_not_mem fun mem => ?_
    exact same (proper.placed rank item mem).symm

theorem remove (linked : buckets.Linked item) :
    Proper rankOf (buckets.remove (rankOf item) item) := by
  obtain ⟨rank, mem⟩ := linked
  have ranked := proper.placed rank item mem
  subst ranked
  have headsEq : (buckets.remove (rankOf item) item).heads =
      update buckets.heads (rankOf item) ((buckets.heads (rankOf item)).erase item) := by
    rw [← proper.erase_heads item]
    exact heads_clearIfEmpty _ _
  refine ⟨?_, ?_, ?_, ?_⟩
  · intro other
    rw [headsEq]
    by_cases same : other = rankOf item
    · subst same
      rw [update_self]
      exact (proper.nodup _).erase item
    · rw [update_of_ne same]
      exact proper.nodup other
  · intro other candidate remains
    rw [headsEq] at remains
    by_cases same : other = rankOf item
    · subst same
      rw [update_self] at remains
      exact proper.placed _ candidate (mem_of_mem_erase remains)
    · rw [update_of_ne same] at remains
      exact proper.placed other candidate remains
  · intro other
    by_cases same : other = rankOf item
    · subst same
      rw [headsEq, update_self]
      change ((buckets.erase item).clearIfEmpty (rankOf item)).occupied (rankOf item) = true ↔ _
      have flagged := (proper.flagged _).mpr (ne_nil_of_mem mem)
      unfold clearIfEmpty
      split
      next isEmpty =>
        have erased : (buckets.heads (rankOf item)).erase item = [] := isEmpty
        simp [erased]
      next nonempty =>
        exact ⟨fun _ => nonempty, fun _ => flagged⟩
    · rw [headsEq, update_of_ne same]
      change ((buckets.erase item).clearIfEmpty (rankOf item)).occupied other = true ↔ _
      rw [occupied_clearIfEmpty_of_ne _ same]
      exact proper.flagged other
  · rw [headsEq]
    have total := total_update buckets.heads (rankOf item)
      ((buckets.heads (rankOf item)).erase item)
    have length := length_erase_add_one mem
    have counted := proper.counted
    change ((buckets.erase item).clearIfEmpty (rankOf item)).count - 1 = _
    rw [count_clearIfEmpty]
    change buckets.count - 1 = _
    omega

theorem not_linked_remove (rank : Rank) (item : Item) :
    ¬ (buckets.remove rank item).Linked item := by
  intro linked
  exact proper.not_linked_erase item (linked_clearIfEmpty.mp linked)

theorem move (linked : buckets.Linked item)
    (others : ∀ other, other ≠ item → rankOf' other = rankOf other) :
    Proper rankOf' (buckets.move (rankOf item) (rankOf' item) item) := by
  have positive := proper.count_pos linked
  have moved : buckets.move (rankOf item) (rankOf' item) item =
      ((buckets.remove (rankOf item) item).addBack (rankOf' item) item).addCount := by
    have countEq : buckets.count = buckets.count - 1 + 1 := by omega
    have countKept := count_clearIfEmpty (buckets.erase item) (rankOf item)
    simp only [Buckets.move, Buckets.remove, Buckets.addBack, Buckets.addCount, Buckets.subCount,
      Buckets.mk.injEq, true_and]
    rw [countKept]
    exact countEq
  rw [moved]
  have fresh := proper.not_linked_remove (rankOf item) item
  refine Proper.addBack ((proper.remove linked).congr fun other stays => others other ?_) fresh
  rintro rfl
  exact fresh stays

end

end Proper

end Buckets

end LaOS
