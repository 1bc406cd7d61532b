import Mathlib

/-!
# Stable insertion by a scan

A list is kept in order of rank, and of arrival among equal ranks, by a scan for the
first element of greater rank that reads one rank at a time.
-/

namespace LaOS

open List

variable {Item Rank : Type*}

def insertBefore (items : List Item) (i : Nat) (item : Item) : List Item :=
  items.take i ++ item :: items.drop i

theorem insertBefore_perm (items : List Item) (i : Nat) (item : Item) :
    (insertBefore items i item).Perm (item :: items) := by
  have mid : (items.take i ++ item :: items.drop i).Perm
      (item :: (items.take i ++ items.drop i)) := perm_middle
  rwa [take_append_drop] at mid

variable {items : List Item} {i : Nat} {item : Item}

theorem mem_insertBefore {other : Item} :
    other ∈ insertBefore items i item ↔ other = item ∨ other ∈ items := by
  rw [(insertBefore_perm items i item).mem_iff, mem_cons]

theorem length_insertBefore (items : List Item) (i : Nat) (item : Item) :
    (insertBefore items i item).length = items.length + 1 := by
  rw [(insertBefore_perm items i item).length_eq, length_cons]

theorem nodup_insertBefore :
    (insertBefore items i item).Nodup ↔ item ∉ items ∧ items.Nodup := by
  rw [(insertBefore_perm items i item).nodup_iff, nodup_cons]

theorem pairwise_insertBefore {relation : Item → Item → Prop} (sorted : items.Pairwise relation)
    (earlier : ∀ other ∈ items.take i, relation other item)
    (later : ∀ other ∈ items.drop i, relation item other) :
    (insertBefore items i item).Pairwise relation := by
  have split := sorted
  rw [← take_append_drop i items, pairwise_append] at split
  obtain ⟨front, back, across⟩ := split
  refine pairwise_append.mpr ⟨front, pairwise_cons.mpr ⟨later, back⟩, ?_⟩
  intro first inFront second inBack
  rcases mem_cons.mp inBack with rfl | inRest
  · exact earlier first inFront
  · exact across first inFront second inRest

variable [LinearOrder Rank]

/-- `first` has the smaller rank, or the same rank and the earlier arrival. -/
def Precedes (rank : Item → Rank) (arrival : Item → Nat) (first second : Item) : Prop :=
  rank first < rank second ∨ rank first = rank second ∧ arrival first < arrival second

variable {rank : Item → Rank} {arrival : Item → Nat}

theorem Precedes.rank_le {first second : Item}
    (precedes : Precedes rank arrival first second) : rank first ≤ rank second := by
  rcases precedes with less | ⟨same, _⟩
  · exact le_of_lt less
  · exact le_of_eq same

/-- The scan for the place of `item` has passed the first `i` elements. -/
def Scanned (rank : Item → Rank) (items : List Item) (item : Item) (i : Nat) : Prop :=
  ∀ other ∈ items.take i, rank other ≤ rank item

theorem scanned_zero (rank : Item → Rank) (items : List Item) (item : Item) :
    Scanned rank items item 0 := by
  intro other mem
  simp at mem

theorem Scanned.succ {next : Item} (scanned : Scanned rank items item i)
    (nextEq : items[i]? = some next)
    (passes : ¬ rank item < rank next) : Scanned rank items item (i + 1) := by
  intro other mem
  rw [take_add_one, nextEq, mem_append] at mem
  rcases mem with before | isNext
  · exact scanned other before
  · rw [Option.mem_toList, Option.some.injEq] at isNext
    rw [← isNext]
    exact not_lt.mp passes

theorem Scanned.pairwise_insertBefore (scanned : Scanned rank items item i)
    (sorted : items.Pairwise (Precedes rank arrival))
    (stops : ∀ next, items[i]? = some next → rank item < rank next)
    (latest : ∀ other ∈ items, arrival other < arrival item) :
    (insertBefore items i item).Pairwise (Precedes rank arrival) := by
  refine LaOS.pairwise_insertBefore sorted ?_ ?_
  · intro other mem
    have arrived := latest other (mem_of_mem_take mem)
    rcases lt_or_eq_of_le (scanned other mem) with less | same
    · exact .inl less
    · exact .inr ⟨same, arrived⟩
  intro other mem
  left
  cases nextEq : items[i]? with
  | none =>
    rw [drop_eq_nil_of_le (getElem?_eq_none_iff.mp nextEq)] at mem
    cases mem
  | some next =>
    have less := stops next nextEq
    obtain ⟨inRange, getEq⟩ := List.getElem?_eq_some_iff.mp nextEq
    have tailSorted := sorted.sublist (drop_sublist i items)
    rw [drop_eq_getElem_cons inRange, getEq] at mem tailSorted
    rcases mem_cons.mp mem with rfl | inTail
    · exact less
    · exact lt_of_lt_of_le less ((pairwise_cons.mp tailSorted).1 other inTail).rank_le

end LaOS
