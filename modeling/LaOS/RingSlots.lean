import Mathlib

/-!
# Slots of a ring

A ring of `size` slots holds a queue of `count` entries from slot `head` on.  The
slots taken, the next free slot and the head wrap around at the end.  A bounded
queue keeps its entries in such a ring.
-/

namespace LaOS

open List Function

namespace RingSlots

def slots (size head count : Nat) : List Nat :=
  (List.range count).map fun offset => (head + offset) % size

variable {size head count slot : Nat}

@[simp]
theorem length_slots : (slots size head count).length = count := by
  unfold slots
  rw [length_map, length_range]

theorem mem_slots : slot ∈ slots size head count ↔
    ∃ offset < count, (head + offset) % size = slot := by
  unfold slots
  rw [mem_map]
  simp only [mem_range]

theorem slots_succ : slots size head (count + 1) =
    slots size head count ++ [(head + count) % size] := by
  unfold slots
  rw [range_succ, map_append]
  rfl

theorem slots_cons (inside : head < size) : slots size head (count + 1) =
    head :: slots size ((head + 1) % size) count := by
  unfold slots
  rw [range_succ_eq_map, map_cons, map_map, Nat.add_zero, Nat.mod_eq_of_lt inside]
  refine congrArg _ (map_congr_left fun offset _ => ?_)
  simp only [comp_apply, Nat.mod_add_mod]
  rw [show head + offset.succ = head + 1 + offset by omega]

theorem offset_injective {first second : Nat} (firstInside : first < size)
    (secondInside : second < size) (same : (head + first) % size = (head + second) % size) :
    first = second := by
  have congruent := Nat.ModEq.add_left_cancel' head same
  exact congruent.eq_of_lt_of_lt firstInside secondInside

theorem next_not_mem_slots (notFull : count < size) :
    (head + count) % size ∉ slots size head count := by
  intro ran
  obtain ⟨offset, earlier, same⟩ := mem_slots.mp ran
  have := offset_injective (by omega) notFull same
  omega

theorem next_ne_head (inside : head < size) (some : 0 < count) (notFull : count < size) :
    (head + count) % size ≠ head := by
  intro same
  have back : (head + count) % size = (head + 0) % size := by
    rw [same, Nat.add_zero, Nat.mod_eq_of_lt inside]
  have := offset_injective notFull (by omega) back
  omega

theorem head_not_mem_slots (inside : head < size) (notFull : count < size) :
    head ∉ slots size ((head + 1) % size) count := by
  intro ran
  obtain ⟨offset, earlier, same⟩ := mem_slots.mp ran
  have back : (head + (1 + offset)) % size = (head + 0) % size := by
    rw [Nat.add_zero, Nat.mod_eq_of_lt inside, ← Nat.add_assoc, ← Nat.mod_add_mod, same]
  have := offset_injective (by omega) (by omega) back
  omega

end RingSlots

open RingSlots

/-- A bounded first-in first-out queue in an array. -/
structure RingQueue (size : Nat) (Entry : Type*) where
  entries : Nat → Entry
  head : Nat
  tail : Nat
  count : Nat
  head_lt : head < size
  count_le : count ≤ size
  tail_eq : tail = (head + count) % size

namespace RingQueue

variable {size : Nat} {Entry : Type*} (queue : RingQueue size Entry)

def contents : List Entry := (slots size queue.head queue.count).map queue.entries

def push (entry : Entry) : Option (RingQueue size Entry) :=
  if room : queue.count < size then
    some
      { entries := update queue.entries queue.tail entry
        head := queue.head
        tail := (queue.tail + 1) % size
        count := queue.count + 1
        head_lt := queue.head_lt
        count_le := room
        tail_eq := by rw [queue.tail_eq, Nat.mod_add_mod, Nat.add_assoc] }
  else none

def pop : Option (Entry × RingQueue size Entry) :=
  if stored : 0 < queue.count then
    some (queue.entries queue.head,
      { entries := queue.entries
        head := (queue.head + 1) % size
        tail := queue.tail
        count := queue.count - 1
        head_lt := Nat.mod_lt _ (by have := queue.head_lt; omega)
        count_le := by have := queue.count_le; omega
        tail_eq := by
          rw [queue.tail_eq, Nat.mod_add_mod]
          congr 1
          omega })
  else none

variable {queue} {after : RingQueue size Entry} {entry : Entry}

theorem contents_push (pushed : queue.push entry = some after) :
    after.contents = queue.contents ++ [entry] := by
  unfold push at pushed
  split at pushed <;> cases pushed
  next room =>
    unfold contents
    simp only
    rw [slots_succ, map_append, ← queue.tail_eq, map_singleton, update_self]
    refine congrArg (· ++ [entry]) (map_congr_left fun slot ran => ?_)
    refine update_of_ne ?_ _ _
    rintro rfl
    rw [queue.tail_eq] at ran
    exact next_not_mem_slots room ran

theorem contents_pop (popped : queue.pop = some (entry, after)) :
    queue.contents = entry :: after.contents := by
  unfold pop at popped
  split at popped <;> cases popped
  next stored =>
    unfold contents
    have ran : slots size queue.head queue.count =
        queue.head :: slots size ((queue.head + 1) % size) (queue.count - 1) := by
      rw [← slots_cons queue.head_lt, Nat.sub_add_cancel stored]
    rw [ran, map_cons]

end RingQueue

end LaOS
