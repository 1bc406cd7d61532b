import Mathlib

/-!
# Records protected by a lock

Each record of a family has a lock that names its holder.  An assertion about a record
has two parts: `quiet` for the time when its lock is free, and `within` for each
position of the holder inside its critical section.
-/

namespace LaOS

open Function

variable {Thread Key Fields Pc : Type*}

section Positions

variable [DecidableEq Thread] {pos : Thread → Pc} {self t : Thread} {next here there : Pc}

theorem stood_of_update (stands : update pos self next t = here)
    (ne : next ≠ here) : t ≠ self ∧ pos t = here := by
  have isOther : t ≠ self := by
    rintro rfl
    exact ne ((update_self ..).symm.trans stands)
  exact ⟨isOther, (update_of_ne isOther ..).symm.trans stands⟩

theorem stands_of_update (stood : pos t = here) (selfAt : pos self = there)
    (ne : there ≠ here) : update pos self next t = here := by
  refine (update_of_ne ?_ ..).trans stood
  rintro rfl
  exact ne (selfAt.symm.trans stood)

end Positions

/-- A record satisfies `quiet` while its lock is free; a thread inside a section holds the lock
of its record, which satisfies `within`. -/
structure Guarded (lockHolder : Fields → Option Thread) (quiet : Key → Fields → Prop)
    (within : Key → Thread → Fields → Pc → Prop) (pos : Thread → Option (Key × Pc))
    (record : Key → Fields) : Prop where
  free : ∀ key, lockHolder (record key) = none → quiet key (record key)
  holds : ∀ t key pc, pos t = some (key, pc) → lockHolder (record key) = some t
  inside : ∀ t key pc, pos t = some (key, pc) → within key t (record key) pc

namespace Guarded

variable {lockHolder : Fields → Option Thread} {quiet : Key → Fields → Prop}
  {within : Key → Thread → Fields → Pc → Prop} {pos : Thread → Option (Key × Pc)}
  {record : Key → Fields} {self : Thread} {key : Key} {pc next : Pc} {fields : Fields}

section

variable (guarded : Guarded lockHolder quiet within pos record)

include guarded

theorem exclusive {other : Thread} {otherPc : Pc} (selfAt : pos self = some (key, pc))
    (otherAt : pos other = some (key, otherPc)) : other = self := by
  have selfHolds := guarded.holds self key pc selfAt
  rw [guarded.holds other key otherPc otherAt] at selfHolds
  exact Option.some.inj selfHolds

theorem outside_of_free (isFree : lockHolder (record key) = none) (t : Thread) (pc : Pc) :
    pos t ≠ some (key, pc) := by
  intro threadAt
  have held := guarded.holds t key pc threadAt
  rw [isFree] at held
  cases held

theorem transfer {record' : Key → Fields} {quiet' : Key → Fields → Prop}
    {within' : Key → Thread → Fields → Pc → Prop}
    (lockKept : ∀ key, lockHolder (record' key) = lockHolder (record key))
    (quietKept : ∀ key, quiet key (record key) → quiet' key (record' key))
    (withinKept : ∀ t key pc, pos t = some (key, pc) →
      within key t (record key) pc → within' key t (record' key) pc) :
    Guarded lockHolder quiet' within' pos record' where
  free key isFree := quietKept key (guarded.free key (lockKept key ▸ isFree))
  holds t key pc threadAt := (lockKept key).trans (guarded.holds t key pc threadAt)
  inside t key pc threadAt :=
    withinKept t key pc threadAt (guarded.inside t key pc threadAt)

theorem atomic [DecidableEq Key] (isFree : lockHolder (record key) = none) (ok : quiet key fields) :
    Guarded lockHolder quiet within pos (update record key fields) := by
  have elsewhere : ∀ t other pc, pos t = some (other, pc) → other ≠ key := by
    rintro t other pc threadAt rfl
    exact guarded.outside_of_free isFree t pc threadAt
  refine ⟨?_, ?_, ?_⟩
  · intro other otherFree
    by_cases same : other = key
    · subst same
      rw [update_self]
      exact ok
    · rw [update_of_ne same] at otherFree ⊢
      exact guarded.free other otherFree
  · intro t other pc threadAt
    rw [update_of_ne (elsewhere t other pc threadAt)]
    exact guarded.holds t other pc threadAt
  · intro t other pc threadAt
    rw [update_of_ne (elsewhere t other pc threadAt)]
    exact guarded.inside t other pc threadAt

end

variable [DecidableEq Thread]

theorem move_outside (guarded : Guarded lockHolder quiet within pos record)
    (selfAt : pos self = none) :
    Guarded lockHolder quiet within (update pos self none) record := by
  rw [← selfAt, update_eq_self]
  exact guarded

variable [DecidableEq Key]

section

variable (guarded : Guarded lockHolder quiet within pos record)

include guarded

/-- The record of `key` and the position of the only thread that may be inside
its section change together. -/
theorem settle (alone : ∀ t pc, pos t = some (key, pc) → t = self)
    {target : Option (Key × Pc)}
    (arrives : ∀ targetKey targetPc, target = some (targetKey, targetPc) →
      targetKey = key ∧ lockHolder fields = some self ∧ within key self fields targetPc)
    (leaves : lockHolder fields = none → quiet key fields) :
    Guarded lockHolder quiet within (update pos self target) (update record key fields) := by
  have others : ∀ t otherKey otherPc, t ≠ self →
      pos t = some (otherKey, otherPc) → otherKey ≠ key := by
    rintro t otherKey otherPc isOther threadAt rfl
    exact isOther (alone t otherPc threadAt)
  refine ⟨?_, ?_, ?_⟩
  · intro other isFree
    by_cases same : other = key
    · subst same
      rw [update_self] at isFree ⊢
      exact leaves isFree
    · rw [update_of_ne same] at isFree ⊢
      exact guarded.free other isFree
  · intro t otherKey otherPc threadAt
    by_cases isSelf : t = self
    · subst isSelf
      rw [update_self] at threadAt
      obtain ⟨rfl, ran, _⟩ := arrives _ _ threadAt
      rw [update_self, ran]
    · rw [update_of_ne isSelf] at threadAt
      rw [update_of_ne (others t otherKey otherPc isSelf threadAt)]
      exact guarded.holds t otherKey otherPc threadAt
  · intro t otherKey otherPc threadAt
    by_cases isSelf : t = self
    · subst isSelf
      rw [update_self] at threadAt
      obtain ⟨rfl, _, ok⟩ := arrives _ _ threadAt
      rw [update_self]
      exact ok
    · rw [update_of_ne isSelf] at threadAt
      rw [update_of_ne (others t otherKey otherPc isSelf threadAt)]
      exact guarded.inside t otherKey otherPc threadAt

theorem step (selfAt : pos self = some (key, pc)) (stillHeld : lockHolder fields = some self)
    (ok : within key self fields next) :
    Guarded lockHolder quiet within (update pos self (some (key, next)))
      (update record key fields) := by
  refine guarded.settle (fun t pc => guarded.exclusive selfAt) ?_ ?_
  · intro targetKey targetPc targetEq
    cases targetEq
    exact ⟨rfl, stillHeld, ok⟩
  · intro isFree
    rw [stillHeld] at isFree
    cases isFree

theorem step_same (selfAt : pos self = some (key, pc)) (ok : within key self
    (record key) next) : Guarded lockHolder quiet within (update pos self (some (key, next)))
      record := by
  have stepped := guarded.step selfAt (guarded.holds self key pc selfAt) ok
  rwa [update_eq_self] at stepped

theorem acquire (isFree : lockHolder (record key) = none) (ran : lockHolder fields = some self)
    (ok : within key self fields next) :
    Guarded lockHolder quiet within (update pos self (some (key, next)))
      (update record key fields) := by
  refine guarded.settle ?_ ?_ ?_
  · intro t pc threadAt
    exact absurd threadAt (guarded.outside_of_free isFree t pc)
  · intro targetKey targetPc targetEq
    cases targetEq
    exact ⟨rfl, ran, ok⟩
  · intro stillFree
    rw [ran] at stillFree
    cases stillFree

theorem release (selfAt : pos self = some (key, pc)) (ok : quiet key fields) :
    Guarded lockHolder quiet within (update pos self none) (update record key fields) := by
  refine guarded.settle (fun t pc => guarded.exclusive selfAt) ?_ (fun _ => ok)
  intro targetKey targetPc targetEq
  cases targetEq

theorem access (selfAt : pos self = none) (lockKept : lockHolder fields = lockHolder
    (record key)) (quietKept : quiet key (record key) → quiet key fields)
    (withinKept : ∀ t pc, within key t (record key) pc → within key t fields pc) :
    Guarded lockHolder quiet within (update pos self none) (update record key fields) := by
  refine Guarded.move_outside (guarded.transfer ?_ ?_ ?_) selfAt
  · intro other
    by_cases same : other = key
    · subst same
      rw [update_self, lockKept]
    · rw [update_of_ne same]
  · intro other ok
    by_cases same : other = key
    · subst same
      rw [update_self]
      exact quietKept ok
    · rw [update_of_ne same]
      exact ok
  · intro t other pc _ ok
    by_cases same : other = key
    · subst same
      rw [update_self]
      exact withinKept t pc ok
    · rw [update_of_ne same]
      exact ok

end

end Guarded

end LaOS
