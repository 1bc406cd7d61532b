import Mathlib

/-!
# Searching along next pointers

A search follows next pointers while they stay inside and stops at the first place it
wants.  It ends exactly if no place comes back before it stops.
-/

namespace LaOS

structure PointerWalk (Place : Type) where
  inside : Place → Bool
  wanted : Place → Bool
  next : Place → Place

namespace PointerWalk

variable {Place : Type} (walk : PointerWalk Place)

/-- The search with as many turns as the loop is given; it is `none` when it needs more. -/
def search : Nat → Place → Option (Option Place)
  | 0, _ => none
  | turns + 1, place =>
    if walk.inside place then
      if walk.wanted place then some (some place) else search turns (walk.next place)
    else some none

/-- The first places of the list are inside and not wanted. -/
def Passes (count : Nat) (start : Place) : Prop :=
  ∀ step < count, walk.inside (walk.next^[step] start) = true ∧
    walk.wanted (walk.next^[step] start) = false

/-- The first wanted place of the list, or that the list ends without one. -/
def IsFirst (start : Place) : Option Place → Prop
  | some place => ∃ count, place = walk.next^[count] start ∧ walk.Passes count start ∧
      walk.inside place = true ∧ walk.wanted place = true
  | none => ∃ count, walk.Passes count start ∧ walk.inside (walk.next^[count] start) = false

/-- No place of the list comes back before the search stops. -/
def NoReturn (start : Place) : Prop :=
  ∀ early late, early < late → walk.Passes late start →
    walk.next^[early] start ≠ walk.next^[late] start

variable {walk} {start : Place} {count turns : Nat}

theorem passes_succ : walk.Passes (count + 1) start ↔
    (walk.inside start = true ∧ walk.wanted start = false) ∧
      walk.Passes count (walk.next start) := by
  constructor
  · intro passes
    exact ⟨passes 0 (Nat.succ_pos _), fun step inCount => passes (step + 1) (by omega)⟩
  · rintro ⟨first, later⟩ (_ | step) inCount
    · exact first
    · exact later step (by omega)

theorem search_eq_none_iff : walk.search turns start = none ↔ walk.Passes turns start := by
  induction turns generalizing start with
  | zero => exact ⟨fun _ _ => nofun, fun _ => rfl⟩
  | succ turns ih =>
    rw [search, passes_succ, ← ih]
    cases walk.inside start <;> cases walk.wanted start <;> simp

theorem isFirst_of_search {found : Option Place}
    (returned : walk.search turns start = some found) : walk.IsFirst start found := by
  induction turns generalizing start with
  | zero => cases returned
  | succ turns ih =>
    rw [search] at returned
    split at returned
    next isInside =>
      split at returned
      next isWanted =>
        cases returned
        exact ⟨0, rfl, fun _ => nofun, isInside, isWanted⟩
      next notWanted =>
        have passed := And.intro isInside (Bool.eq_false_iff.mpr notWanted)
        cases found with
        | none =>
          obtain ⟨count, passes, ends⟩ := ih returned
          exact ⟨count + 1, passes_succ.mpr ⟨passed, passes⟩, ends⟩
        | some place =>
          obtain ⟨count, reached, passes, stops⟩ := ih returned
          exact ⟨count + 1, reached, passes_succ.mpr ⟨passed, passes⟩, stops⟩
    next outside =>
      cases returned
      exact ⟨0, fun _ => nofun, Bool.eq_false_iff.mpr outside⟩

theorem passes_of_return {early late : Nat} (less : early < late)
    (passes : walk.Passes late start) (same : walk.next^[early] start = walk.next^[late] start)
    (count : Nat) : walk.Passes count start := by
  intro step _
  induction step using Nat.strong_induction_on with
  | _ step ih =>
    by_cases short : step < late
    · exact passes step short
    -- The place was passed one round earlier.
    have round : walk.next^[step] start = walk.next^[step - late + early] start := by
      rw [Function.iterate_add_apply, same, ← Function.iterate_add_apply,
        Nat.sub_add_cancel (not_lt.mp short)]
    rw [round]
    exact ih (step - late + early) (by omega) (by omega)

theorem search_returns_iff [Finite Place] :
    (∃ turns found, walk.search turns start = some found) ↔ walk.NoReturn start := by
  constructor
  · rintro ⟨turns, found, returned⟩ early late less passes same
    rw [search_eq_none_iff.mpr (passes_of_return less passes same turns)] at returned
    cases returned
  · intro noReturn
    by_contra never
    have passes : ∀ count, walk.Passes count start := fun count =>
      search_eq_none_iff.mp (Option.eq_none_iff_forall_ne_some.mpr fun found returned =>
        never ⟨count, found, returned⟩)
    obtain ⟨first, second, ne, same⟩ :=
      Finite.exists_ne_map_eq_of_infinite fun count => walk.next^[count] start
    rcases Nat.lt_or_gt_of_ne ne with less | less
    · exact noReturn first second less (passes second) same
    · exact noReturn second first less (passes first) same.symm

end PointerWalk

end LaOS
