import Mathlib

/-!
# First fit among ordered regions

Regions with a start and a stop are kept ordered between two bounds.  A scan finds the
first place at which a new region of a given length fits.
-/

namespace LaOS.FirstFit

open List

variable {Region : Type*} (start stop : Region → Nat)

/-- The regions lie between `low` and `high`, in order and apart, and none is
empty. -/
def Ordered (low high : Nat) : List Region → Prop
  | [] => low ≤ high
  | region :: regions =>
    low ≤ start region ∧ start region < stop region ∧ Ordered (stop region) high regions

/-- A region of the given length may be placed without meeting another one. -/
structure Fits (low high length : Nat) (regions : List Region) (place : Nat) : Prop where
  above : low ≤ place
  below : place + length ≤ high
  apart : ∀ region ∈ regions, place + length ≤ start region ∨ stop region ≤ place

/-- The first place for a region, from `low` on. -/
def firstFit (high length : Nat) : Nat → List Region → Option Nat
  | low, [] => if low + length ≤ high then some low else none
  | low, region :: regions =>
    if low + length ≤ start region then some low
    else firstFit high length (stop region) regions

/-- Insert a region before the first one that does not start earlier. -/
def insertRegion (new : Region) : List Region → List Region
  | [] => [new]
  | region :: regions =>
    if start region < start new then region :: insertRegion new regions
    else new :: region :: regions

variable {start stop} {low lower high length place : Nat} {region new : Region}
  {regions shorter : List Region}

section

variable (ordered : Ordered start stop low high regions)

include ordered

theorem Ordered.le : low ≤ high := by
  induction regions generalizing low with
  | nil => exact ordered
  | cons region regions ih =>
    have := ih ordered.2.2
    obtain ⟨above, nonempty, _⟩ := ordered
    omega

theorem Ordered.extend (le : lower ≤ low) : Ordered start stop lower high regions := by
  cases regions with
  | nil => exact le.trans ordered
  | cons region regions => exact ⟨le.trans ordered.1, ordered.2⟩

theorem Ordered.sublist (part : shorter.Sublist regions) : Ordered start stop low high shorter := by
  induction part generalizing low with
  | slnil => exact ordered
  | cons region _ ih =>
    exact (ih ordered.2.2).extend (ordered.1.trans ordered.2.1.le)
  | cons_cons region _ ih => exact ⟨ordered.1, ordered.2.1, ih ordered.2.2⟩

theorem Ordered.mem (member : region ∈ regions) :
    low ≤ start region ∧ start region < stop region ∧ stop region ≤ high := by
  induction regions generalizing low with
  | nil => cases member
  | cons first regions ih =>
    obtain ⟨above, nonempty, rest⟩ := ordered
    rcases mem_cons.mp member with rfl | later
    · exact ⟨above, nonempty, rest.le⟩
    · obtain ⟨laterAbove, bounds⟩ := ih rest later
      exact ⟨by omega, bounds⟩

theorem Ordered.pairwise : regions.Pairwise fun first second => stop first ≤ start second := by
  induction regions generalizing low with
  | nil => exact .nil
  | cons first regions ih =>
    exact .cons (fun second later => (ordered.2.2.mem later).1) (ih ordered.2.2)

theorem Ordered.eq_or_apart {other : Region} (member : region ∈ regions)
    (otherMember : other ∈ regions) :
    region = other ∨ stop region ≤ start other ∨ stop other ≤ start region :=
  List.Pairwise.forall_of_forall_of_flip
    (R := fun left right => left = right ∨ stop left ≤ start right ∨ stop right ≤ start left)
    (fun _ _ => .inl rfl) (ordered.pairwise.imp fun le => .inr (.inl le))
    (ordered.pairwise.imp fun le => .inr (.inr le)) member otherMember

theorem firstFit_eq_some (found : firstFit start stop high length low regions = some place) :
    IsLeast {place | Fits start stop low high length regions place} place := by
  induction regions generalizing low with
  | nil =>
    obtain ⟨fits, ⟨⟩⟩ := Option.ite_none_right_eq_some.mp found
    exact ⟨⟨le_rfl, fits, nofun⟩, fun other otherFits => otherFits.above⟩
  | cons region regions ih =>
    obtain ⟨above, nonempty, rest⟩ := ordered
    simp only [firstFit] at found
    split at found
    · next fits =>
      cases found
      have regionLe := rest.le
      refine ⟨⟨le_rfl, by omega, fun other member => .inl ?_⟩, fun other otherFits =>
        otherFits.above⟩
      rcases mem_cons.mp member with rfl | later
      · exact fits
      · have := (rest.mem later).1
        omega
    next tooLong =>
    obtain ⟨fits, least⟩ := ih rest found
    have placeAbove := fits.above
    refine ⟨⟨by omega, fits.below, fun other member => ?_⟩, fun other otherFits => ?_⟩
    · rcases mem_cons.mp member with rfl | later
      · exact .inr placeAbove
      · exact fits.apart other later
    have otherAbove := otherFits.above
    refine least ⟨?_, otherFits.below, fun region later =>
      otherFits.apart region (mem_cons_of_mem _ later)⟩
    rcases otherFits.apart region mem_cons_self with before | after
    · omega
    · exact after

theorem firstFit_eq_none (none : firstFit start stop high length low regions = none) (place : Nat) :
    ¬ Fits start stop low high length regions place := by
  induction regions generalizing low with
  | nil =>
    simp only [firstFit] at none
    split at none
    · cases none
    · next tooLong =>
      rintro ⟨above, below, _⟩
      omega
  | cons region regions ih =>
    obtain ⟨above, nonempty, rest⟩ := ordered
    simp only [firstFit] at none
    split at none
    · cases none
    next tooLong =>
    rintro ⟨placeAbove, below, apart⟩
    refine ih rest none ⟨?_, below, fun other later => apart other (mem_cons_of_mem _ later)⟩
    rcases apart region mem_cons_self with before | after
    · omega
    · exact after

theorem Ordered.insertRegion (nonempty : start new < stop new)
    (fits : Fits start stop low high (stop new - start new) regions (start new)) :
    Ordered start stop low high (FirstFit.insertRegion start new regions) := by
  induction regions generalizing low with
  | nil =>
    have below := fits.below
    exact ⟨fits.above, nonempty, show stop new ≤ high by omega⟩
  | cons region regions ih =>
    obtain ⟨above, regionNonempty, rest⟩ := ordered
    have apart := fits.apart region mem_cons_self
    simp only [FirstFit.insertRegion]
    split
    · next earlier =>
      refine ⟨above, regionNonempty, ih rest ⟨?_, fits.below, fun other later =>
        fits.apart other (mem_cons_of_mem _ later)⟩⟩
      omega
    · next later =>
      refine ⟨fits.above, nonempty, ?_, regionNonempty, rest⟩
      omega

end

theorem mem_insertRegion :
    region ∈ FirstFit.insertRegion start new regions ↔ region = new ∨ region ∈ regions := by
  induction regions with
  | nil => simp [FirstFit.insertRegion]
  | cons first regions ih =>
    simp only [FirstFit.insertRegion]
    split
    · simp only [mem_cons, ih]
      exact or_left_comm
    · simp only [mem_cons]

theorem eraseP_insertRegion {picks : Region → Bool} (isNew : picks new = true)
    (others : ∀ region ∈ regions, ¬ picks region = true) :
    (FirstFit.insertRegion start new regions).eraseP picks = regions := by
  induction regions with
  | nil => simp [FirstFit.insertRegion, isNew]
  | cons first regions ih =>
    have rest := ih fun region member => others region (mem_cons_of_mem _ member)
    simp only [FirstFit.insertRegion]
    split
    · rw [eraseP_cons_of_neg (others first mem_cons_self), rest]
    · rw [eraseP_cons_of_pos isNew]

theorem find?_insertRegion {picks : Region → Bool} (isNew : picks new = true)
    (others : ∀ region ∈ regions, ¬ picks region = true) :
    (FirstFit.insertRegion start new regions).find? picks = some new := by
  induction regions with
  | nil => simp [FirstFit.insertRegion, isNew]
  | cons first regions ih =>
    have rest := ih fun region member => others region (mem_cons_of_mem _ member)
    simp only [FirstFit.insertRegion]
    split
    · rw [find?_cons_of_neg (others first mem_cons_self), rest]
    · rw [find?_cons_of_pos isNew]

end LaOS.FirstFit
