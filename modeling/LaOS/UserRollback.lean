import LaOS.UserOwnership

/-!
# The frames of a process that is being created

While `create_elf_process` runs, the allocated frames are those from before the call,
those that the new tree reaches, and those that were lost.
-/

namespace LaOS.UserSpace

open Vmm RadixTree

variable {root frame phys table : Frame} {m before mid after : Machine}
  {vaddr flags : Word} {lost : List Frame}

theorem draws_segmentFrame (called : segmentFrame root vaddr flags m = .ok (phys, after)) :
    Draws m after := by
  rcases allocation : pmmAlloc m with ⟨chosen, granted⟩
  have draws := (allocations_of_pmmAlloc allocation).draws
  rw [segmentFrame] at called
  split at called
  · cases called
  simp only [allocation] at called
  split at called
  · split at called
    · cases called
      exact draws
    · split at called <;> cases called
      next mapped => exact draws.trans (allocations_of_vmmMapLocked mapped).draws
  · cases called
    exact .refl m

/-- The frames that the process does not hold: those from before the call, and
those that were lost. -/
def Prior (before : Machine) (lost : List Frame) (frame : Frame) : Prop :=
  before.allocated frame = true ∨ frame ∈ lost

/-- A process is being created by a call that began with the given machine. -/
structure Building (before : Machine) (lost : List Frame) (root : Frame) (m : Machine) :
    Prop where
  owns : Owns (Prior before lost) root m
  lostNew : ∀ frame ∈ lost, frame ≠ 0 ∧ before.allocated frame = false
  written : ∃ drawn, DrawsOnly before m drawn ∧
    ∀ frame, m.memory frame ≠ before.memory frame →
      frame ≠ 0 ∧ before.allocated frame = false ∧ frame ∈ drawn

theorem Owns.congr {others elsewhere : Frame → Prop} (owns : Owns others root m)
    (same : ∀ frame, others frame ↔ elsewhere frame) : Owns elsewhere root m := by
  have equal : others = elsewhere := funext fun frame => propext (same frame)
  exact equal ▸ owns

namespace Building

variable (building : Building before lost root m)

include building

theorem notPrior (free : m.allocated frame = false) : ¬ Prior before lost frame :=
  building.owns.not_other free

theorem next {others : List Frame} (draws : Draws m after)
    (owns : Owns (Prior before others) root after)
    (othersNew : ∀ frame ∈ others, frame ≠ 0 ∧ before.allocated frame = false)
    (changed : ∀ frame, after.memory frame ≠ m.memory frame →
      Held root after frame ∨ frame ∈ others) : Building before others root after := by
  obtain ⟨drawn, drawsOnly, written⟩ := building.written
  obtain ⟨later, laterOnly⟩ := draws
  refine ⟨owns, othersNew, drawn ++ later, drawsOnly.trans laterOnly, fun frame differs => ?_⟩
  by_cases same : after.memory frame = m.memory frame
  · rw [same] at differs
    obtain ⟨frameNe, wasFree, isDrawn⟩ := written frame differs
    exact ⟨frameNe, wasFree, List.mem_append_left _ isDrawn⟩
  have isNew : frame ≠ 0 ∧ before.allocated frame = false ∧ after.allocated frame = true := by
    rcases changed frame same with isHeld | isOther
    · refine ⟨?_, ?_, (owns.allocated frame).mpr (.inr isHeld)⟩
      · rintro rfl
        exact owns.nonzero isHeld
      · exact Bool.eq_false_iff.mpr fun wasAllocated => owns.apart frame isHeld (.inl wasAllocated)
    · obtain ⟨frameNe, wasFree⟩ := othersNew frame isOther
      exact ⟨frameNe, wasFree, (owns.allocated frame).mpr (.inl (.inr isOther))⟩
  obtain ⟨frameNe, wasFree, isAllocated⟩ := isNew
  refine ⟨frameNe, wasFree, ?_⟩
  rcases (drawsOnly.trans laterOnly).allocated frame isAllocated with wasAllocated | isDrawn
  · cases wasFree.symm.trans wasAllocated
  · exact isDrawn

theorem grows {answers : List Frame} (draws : Draws m after) (physNe : phys ≠ 0)
    (free : m.allocated phys = false)
    (grows : Grows low root (granted m phys answers) after) :
    Building before (phys :: lost) root after := by
  refine building.next draws ?_ ?_ ?_
  · refine (building.owns.granted_grows free grows).congr fun other => ?_
    simp only [Prior, List.mem_cons]
    tauto
  · intro other isIn
    rcases List.mem_cons.mp isIn with rfl | isLost
    · refine ⟨physNe, Bool.eq_false_iff.mpr fun wasAllocated => ?_⟩
      exact building.notPrior free (.inl wasAllocated)
    · exact building.lostNew other isLost
  · intro other differs
    refine .inl (.inl ?_)
    by_contra notTable
    refine differs (grows.outside other fun path isInside reaches => ?_)
    exact notTable ⟨path, isInside, reaches⟩

theorem overwritten (isOwn : Held root m frame ∨ frame ∈ lost)
    (notTable : ¬ TableFrame root m frame) (change : Overwritten frame m after) :
    Building before lost root after ∧ SameTree root m after := by
  obtain ⟨content, rfl⟩ := change
  have same := sameTree_fill notTable content
  refine ⟨building.next (.of_subset rfl fun _ => id) (building.owns.filled notTable content)
    building.lostNew fun other differs => ?_, same⟩
  have isFrame : other = frame := by
    by_contra otherNe
    exact differs (Function.update_of_ne otherNe _ _)
  rw [isFrame]
  refine isOwn.imp_left fun isHeld => ?_
  rw [Held, same.held_iff.1, same.held_iff.2]
  exact isHeld

end Building

end LaOS.UserSpace
