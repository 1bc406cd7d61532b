import LaOS.UserPanic

/-!
# What user mode may do in a region

The flags of a page are derived from the protection of its region.  A page can be read
whatever the protection is, and a lazy region may lie over pages of a segment.
-/

namespace LaOS.UserSpace

open Vmm WordBytes

variable {root : Frame} {m first : Machine} {space after : Space}
  {vma : Vma} {call : Call} {image : List Byte} {process : Process}

inductive Access
  | read
  | write
  | execute
  deriving DecidableEq

/-- The processor lets user mode access an address. -/
def userAllowed (memory : Frame → Index → Word) (root : Frame) (vaddr : Word)
    (access : Access) : Bool :=
  (translate memory root vaddr).any fun translation => translation.user &&
    match access with
    | .read => true
    | .write => translation.writable
    | .execute => !translation.noExecute

/-- The protection of a region contains the right for an access, or any right at
all for an access of any kind. -/
def Vma.permits (vma : Vma) : Access → Bool
  | .read => vma.prot &&& 7 ≠ 0
  | .write => vma.prot &&& 2 ≠ 0
  | .execute => vma.prot &&& 4 ≠ 0

/-- User mode has no more rights in a region than its protection contains. -/
def Honoured (root : Frame) (space : Space) : Prop :=
  ∀ vma ∈ space.vmas, ∀ vaddr, vma.start ≤ vaddr → vaddr < vma.stop → ∀ access,
    userAllowed space.machine.memory root vaddr access = true → vma.permits access = true

/-- A call of user mode that creates a region with some right, where no page of a segment is. -/
def Call.Guarded (image : List Byte) (space : Space) : Call → Prop
  | .mmap length prot _ _ => prot.setWidth 32 &&& 7 ≠ 0#32 ∧ Vacant image length space.vmas
  | call => call.FromUser

theorem Call.Guarded.fromUser (guarded : call.Guarded image space) : call.FromUser := by
  cases call with
  | demand va => exact guarded
  | _ => trivial

theorem mem_of_doMmap {length prot flags result : Word} {kmallocOk : Bool}
    (called : doMmap root length prot flags kmallocOk space = .ok (result, after))
    (mem : vma ∈ after.vmas) : vma ∈ space.vmas ∨ ∃ va, Placed length va space.vmas ∧
      vma = mmapRegion va (roundUp length) prot flags := by
  have effect := @doMmap_effect root length prot flags kmallocOk space
  rw [called] at effect
  cases effect with
  | refused => exact .inl mem
  | deferred placed | populated placed =>
    exact (FirstFit.mem_insertRegion.mp mem).symm.imp_right fun same => ⟨_, placed, same⟩
  | rolledBack placed =>
    exact (FirstFit.mem_insertRegion.mp (List.mem_of_mem_eraseP mem)).symm.imp_right
      fun same => ⟨_, placed, same⟩

theorem mem_of_doMunmap {addr length : Word} {result : Bool}
    (called : doMunmap root addr length space = .ok (result, after)) (mem : vma ∈ after.vmas) :
    vma ∈ space.vmas := by
  have effect := @doMunmap_effect root length space addr
  rw [called] at effect
  cases effect with
  | refused => exact mem
  | removed => exact List.mem_of_mem_eraseP mem

/-- A region has some right and lies apart from the pages of the process. -/
structure Sound (image : List Byte) (vma : Vma) : Prop where
  permits : vma.permits .read = true
  apart : ∀ page, Between vma.start.toNat vma.stop.toNat page → ¬ FixedPage image page

theorem sound_of_reachable (reached : (processRuns root first).ReachableWhere (fun process call =>
      call.Guarded image process.space) process) :
    Window process.space.vmas ∧ ∀ vma ∈ process.space.vmas, Sound image vma := by
  induction reached with
  | start initially =>
    cases initially
    exact ⟨window_nil, nofun⟩
  | @next s _ action _ guarded ran ih =>
    obtain ⟨window, sound⟩ := ih
    obtain ⟨_, performed⟩ := perform_of_step ran
    refine ⟨window.perform performed, fun vma mem => ?_⟩
    cases action with
    | mmap length prot flags kmallocOk =>
      obtain ⟨result, called⟩ := result_of_perform performed
      rcases mem_of_doMmap called mem with older | ⟨va, placed, rfl⟩
      · exact sound vma older
      refine ⟨decide_eq_true guarded.1, fun page between => ?_⟩
      rw [mmapRegion, placed.stop_eq window] at between
      exact placed.not_fixedPage window guarded.2 between
    | munmap addr length =>
      obtain ⟨result, called⟩ := result_of_perform performed
      exact sound vma (mem_of_doMunmap called mem)
    | demand va => exact guarded.elim
    | fault cr2 errorCode => exact sound vma (pageFaultHandler_vmas performed ▸ mem)

/-- In every run whose calls all are guarded, the protections are honoured. -/
theorem protection_honoured {kernelPml4 : Frame} {argv : List (List Byte)} {grants : Grants}
    (created : createElfProcess kernelPml4 image argv grants m = .ok (some root, first))
    (reached : (processRuns root first).ReachableWhere (fun process call =>
      call.Guarded image process.space) process) : Honoured root process.space := by
  obtain ⟨window, ⟨others, owns⟩, covered⟩ :=
    covered_of_reachable created (reached.mono fun _ _ => Call.Guarded.fromUser)
  intro vma mem va above below access allowed
  obtain ⟨isLow, between⟩ := window.inside mem above below
  have sound := (sound_of_reachable reached).2 vma mem
  rw [userAllowed, translate_eq owns.tree owns.userOk isLow] at allowed
  cases found : leafOf process.space.machine root va with
  | none =>
    rw [found] at allowed
    cases allowed
  | some leaf =>
    rw [found, Option.map_some, Option.any_some, Bool.and_eq_true] at allowed
    rcases covered va leaf isLow found with isFixed | ⟨other, otherMember, inOther, allows⟩
    · exact absurd isFixed (sound.apart _ between)
    have same : vma = other := by
      rcases window.ordered.eq_or_apart mem otherMember with same | apart
      · exact same
      · simp only [Between, vmaStart, vmaStop] at between inOther apart
        omega
    subst same
    cases access with
    | read => exact sound.permits
    | write =>
      refine decide_eq_true ((and_twoPow_ne 1 (by decide) _).mpr (allows.write.symm.trans ?_))
      simpa [leafOnly, leafTranslation] using allowed.2
    | execute =>
      refine decide_eq_true ((and_twoPow_ne 2 (by decide) _).mpr ?_)
      have isExecutable := allows.execute
      simp [leafOnly, leafTranslation] at allowed
      simpa [allowed.2] using isExecutable

theorem protection_honoured_eagerProcess :
    eagerProcess.space.vmas.length = 1 ∧ Honoured 2 eagerProcess.space := by
  have guarded : eagerCall.Guarded smallImage (createdProcess smallMachine).space := by
    refine ⟨by decide, ?_⟩
    decide +kernel
  exact ⟨by decide +kernel, protection_honoured smallCreation_eq (reachable_eagerProcess guarded)⟩

def hiddenProcess : Process :=
  ((processRuns 2 smallMachine).run (createdProcess smallMachine) [.mmap 0x1000 0 0 true]).getD
    (createdProcess smallMachine)

/-- A lazy region without the right to execute lies over a segment of code. -/
def coveredProcess : Process :=
  ((processRuns 2 windowMachine).run (createdProcess windowMachine)
    [.mmap 0x1000 1 mapLazy true]).getD (createdProcess windowMachine)

/-- The region without rights can be read, and the segment can be executed. -/
theorem protection_not_honoured : smallCreation = .ok (some 2, smallMachine) ∧
      (processRuns 2 smallMachine).Reachable hiddenProcess ∧ ¬ Honoured 2 hiddenProcess.space ∧
      (createElfProcess 1 windowImage [[0x61]] allGranted bootMachine).toOption.map Prod.fst =
        some (some 2) ∧ (processRuns 2 windowMachine).Reachable coveredProcess ∧
      ¬ Honoured 2 coveredProcess.space := by
  refine ⟨smallCreation_eq, TransitionSystem.Reachable.getD_run (.start rfl) _, fun honoured => ?_,
    by decide +kernel, TransitionSystem.Reachable.getD_run (.start rfl) _, fun honoured => ?_⟩
  · cases honoured ⟨0x04000000, 0x04001000, 0, 0x22⟩ (by decide +kernel) 0x04000000 (by decide)
      (by decide) .read (by decide +kernel)
  · cases honoured ⟨0x04000000, 0x04001000, 1, 0x122⟩ (by decide +kernel) 0x04000000 (by decide)
      (by decide) .execute (by decide +kernel)

end LaOS.UserSpace
