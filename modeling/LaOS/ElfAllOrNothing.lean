import LaOS.UserDemand
import LaOS.UserDestroy

/-!
# When creating a process is all or nothing

A frame that `vmm_map_specific` fails to map is neither freed when `create_elf_process`
fails nor mapped when it succeeds.
-/

namespace LaOS.UserSpace

open Vmm RadixTree WordBytes BlockLedger

variable {root kernelPml4 : Frame} {m before after : Machine} {vaddr : Word}
  {image : List Byte} {argv : List (List Byte)} {heap heapAfter : Ledger} {copy t : Nat}
  {result : Option Frame} {ph : Phdr}

/-- Nothing but the frames that were lost stays allocated, and nothing but frames of
the call was written. -/
structure Undone (before : Machine) (lost : List Frame) (after : Machine) : Prop where
  allocated : ∀ frame, after.allocated frame = true ↔ Prior before lost frame
  written : ∃ drawn, before.answers = drawn ++ after.answers ∧
    ∀ frame, after.memory frame ≠ before.memory frame →
      frame ≠ 0 ∧ before.allocated frame = false ∧ frame ∈ drawn

theorem Building.threadDestroy {lost : List Frame} (building : Building before lost root m) :
    ∃ after, threadDestroy root m = .ok after ∧ Undone before lost after := by
  obtain ⟨after, destroyed, sameMemory, sameAnswers, allocated⟩ := building.owns.threadDestroy
  obtain ⟨drawn, drawsOnly, written⟩ := building.written
  refine ⟨after, destroyed, allocated, drawn, ?_, fun frame differs => written frame ?_⟩
  · rw [drawsOnly.answers, sameAnswers]
  · rwa [sameMemory] at differs

theorem Undone.allocated_eq_iff {lost : List Frame} (undone : Undone before lost after)
    (lostNew : ∀ frame ∈ lost, frame ≠ 0 ∧ before.allocated frame = false) :
    after.allocated = before.allocated ↔ lost = [] := by
  constructor
  · intro same
    refine List.eq_nil_iff_forall_not_mem.mpr fun frame isLost => ?_
    have stays := (undone.allocated frame).mpr (.inr isLost)
    rw [same, (lostNew frame isLost).2] at stays
    cases stays
  · rintro rfl
    funext frame
    rw [Bool.eq_iff_iff, undone.allocated, Prior]
    simp

theorem kfree_ok {block : Nat} (isLive : block ∈ heap.live) :
    ∃ after, kfree block heap = .ok after ∧ after.live = heap.live.erase block := by
  obtain ⟨after, freed, live⟩ := free_of_mem isLive
  exact ⟨after, by rw [kfree, freed], live⟩

theorem ok_of_orPanic {Result : Type} {call : Except Panic Result} {value : Result}
    (called : orPanic call = .ok value) : call = .ok value := by
  cases call with
  | error reason => cases called
  | ok other =>
    cases called
    rfl

theorem setupUserStackBlocks_ok {stack : Word}
    (called : setupUserStackBlocks root argv m heap = .ok (stack, after, heapAfter)) :
    heapAfter.live = heap.live ∧
      ∃ kmallocOk, setupUserStack root argv kmallocOk m = .ok (stack, after) := by
  simp only [setupUserStackBlocks, bind, Except.bind] at called
  split at called
  · cases called
  split at called
  · split at called <;> cases called
    next stacked => exact ⟨rfl, false, ok_of_orPanic stacked⟩
  have effect := alloc_effect heap
  generalize alloc heap = request at effect called
  cases effect with
  | refused live =>
    simp only at called
    split at called <;> cases called
    next stacked => exact ⟨live, false, ok_of_orPanic stacked⟩
  | @granted mid fresh live =>
    have isLive : heap.next ∈ mid.live := by
      rw [live]
      exact Finset.mem_insert_self _ _
    obtain ⟨last, freed, lastLive⟩ := kfree_ok isLive
    simp only [freed] at called
    split at called <;> cases called
    next stacked =>
      refine ⟨?_, true, ok_of_orPanic stacked⟩
      rw [lastLive, live, Finset.erase_insert fresh]

theorem discardBlocks_ok (copyLive : copy ∈ heap.live) (threadLive : t ∈ heap.live)
    (distinct : t ≠ copy)
    (called : discardBlocks root copy t m heap = .ok (result, after, heapAfter)) :
    result = none ∧ threadDestroy root m = .ok after ∧
      heapAfter.live = (heap.live.erase copy).erase t := by
  obtain ⟨mid, freed, live⟩ := kfree_ok copyLive
  have stillLive : t ∈ mid.live := by
    rw [live]
    exact Finset.mem_erase.mpr ⟨distinct, threadLive⟩
  obtain ⟨last, freedThread, lastLive⟩ := kfree_ok stillLive
  simp only [discardBlocks, freed, bind, Except.bind] at called
  split at called
  · cases called
  next destroyed =>
    simp only [freedThread] at called
    cases called
    exact ⟨rfl, ok_of_orPanic destroyed, by rw [lastLive, live]⟩

/-- The ways in which `create_elf_process` returns after it allocated the thread. -/
inductive BuildOutcome (kernelPml4 : Frame) (image : List Byte) (argv : List (List Byte))
    (m : Machine) : Option Frame → Machine → Prop
  | noRoot {after : Machine} (created : vmmCreateUserPml4 kernelPml4 m = (0, after)) :
      BuildOutcome kernelPml4 image argv m none after
  | gaveUp {root : Frame} {blank loaded last after : Machine} {success : Bool}
      (created : vmmCreateUserPml4 kernelPml4 m = (root, blank)) (rootNe : root ≠ 0)
      (segments : loadSegments root image (loads image) blank = .ok (success, loaded))
      (stacked : (success = false ∧ last = loaded) ∨ (success = true ∧ ∃ kmallocOk stack,
        setupUserStack root argv kmallocOk loaded = .ok (stack, last)))
      (destroyed : threadDestroy root last = .ok after) :
      BuildOutcome kernelPml4 image argv m none after
  | created {root : Frame} {blank loaded after : Machine} {kmallocOk : Bool} {stack : Word}
      (created : vmmCreateUserPml4 kernelPml4 m = (root, blank)) (rootNe : root ≠ 0)
      (segments : loadSegments root image (loads image) blank = .ok (true, loaded))
      (stacked : setupUserStack root argv kmallocOk loaded = .ok (stack, after))
      (stackNe : stack ≠ 0) :
      BuildOutcome kernelPml4 image argv m (some root) after

theorem buildProcess_outcome (copyLive : copy ∈ heap.live) (threadLive : t ∈ heap.live)
    (distinct : t ≠ copy)
    (called : buildProcess kernelPml4 image argv copy t m heap =
      .ok (result, after, heapAfter)) : BuildOutcome kernelPml4 image argv m result after ∧
      (result = none → heapAfter.live = (heap.live.erase copy).erase t) := by
  rcases created : vmmCreateUserPml4 kernelPml4 m with ⟨root, blank⟩
  simp only [buildProcess, created] at called
  split at called
  next isZero =>
    obtain ⟨rfl, destroyed, live⟩ := discardBlocks_ok copyLive threadLive distinct called
    subst isZero
    cases destroyed
    exact ⟨.noRoot created, fun _ => live⟩
  next rootNe =>
    simp only [bind, Except.bind] at called
    split at called
    · cases called
    next loading loadedEq =>
      obtain ⟨success, loaded⟩ := loading
      have segments := ok_of_orPanic loadedEq
      cases success with
      | false =>
        obtain ⟨rfl, destroyed, live⟩ := discardBlocks_ok copyLive threadLive distinct called
        exact ⟨.gaveUp created rootNe segments (.inl ⟨rfl, rfl⟩) destroyed, fun _ => live⟩
      | true =>
        simp only [Bool.not_true, Bool.false_eq_true, if_false] at called
        split at called
        · cases called
        next stacking stackedEq =>
          obtain ⟨stack, last, mid⟩ := stacking
          obtain ⟨sameLive, kmallocOk, stacked⟩ := setupUserStackBlocks_ok stackedEq
          split at called
          next =>
            obtain ⟨rfl, destroyed, live⟩ := discardBlocks_ok (sameLive ▸ copyLive)
              (sameLive ▸ threadLive) distinct called
            exact ⟨.gaveUp created rootNe segments (.inr ⟨rfl, _, _, stacked⟩) destroyed,
              fun _ => by rw [live, sameLive]⟩
          next stackNe =>
            have effect := alloc_effect mid
            generalize alloc mid = request at effect called
            cases effect with
            | granted fresh live =>
              cases called
              exact ⟨.created created rootNe segments stacked stackNe, nofun⟩
            | refused live =>
              have refusedLive := live.trans sameLive
              obtain ⟨rfl, destroyed, lastLive⟩ := discardBlocks_ok (refusedLive ▸ copyLive)
                (refusedLive ▸ threadLive) distinct called
              exact ⟨.gaveUp created rootNe segments (.inr ⟨rfl, _, _, stacked⟩) destroyed,
                fun _ => by rw [lastLive, refusedLive]⟩

theorem pageOf_eq_of_div {first second : Nat} (firstLt : first < 2 ^ 47) (secondLt : second < 2 ^ 47)
    (same : first / 4096 = second / 4096) :
    pageOf (BitVec.ofNat 64 first) = pageOf (BitVec.ofNat 64 second) := by
  apply BitVec.eq_of_toNat_eq
  simp only [pageOf, BitVec.extractLsb'_toNat, BitVec.toNat_ofNat, Nat.shiftRight_eq_div_pow]
  rw [Nat.mod_eq_of_lt (by omega : first < 2 ^ 64), Nat.mod_eq_of_lt (by omega : second < 2 ^ 64)]
  omega

theorem mapped_of_pages {size : Nat} {mapped : Word → Prop} (accepted : ph.accepted size = true)
    (perPage : ∀ first second, pageOf first = pageOf second → mapped first → mapped second)
    (all : ∀ vaddr ∈ ph.pageList, mapped vaddr) {addr : Nat} (above : ph.vaddr ≤ addr)
    (below : addr < ph.vaddr + ph.memsz) : mapped (BitVec.ofNat 64 addr) := by
  have bounds := (Phdr.bounds_of_accepted accepted).2
  simp only [userStackTop] at bounds
  refine perPage _ _ (pageOf_eq_of_div ?_ ?_ ?_) (all _ (List.mem_map.mpr
    ⟨(addr - ph.pageBase) / 4096, List.mem_range.mpr ?_, rfl⟩))
  · simp only [Phdr.pageVaddr, Phdr.pageBase]
    omega
  · omega
  · simp only [Phdr.pageVaddr, Phdr.pageBase]
    omega
  · simp only [Phdr.pages, Phdr.pageBase]
    omega

/-- Without a thread, frames and blocks are as before and only frames of the call have other
contents; with a thread, all pages of the segments are mapped. -/
def AllOrNothing (image : List Byte) (m : Machine) (heap : Ledger) (after : Machine)
    (heapAfter : Ledger) : Option Frame → Prop
  | none => after.allocated = m.allocated ∧ heapAfter.live = heap.live ∧
      ∃ drawn, m.answers = drawn ++ after.answers ∧
        ∀ frame, after.memory frame ≠ m.memory frame →
          frame ≠ 0 ∧ m.allocated frame = false ∧ frame ∈ drawn
  | some root => ∀ ph ∈ loads image, ∀ address, ph.vaddr ≤ address →
      address < ph.vaddr + ph.memsz →
        (Vmm.translate after.memory root (BitVec.ofNat 64 address)).isSome = true

/-- `create_elf_process` goes on to `vmm_create_user_pml4`. -/
def Begins (image : List Byte) (heap : Ledger) : Prop :=
  imageAccepted image = true ∧ (alloc heap).1.isSome = true ∧ (alloc (alloc heap).2).1.isSome = true

theorem allOrNothing_none_iff {lost : List Frame} (undone : Undone m lost after)
    (lostNew : ∀ frame ∈ lost, frame ≠ 0 ∧ m.allocated frame = false)
    (live : heapAfter.live = heap.live) :
    AllOrNothing image m heap after heapAfter none ↔ lost = [] := by
  rw [← undone.allocated_eq_iff lostNew]
  exact ⟨And.left, fun same => ⟨same, live, undone.written⟩⟩

theorem vmmCreateUserPml4_of_supply (enough : supply m ≠ 0) :
    (vmmCreateUserPml4 kernelPml4 m).1 ≠ 0 := by
  obtain ⟨left, leftEq⟩ := Nat.exists_eq_succ_of_ne_zero enough
  obtain ⟨new, answers, newNe, -, granting, -⟩ := pmmAlloc_of_supply leftEq
  rw [vmmCreateUserPml4, granting]
  exact newNe

section Loading

variable {blank loaded : Machine} {success : Bool}
  (accepted : ∀ ph ∈ loads image, ph.accepted image.length = true)
  (created : vmmCreateUserPml4 kernelPml4 m = (root, blank)) (rootNe : root ≠ 0)
  (segments : loadSegments root image (loads image) blank = .ok (success, loaded))
include accepted created rootNe segments

theorem loadsPages_created : LoadsPages root [] blank ((loads image).flatMap Phdr.pageList)
    (segmentAttempts root image (loads image) blank) success loaded := by
  obtain ⟨building, -⟩ := building_createUserPml4 created rootNe
  exact building.loadsSegments (lays_createUserPml4 created rootNe).1 accepted segments

theorem loadsCleanly_iff : LoadsCleanly image m ↔
    ∀ attempt ∈ segmentAttempts root image (loads image) blank, attempt.2 = true := by
  have served := loadsPages_created accepted created rootNe segments
  have supplied := (lays_createUserPml4 created rootNe).2
  rw [served.clean_iff, LoadsCleanly, supplied, Nat.add_sub_cancel]
  exact and_iff_right (Nat.succ_ne_zero _)

theorem leafOf_loaded (clean : LoadsCleanly image m) (done : success = true) {ph : Phdr}
    (isLoad : ph ∈ loads image) (isPage : vaddr ∈ ph.pageList) (inScope : low (pml4Idx vaddr)) :
    (leafOf loaded root vaddr).isSome = true := by
  have served := loadsPages_created accepted created rootNe segments
  have allMapped := (loadsCleanly_iff accepted created rootNe segments).mp clean
  subst done
  cases served with
  | lost _ isIn failed =>
    rw [allMapped _ isIn] at failed
    cases failed
  | done _ lays _ =>
    refine (lays.leaves vaddr inScope).mpr ⟨vaddr, ?_, rfl⟩
    simpa using ⟨ph, isLoad, isPage⟩

theorem allOrNothing_gaveUp {last : Machine}
    (stacked : (success = false ∧ last = loaded) ∨ (success = true ∧ ∃ kmallocOk stack,
      setupUserStack root argv kmallocOk loaded = .ok (stack, last)))
    (destroyed : threadDestroy root last = .ok after) (live : heapAfter.live = heap.live) :
    AllOrNothing image m heap after heapAfter none ↔ LoadsCleanly image m := by
  obtain ⟨building, -⟩ := building_createUserPml4 created rootNe
  obtain ⟨others, done⟩ := building.loadSegments accepted segments
  have lastBuilding : Building m others root last := by
    rcases stacked with ⟨-, rfl⟩ | ⟨-, kmallocOk, stack, stacked⟩
    · exact done.building
    · exact (done.building.setupUserStack stacked).1
  obtain ⟨final, destroyedEq, undone⟩ := lastBuilding.threadDestroy
  cases destroyed.symm.trans destroyedEq
  rw [allOrNothing_none_iff undone lastBuilding.lostNew live, done.nothingLost,
    loadsCleanly_iff accepted created rootNe segments]

end Loading

theorem BuildOutcome.allOrNothing (accepted : imageAccepted image = true)
    (clean : LoadsCleanly image m)
    (outcome : BuildOutcome kernelPml4 image argv m result after)
    (live : result = none → heapAfter.live = heap.live) :
    AllOrNothing image m heap after heapAfter result := by
  have segmentsAccepted := accepted_of_imageAccepted accepted
  cases outcome with
  | noRoot created =>
    exact absurd (congrArg Prod.fst created) (vmmCreateUserPml4_of_supply clean.1)
  | gaveUp created rootNe segments stacked destroyed =>
    exact (allOrNothing_gaveUp segmentsAccepted created rootNe segments stacked destroyed
      (live rfl)).mpr clean
  | @created root blank loaded _ kmallocOk stack created rootNe segments stacked stackNe =>
    intro ph isLoad addr above below
    have isAccepted := segmentsAccepted ph isLoad
    obtain ⟨building, -⟩ := building_createUserPml4 created rootNe
    obtain ⟨others, done⟩ := building.loadSegments segmentsAccepted segments
    obtain ⟨last, leaves⟩ := done.building.setupUserStack stacked
    have leaf : (leafOf after root (BitVec.ofNat 64 addr)).isSome = true := by
      refine @mapped_of_pages ph _ (fun vaddr => (leafOf after root vaddr).isSome = true) isAccepted
        (fun first second same isMapped => leafOf_eq_of_pageOf same ▸ isMapped)
        (fun vaddr isPage => ?_) addr above below
      obtain ⟨i, isIndex, rfl⟩ := List.mem_map.mp isPage
      have inScope := low_pageVaddr (Phdr.pageVaddr_bound isAccepted (List.mem_range.mp isIndex))
      exact (leaves stackNe _ inScope).mpr (.inl
        (leafOf_loaded segmentsAccepted created rootNe segments clean rfl isLoad isPage inScope))
    have inScope : low (pml4Idx (BitVec.ofNat 64 addr)) := by
      have bounds := (Phdr.bounds_of_accepted isAccepted).2
      simp only [userStackTop] at bounds
      refine low_of_lt ?_
      rw [BitVec.toNat_ofNat]
      omega
    rw [Vmm.translate_eq last.owns.tree last.owns.userOk inScope, Option.isSome_map]
    exact leaf

theorem BuildOutcome.loadsCleanly (accepted : imageAccepted image = true)
    (enough : supply m ≠ 0)
    (outcome : BuildOutcome kernelPml4 image [] m result after)
    (live : result = none → heapAfter.live = heap.live)
    (holds : AllOrNothing image m heap after heapAfter result) :
    LoadsCleanly image m := by
  cases outcome with
  | noRoot created =>
    exact absurd (congrArg Prod.fst created) (vmmCreateUserPml4_of_supply enough)
  | gaveUp created rootNe segments stacked destroyed =>
    exact (allOrNothing_gaveUp (accepted_of_imageAccepted accepted) created rootNe segments stacked
      destroyed (live rfl)).mp holds
  | created _ _ _ stacked stackNe =>
    cases stacked
    exact absurd rfl stackNe

/-- `create_elf_process` does nothing, or it goes on to build a process. -/
theorem createElfProcessBlocks_cases
    (called : createElfProcessBlocks kernelPml4 image argv m heap =
      .ok (result, after, heapAfter)) : (result = none → heapAfter.live = heap.live) ∧
      ((¬ Begins image heap ∧ result = none ∧ after = m) ∨
        (Begins image heap ∧ BuildOutcome kernelPml4 image argv m result after)) := by
  rw [createElfProcessBlocks] at called
  split at called
  next rejected =>
    cases called
    exact ⟨fun _ => rfl, .inl ⟨fun begins => by simp [begins.1] at rejected, rfl, rfl⟩⟩
  next isAccepted =>
    have accepted : imageAccepted image = true := by simpa using isAccepted
    have effect := alloc_effect heap
    rcases firstEq : alloc heap with ⟨request, first⟩
    rw [firstEq] at effect
    simp only [firstEq] at called
    cases effect with
    | refused live =>
      cases called
      exact ⟨fun _ => live, .inl ⟨fun begins => by simp [Begins, firstEq] at begins, rfl, rfl⟩⟩
    | granted fresh live =>
      have effect := alloc_effect first
      rcases secondEq : alloc first with ⟨request, second⟩
      rw [secondEq] at effect
      simp only [secondEq] at called
      have copyLive : heap.next ∈ first.live := by
        rw [live]
        exact Finset.mem_insert_self _ _
      cases effect with
      | refused secondLive =>
        obtain ⟨last, freed, lastLive⟩ := kfree_ok (secondLive.symm ▸ copyLive)
        simp only [freed, bind, Except.bind] at called
        cases called
        refine ⟨fun _ => ?_, .inl ⟨fun begins => by simp [Begins, firstEq, secondEq] at begins, rfl, rfl⟩⟩
        rw [lastLive, secondLive, live, Finset.erase_insert fresh]
      | granted secondFresh secondLive =>
        have distinct : first.next ≠ heap.next := by
          intro same
          exact secondFresh (same ▸ copyLive)
        have threadLive : first.next ∈ second.live := by
          rw [secondLive]
          exact Finset.mem_insert_self _ _
        have stillLive : heap.next ∈ second.live := by
          rw [secondLive]
          exact Finset.mem_insert_of_mem copyLive
        obtain ⟨outcome, freed⟩ := buildProcess_outcome stillLive threadLive distinct called
        refine ⟨fun isNone => ?_, .inr ⟨by simp [Begins, accepted, firstEq, secondEq], outcome⟩⟩
        rw [freed isNone, Finset.erase_right_comm, secondLive, Finset.erase_insert secondFresh,
          live, Finset.erase_insert fresh]

/-- The blocks only decide which calls of `kmalloc` succeed. -/
theorem createElfProcess_of_blocks
    (called : createElfProcessBlocks kernelPml4 image argv m heap =
      .ok (result, after, heapAfter)) :
    ∃ grants, createElfProcess kernelPml4 image argv grants m = .ok (result, after) := by
  obtain ⟨-, ⟨-, rfl, rfl⟩ | ⟨begins, outcome⟩⟩ := createElfProcessBlocks_cases called
  · exact ⟨⟨false, false, false, false⟩, by simp [createElfProcess]⟩
  have accepted := begins.1
  cases outcome with
  | noRoot created =>
    refine ⟨⟨true, true, true, true⟩, ?_⟩
    simp [createElfProcess, accepted, created, discard, threadDestroy]
  | gaveUp created rootNe segments stacked destroyed =>
    rcases stacked with ⟨rfl, rfl⟩ | ⟨rfl, kmallocOk, stack, stacked⟩
    · refine ⟨⟨true, true, true, true⟩, ?_⟩
      simp only [createElfProcess, accepted, created, if_neg rootNe, segments, discard, destroyed,
        Bool.not_true, Bool.false_eq_true, if_false]
    · refine ⟨⟨true, true, kmallocOk, false⟩, ?_⟩
      simp only [createElfProcess, accepted, created, if_neg rootNe, segments, stacked, discard,
        destroyed, Bool.not_true, Bool.not_false, Bool.false_eq_true, if_false, if_true, ite_self]
  | @created _ _ _ _ kmallocOk stack created rootNe segments stacked stackNe =>
    refine ⟨⟨true, true, kmallocOk, true⟩, ?_⟩
    simp only [createElfProcess, accepted, created, if_neg rootNe, segments, stacked,
      if_neg stackNe, Bool.not_true, Bool.false_eq_true, if_false]

theorem clears_frame_zero (begins : Begins image heap) (exhausted : supply m = 0) :
    ∃ after heapAfter, createElfProcessBlocks kernelPml4 image argv m heap =
      .ok (none, after, heapAfter) ∧ after.memory 0 0 = 0 := by
  obtain ⟨accepted, firstSome, secondSome⟩ := begins
  obtain ⟨answers, refused⟩ := pmmAlloc_of_exhausted exhausted
  rw [createElfProcessBlocks, if_neg (by simp [accepted])]
  have effect := alloc_effect heap
  rcases firstEq : alloc heap with ⟨request, first⟩
  rw [firstEq] at effect firstSome secondSome
  cases effect with
  | refused => cases firstSome
  | granted fresh live =>
    have effect := alloc_effect first
    rcases secondEq : alloc first with ⟨request, second⟩
    rw [secondEq] at effect secondSome
    cases effect with
    | refused => cases secondSome
    | granted secondFresh secondLive =>
      have copyLive : heap.next ∈ first.live := by
        rw [live]
        exact Finset.mem_insert_self _ _
      obtain ⟨third, freed, thirdLive⟩ := kfree_ok (secondLive.symm ▸ Finset.mem_insert_of_mem copyLive)
      have threadLive : first.next ∈ third.live := by
        rw [thirdLive, secondLive, Finset.mem_erase]
        exact ⟨fun same => secondFresh (same ▸ copyLive), Finset.mem_insert_self _ _⟩
      obtain ⟨last, freedThread, -⟩ := kfree_ok threadLive
      simp only [secondEq, buildProcess, vmmCreateUserPml4, refused, if_true, discardBlocks, freed,
        freedThread, threadDestroy, orPanic, bind, Except.bind]
      exact ⟨_, _, rfl, rfl⟩

/-- For given answers of the allocators, `create_elf_process` is all or nothing, whatever the
contents of memory and the arguments, exactly if it begins cleanly. A write shows for some
contents. -/
theorem all_or_nothing_iff
    (returns : (createElfProcessBlocks kernelPml4 image [] m heap).isOk = true) :
    (∀ memory argv result after heapAfter,
        createElfProcessBlocks kernelPml4 image argv { m with memory } heap =
          .ok (result, after, heapAfter) →
        AllOrNothing image { m with memory } heap after heapAfter result) ↔
      (Begins image heap → LoadsCleanly image m) := by
  constructor
  · intro holds begins
    have enough : supply m ≠ 0 := by
      intro exhausted
      obtain ⟨after, heapAfter, called, cleared⟩ := @clears_frame_zero kernelPml4
        { m with memory := Function.update m.memory 0 fun _ => 1 } image [] heap begins
        exhausted
      obtain ⟨-, -, drawn, -, written⟩ := holds _ _ _ _ _ called
      refine (written 0 fun same => ?_).1 rfl
      rw [same] at cleared
      simp at cleared
    obtain ⟨⟨result, after, heapAfter⟩, called⟩ : ∃ outcome,
        createElfProcessBlocks kernelPml4 image [] m heap = .ok outcome := by
      cases outcomeEq : createElfProcessBlocks kernelPml4 image [] m heap with
      | error reason =>
        rw [outcomeEq] at returns
        cases returns
      | ok outcome => exact ⟨outcome, rfl⟩
    obtain ⟨live, ⟨notBegun, -⟩ | ⟨-, outcome⟩⟩ := createElfProcessBlocks_cases called
    · exact absurd begins notBegun
    · exact outcome.loadsCleanly begins.1 enough live (holds m.memory [] _ _ _ called)
  · intro clean memory argv result after heapAfter called
    obtain ⟨live, ⟨-, rfl, rfl⟩ | ⟨begins, outcome⟩⟩ := createElfProcessBlocks_cases called
    · exact ⟨rfl, live rfl, [], rfl, fun frame differs => absurd rfl differs⟩
    · exact outcome.allOrNothing begins.1 (clean begins) live

def emptyHeap : Ledger := ⟨∅, 0, fun _ => true, 0, BlockLedger.fresh_empty⟩

/-- The creation of a small process when `pmm_alloc` gives the listed answers. -/
def creationWith (answers : List Frame) : Except Failure (Option Frame × Machine × Ledger) :=
  createElfProcessBlocks 1 smallImage [[0x61]] { bootMachine with answers } emptyHeap

theorem creationWith_eq {answers : List Frame}
    (returned : (creationWith answers).toOption.map Prod.fst = some result) :
    ∃ after heapAfter, creationWith answers = .ok (result, after, heapAfter) := by
  cases created : creationWith answers with
  | error reason =>
    rw [created] at returned
    cases returned
  | ok outcome =>
    obtain ⟨root, after, heapAfter⟩ := outcome
    rw [created] at returned
    cases returned
    exact ⟨after, heapAfter, rfl⟩

theorem all_or_nothing_smallImage :
    ∃ after heapAfter, creationWith [2, 3, 4, 5, 6, 7] = .ok (some 2, after, heapAfter) ∧
      AllOrNothing smallImage { bootMachine with answers := [2, 3, 4, 5, 6, 7] } emptyHeap after
        heapAfter (some 2) := by
  obtain ⟨after, heapAfter, created⟩ := @creationWith_eq (some 2) [2, 3, 4, 5, 6, 7]
    (by decide +kernel)
  refine ⟨after, heapAfter, created, ?_⟩
  exact (@all_or_nothing_iff 1 { bootMachine with answers := [2, 3, 4, 5, 6, 7] } smallImage
    emptyHeap (by decide +kernel)).mpr (fun _ => by decide +kernel) bootMachine.memory [[0x61]] _ _
    _ created

/-- With two frames, no thread is returned and frame 3 stays allocated. When only the next
allocation fails, a thread without the page is returned. -/
theorem leaks_frame_and_misses_page : (creationWith [2, 3]).toOption.map (fun outcome =>
        (outcome.1, outcome.2.1.allocated 3, bootMachine.allocated 3)) = some (none, true, false) ∧
    (creationWith [2, 3, 0, 4, 5, 6, 7]).toOption.map (fun outcome =>
        (outcome.1, Vmm.translate outcome.2.1.memory 2 0x7fffffffd000)) = some (some 2, none) := by
  decide +kernel

end LaOS.UserSpace
