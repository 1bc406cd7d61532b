import LaOS.UserSpace

/-!
# Where `do_mmap` places a region

`do_mmap` returns the first place at which the region fits.  The comparisons of
`vma_find_free` may wrap around; what they give then is refused by a later check.
-/

namespace LaOS.UserSpace

open List Vmm FirstFit

variable {root : Frame} {vmas : List Vma} {length cursor : Word}

def pageLength (length : Word) : Nat := (length.toNat + 4095) / 4096 * 4096

theorem toNat_roundUp (inRange : length.toNat + 4095 < 2 ^ 64) :
    (roundUp length).toNat = pageLength length := by
  have maskEq : (4095 : Word).toNat = 4095 := rfl
  rw [roundUp, toNat_and_not_low 12 4095 (by decide), BitVec.toNat_add, pageLength]
  omega

theorem roundUp_of_aligned (aligned : length.toNat % 4096 = 0) : roundUp length = length := by
  have inRange : length.toNat + 4095 < 2 ^ 64 := by omega
  refine BitVec.eq_of_toNat_eq ?_
  rw [toNat_roundUp inRange, pageLength]
  omega

theorem roundUp_aligned (length : Word) : (roundUp length).toNat % 4096 = 0 := by
  rw [roundUp, toNat_and_not_low 12 4095 (by decide)]
  omega

theorem gt_maxWord_sub_iff {word bound : Word} :
    word > maxWord - bound ↔ 2 ^ 64 ≤ word.toNat + bound.toNat := by
  have maxEq : maxWord.toNat = 2 ^ 64 - 1 := rfl
  rw [gt_iff_lt, BitVec.lt_def, BitVec.toNat_sub]
  omega

def vmaStart (vma : Vma) : Nat := vma.start.toNat

def vmaStop (vma : Vma) : Nat := vma.stop.toNat

structure Window (vmas : List Vma) : Prop where
  ordered : Ordered vmaStart vmaStop userMmapBase.toNat userMmapEnd.toNat vmas
  aligned : ∀ vma ∈ vmas, vma.start.toNat % 4096 = 0 ∧ vma.stop.toNat % 4096 = 0

/-- The place that `do_mmap` uses, when there is one. -/
def placeOf (length cursor : Word) (vmas : List Vma) : Option Nat :=
  if vmaScan length cursor vmas = 0 ∨ vmaScan length cursor vmas > maxWord - length then none
  else some (vmaScan length cursor vmas).toNat

theorem placeOf_of_scan {place : Word} (scan : vmaScan length cursor vmas = place)
    (nonzero : 0 < place.toNat) (inRange : place.toNat + length.toNat < 2 ^ 64) :
    placeOf length cursor vmas = some place.toNat := by
  have placeNe : place ≠ 0 := by
    rintro rfl
    exact absurd nonzero (by decide)
  rw [placeOf, scan, if_neg]
  rw [gt_maxWord_sub_iff]
  rintro (isZero | tooLong)
  · exact placeNe isZero
  · omega

theorem placeOf_of_wrap {place : Word} (scan : vmaScan length cursor vmas = place)
    (tooLong : 2 ^ 64 ≤ place.toNat + length.toNat) : placeOf length cursor vmas = none := by
  rw [placeOf, scan, if_pos (.inr (gt_maxWord_sub_iff.mpr tooLong))]

theorem placeOf_of_zero (scan : vmaScan length cursor vmas = 0) :
    placeOf length cursor vmas = none := by
  rw [placeOf, scan, if_pos (.inl rfl)]

theorem firstFit_of_lt {low high size : Nat}
    (ordered : Ordered vmaStart vmaStop low high vmas) (tooLong : high < low + size) :
    firstFit vmaStart vmaStop high size low vmas = none := by
  cases found : firstFit vmaStart vmaStop high size low vmas with
  | none => rfl
  | some place =>
    have fits := (firstFit_eq_some ordered found).1
    have above := fits.above
    have below := fits.below
    omega

theorem placeOf_eq_firstFit (ordered : Ordered vmaStart vmaStop cursor.toNat userMmapEnd.toNat vmas)
    (cursorPos : 0 < cursor.toNat) (lengthPos : 0 < length.toNat) : placeOf length cursor vmas =
      firstFit vmaStart vmaStop userMmapEnd.toNat length.toNat cursor.toNat vmas := by
  have sum := BitVec.toNat_add cursor length
  induction vmas generalizing cursor with
  | nil =>
    by_cases ran : cursor + length ≤ userMmapEnd
    · have scan : vmaScan length cursor [] = cursor := if_pos ran
      rw [BitVec.le_def] at ran
      by_cases wraps : 2 ^ 64 ≤ cursor.toNat + length.toNat
      · rw [placeOf_of_wrap scan wraps, firstFit_of_lt ordered (by omega)]
      · rw [placeOf_of_scan scan cursorPos (by omega)]
        exact (if_pos (by omega)).symm
    · have scan : vmaScan length cursor [] = 0 := if_neg ran
      rw [BitVec.le_def] at ran
      rw [placeOf_of_zero scan, firstFit_of_lt ordered (by omega)]
  | cons vma vmas ih =>
    have whole := ordered
    obtain ⟨above, nonempty, rest⟩ := ordered
    have stopLe := rest.le
    have cursorLt : cursor < userMmapEnd := BitVec.lt_def.mpr (by omega)
    have startEq : vmaStart vma = vma.start.toNat := rfl
    have stopEq : vmaStop vma = vma.stop.toNat := rfl
    by_cases ran : cursor + length ≤ vma.start
    · have scan : vmaScan length cursor (vma :: vmas) = cursor := if_pos ⟨ran, cursorLt⟩
      rw [BitVec.le_def] at ran
      by_cases wraps : 2 ^ 64 ≤ cursor.toNat + length.toNat
      · rw [placeOf_of_wrap scan wraps, firstFit_of_lt whole (by omega)]
      · rw [placeOf_of_scan scan cursorPos (by omega)]
        exact (if_pos (by omega)).symm
    have notFirst : ¬ (cursor + length ≤ vma.start ∧ cursor < userMmapEnd) :=
      fun both => ran both.1
    rw [BitVec.le_def] at ran
    have tooLong : ¬ cursor.toNat + length.toNat ≤ vmaStart vma := by omega
    rw [show firstFit vmaStart vmaStop userMmapEnd.toNat length.toNat cursor.toNat
      (vma :: vmas) = _ from if_neg tooLong]
    by_cases atEnd : vma.stop ≥ userMmapEnd
    · have scan : vmaScan length cursor (vma :: vmas) = 0 := by
        rw [vmaScan, if_neg notFirst, if_pos atEnd]
      rw [ge_iff_le, BitVec.le_def] at atEnd
      rw [placeOf_of_zero scan, firstFit_of_lt rest (by omega)]
    · have scan : vmaScan length cursor (vma :: vmas) = vmaScan length vma.stop vmas := by
        rw [vmaScan, if_neg notFirst, if_neg atEnd]
      rw [placeOf, scan]
      exact ih rest (by omega) (BitVec.toNat_add _ _)

theorem vmaScan_aligned (cursorAligned : cursor.toNat % 4096 = 0)
    (aligned : ∀ vma ∈ vmas, vma.start.toNat % 4096 = 0 ∧ vma.stop.toNat % 4096 = 0) :
    (vmaScan length cursor vmas).toNat % 4096 = 0 := by
  induction vmas generalizing cursor with
  | nil =>
    simp only [vmaScan]
    split
    · exact cursorAligned
    · rfl
  | cons vma vmas ih =>
    simp only [vmaScan]
    split
    · exact cursorAligned
    split
    · rfl
    · exact ih (aligned vma mem_cons_self).2 fun other later =>
        aligned other (mem_cons_of_mem _ later)

section Effects

variable {prot flags : Word} {kmallocOk : Bool} {space : Space}

/-- `do_mmap` found a place for a region. -/
structure Placed (length vaddr : Word) (vmas : List Vma) : Prop where
  inRange : length.toNat + 4095 < 2 ^ 64
  nonempty : roundUp length ≠ 0
  place : placeOf (roundUp length) userMmapBase vmas = some vaddr.toNat

inductive MmapEffect (root : Frame) (length prot flags : Word) (kmallocOk : Bool) (space : Space) :
    Except Panic (Word × Space) → Prop
  | refused (reason : root = 0 ∨ 2 ^ 64 ≤ length.toNat + 4095 ∨ roundUp length = 0 ∨
      placeOf (roundUp length) userMmapBase space.vmas = none ∨ kmallocOk = false) :
      MmapEffect root length prot flags kmallocOk space (.ok (0, space))
  | deferred {vaddr : Word} (placed : Placed length vaddr space.vmas)
      (isLazy : flags &&& mapLazy ≠ 0) :
      MmapEffect root length prot flags kmallocOk space (.ok (vaddr, { space with
        vmas := vmaInsert (mmapRegion vaddr (roundUp length) prot flags) space.vmas }))
  | populated {vaddr : Word} {m : Machine} (placed : Placed length vaddr space.vmas)
      (eager : flags &&& mapLazy = 0)
      (filled : populate root (pageFlags prot) ((roundUp length).toNat / 4096) vaddr
        space.machine = .ok (none, m)) :
      MmapEffect root length prot flags kmallocOk space (.ok (vaddr, ⟨m,
        vmaInsert (mmapRegion vaddr (roundUp length) prot flags) space.vmas⟩))
  | rolledBack {vaddr cursor : Word} {mid m : Machine}
      (placed : Placed length vaddr space.vmas) (eager : flags &&& mapLazy = 0)
      (stopped : populate root (pageFlags prot) ((roundUp length).toNat / 4096) vaddr
        space.machine = .ok (some cursor, mid))
      (released : release root ((cursor - vaddr).toNat / 4096) vaddr mid = .ok m) :
      MmapEffect root length prot flags kmallocOk space (.ok (0, ⟨m,
        (vmaFree vaddr (roundUp length)
          (vmaInsert (mmapRegion vaddr (roundUp length) prot flags) space.vmas)).2⟩))
  | panicked {vaddr : Word} {reason : Panic} (placed : Placed length vaddr space.vmas)
      (eager : flags &&& mapLazy = 0)
      (failed : populate root (pageFlags prot) ((roundUp length).toNat / 4096) vaddr
        space.machine = .error reason) :
      MmapEffect root length prot flags kmallocOk space (.error reason)
  | panickedLater {vaddr cursor : Word} {mid : Machine} {reason : Panic}
      (placed : Placed length vaddr space.vmas) (eager : flags &&& mapLazy = 0)
      (stopped : populate root (pageFlags prot) ((roundUp length).toNat / 4096) vaddr
        space.machine = .ok (some cursor, mid))
      (failed : release root ((cursor - vaddr).toNat / 4096) vaddr mid = .error reason) :
      MmapEffect root length prot flags kmallocOk space (.error reason)

theorem placed_of_checks {vmas : List Vma} (inRange : ¬ length > maxWord - 4095)
    (nonempty : roundUp length ≠ 0) (accepted : ¬ (vmaFindFree (roundUp length) vmas = 0 ∨
      vmaFindFree (roundUp length) vmas > maxWord - roundUp length)) :
    Placed length (vmaFindFree (roundUp length) vmas) vmas := by
  rw [gt_maxWord_sub_iff] at inRange
  simp only [vmaFindFree, roundUp_of_aligned (roundUp_aligned length)] at accepted ⊢
  exact ⟨Nat.not_le.mp inRange, nonempty, if_neg accepted⟩

theorem doMmap_effect : MmapEffect root length prot flags kmallocOk space
      (doMmap root length prot flags kmallocOk space) := by
  by_cases noRoot : root = 0
  · rw [doMmap, if_pos noRoot]
    exact .refused (.inl noRoot)
  by_cases overflow : length > maxWord - 4095
  · rw [doMmap, if_neg noRoot, if_pos overflow]
    exact .refused (.inr (.inl (gt_maxWord_sub_iff.mp overflow)))
  by_cases nonempty : roundUp length = 0
  · rw [doMmap, if_neg noRoot, if_neg overflow]
    simp only [nonempty, ite_true]
    exact .refused (.inr (.inr (.inl nonempty)))
  rw [doMmap, if_neg noRoot, if_neg overflow]
  simp only [nonempty, ite_false]
  split
  · next refused =>
    rw [vmaFindFree, roundUp_of_aligned (roundUp_aligned length)] at refused
    exact .refused (.inr (.inr (.inr (.inl (if_pos refused)))))
  next accepted =>
  have placed := placed_of_checks overflow nonempty accepted
  cases kmallocOk with
  | false => exact .refused (.inr (.inr (.inr (.inr rfl))))
  | true =>
    simp only [Bool.true_eq_false, ite_false]
    by_cases isLazy : flags &&& mapLazy = 0
    · simp only [isLazy, ne_eq, not_true, ite_false]
      split
      · next failed => exact .panicked placed isLazy failed
      · next filled => exact .populated placed isLazy filled
      · next stopped =>
        split
        · next failed => exact .panickedLater placed isLazy stopped failed
        · next released => exact .rolledBack placed isLazy stopped released
    · simp only [ne_eq, isLazy, not_false_eq_true, ite_true]
      exact .deferred placed isLazy

/-- What `do_munmap` may do; `addr` is the start of the page of the argument and
`length` the rounded length. -/
inductive MunmapEffect (root : Frame) (addr length : Word) (space : Space) :
    Except Panic (Bool × Space) → Prop
  | refused : MunmapEffect root addr length space (.ok (false, space))
  | removed {vma : Vma} {m : Machine} (member : vma ∈ space.vmas)
      (atStart : vma.start = addr) (atStop : vma.stop = addr + length)
      (inRange : addr.toNat + length.toNat < 2 ^ 64)
      (released : release root (length.toNat / 4096) addr space.machine = .ok m) :
      MunmapEffect root addr length space (.ok ((vmaFree addr length space.vmas).1,
        ⟨m, (vmaFree addr length space.vmas).2⟩))
  | panicked {vma : Vma} {reason : Panic} (member : vma ∈ space.vmas)
      (atStart : vma.start = addr) (atStop : vma.stop = addr + length)
      (inRange : addr.toNat + length.toNat < 2 ^ 64)
      (failed : release root (length.toNat / 4096) addr space.machine = .error reason) :
      MunmapEffect root addr length space (.error reason)

theorem doMunmap_effect (addr : Word) : MunmapEffect root (addr &&& ~~~4095) (roundUp length) space
      (doMunmap root addr length space) := by
  rw [doMunmap]
  split
  · exact .refused
  simp only
  split
  · exact .refused
  split
  · exact .refused
  next inRange =>
    rw [gt_maxWord_sub_iff] at inRange
    split
    · exact .refused
    next vma found =>
    split
    · exact .refused
    next exact =>
    simp only [ne_eq, not_or, not_not] at exact
    have member := mem_of_find?_eq_some found
    split
    · next failed => exact .panicked member exact.1 exact.2 (by omega) failed
    · next released => exact .removed member exact.1 exact.2 (by omega) released

end Effects

section Regions

variable {va prot flags : Word} {space after : Space} {process : Process}

section

variable (placed : Placed length va vmas)

include placed

theorem Placed.length_pos : 0 < (roundUp length).toNat :=
  Nat.pos_of_ne_zero fun isZero => placed.nonempty (BitVec.eq_of_toNat_eq isZero)

theorem Placed.isLeast (window : Window vmas) :
    IsLeast {place | Fits vmaStart vmaStop userMmapBase.toNat userMmapEnd.toNat
      (roundUp length).toNat vmas place} va.toNat := by
  refine firstFit_eq_some window.ordered ?_
  rw [← placeOf_eq_firstFit window.ordered (by decide) placed.length_pos]
  exact placed.place

theorem Placed.vaddr_eq : va = vmaScan (roundUp length) userMmapBase vmas := by
  have place := placed.place
  obtain ⟨-, place⟩ := Option.ite_none_left_eq_some.mp place
  exact BitVec.eq_of_toNat_eq (Option.some.inj place).symm

theorem Placed.aligned (window : Window vmas) : va.toNat % 4096 = 0 := by
  rw [placed.vaddr_eq]
  exact vmaScan_aligned (by decide) window.aligned

theorem Placed.stop_eq (window : Window vmas) :
    (va + roundUp length).toNat = va.toNat + (roundUp length).toNat := by
  have below := (placed.isLeast window).1.below
  rw [BitVec.toNat_add]
  exact Nat.mod_eq_of_lt (by omega)

end

theorem Window.insert (window : Window vmas) (placed : Placed length va vmas) :
    Window (vmaInsert (mmapRegion va (roundUp length) prot flags) vmas) := by
  have stopEq := placed.stop_eq window
  have positive := placed.length_pos
  constructor
  · refine window.ordered.insertRegion ?_ ?_
    · simp only [vmaStart, vmaStop, mmapRegion, stopEq]
      omega
    · simp only [vmaStart, vmaStop, mmapRegion, stopEq, Nat.add_sub_cancel_left]
      exact (placed.isLeast window).1
  intro vma member
  rcases mem_insertRegion.mp member with rfl | older
  · have startAligned := placed.aligned window
    have lengthAligned := roundUp_aligned length
    simp only [mmapRegion, stopEq]
    omega
  · exact window.aligned vma older

theorem Window.free (window : Window vmas) (start length : Word) :
    Window (vmaFree start length vmas).2 :=
  ⟨window.ordered.sublist eraseP_sublist, fun vma member =>
    window.aligned vma (mem_of_mem_eraseP member)⟩

theorem window_nil : Window [] := ⟨show userMmapBase.toNat ≤ userMmapEnd.toNat by decide, nofun⟩

theorem Window.doMmap (window : Window space.vmas) {kmallocOk : Bool} {result : Word}
    (ran : doMmap root length prot flags kmallocOk space = .ok (result, after)) :
    Window after.vmas := by
  have effect := @doMmap_effect root length prot flags kmallocOk space
  rw [ran] at effect
  cases effect with
  | refused => exact window
  | deferred placed | populated placed => exact window.insert placed
  | rolledBack placed => exact (window.insert placed).free _ _

variable {result : Bool}

theorem Window.doMunmap (window : Window space.vmas) {addr : Word}
    (ran : doMunmap root addr length space = .ok (result, after)) : Window after.vmas := by
  have effect := @doMunmap_effect root length space addr
  rw [ran] at effect
  cases effect with
  | refused => exact window
  | removed => exact window.free _ _

theorem pageFaultDemand_vmas (ran : pageFaultDemand root va space = .ok (result, after)) :
    after.vmas = space.vmas := by
  rw [pageFaultDemand] at ran
  split at ran
  · cases ran
  · cases ran
    rfl
  · split at ran <;> cases ran
    rfl

theorem pageFaultHandler_vmas {cr2 errorCode : Word}
    (ran : pageFaultHandler root cr2 errorCode space = .ok (result, after)) :
    after.vmas = space.vmas := by
  simp only [pageFaultHandler] at ran
  split at ran
  · cases ran
    rfl
  split at ran
  · cases ran
    rfl
  split at ran
  · exact pageFaultDemand_vmas ran
  · cases ran
    rfl

theorem result_of_perform {Result : Type} {called : Except Panic (Result × Space)} {goesOn : Bool}
    (ran : (called.map fun result => (true, result.2)) = .ok (goesOn, after)) :
    ∃ result, called = .ok (result, after) := by
  cases called with
  | error reason => cases ran
  | ok result =>
    cases ran
    exact ⟨result.1, rfl⟩

theorem Window.perform (window : Window space.vmas) {call : Call} {goesOn : Bool}
    (ran : call.perform root space = .ok (goesOn, after)) : Window after.vmas := by
  cases call with
  | mmap length prot flags kmallocOk =>
    obtain ⟨result, called⟩ := result_of_perform ran
    exact window.doMmap called
  | munmap addr length =>
    obtain ⟨result, called⟩ := result_of_perform ran
    exact window.doMunmap called
  | demand va =>
    obtain ⟨result, called⟩ := result_of_perform ran
    rw [pageFaultDemand_vmas called]
    exact window
  | fault cr2 errorCode =>
    rw [pageFaultHandler_vmas ran]
    exact window

end Regions

section Allocations

variable {m before mid after : Machine} {used more : List Frame} {frame table : Frame}
  {i : Index} {va paddr flags : Word}

/-- The given answers have been used, and frames were allocated only by them. -/
structure DrawsOnly (before after : Machine) (drawn : List Frame) : Prop where
  answers : before.answers = drawn ++ after.answers
  allocated : ∀ frame, after.allocated frame = true → before.allocated frame = true ∨ frame ∈ drawn

def Draws (before after : Machine) : Prop := ∃ drawn, DrawsOnly before after drawn

theorem DrawsOnly.trans {first second : List Frame} (draws : DrawsOnly before mid first)
    (later : DrawsOnly mid after second) : DrawsOnly before after (first ++ second) := by
  refine ⟨by rw [draws.answers, later.answers, append_assoc], fun frame isAllocated => ?_⟩
  rw [mem_append]
  rcases later.allocated frame isAllocated with wasAllocated | isDrawn
  · exact (draws.allocated frame wasAllocated).imp_right .inl
  · exact .inr (.inr isDrawn)

theorem Draws.trans (draws : Draws before mid) (later : Draws mid after) :
    Draws before after := by
  obtain ⟨first, draws⟩ := draws
  obtain ⟨second, later⟩ := later
  exact ⟨first ++ second, draws.trans later⟩

theorem Draws.of_subset (answers : after.answers = before.answers)
    (allocated : ∀ frame, after.allocated frame = true → before.allocated frame = true) :
    Draws before after :=
  ⟨[], answers.symm, fun frame isAllocated => .inl (allocated frame isAllocated)⟩

theorem Draws.refl (m : Machine) : Draws m m := .of_subset rfl fun _ => id

theorem Draws.wrote (draws : Draws before mid) (answers : after.answers = mid.answers)
    (allocated : after.allocated = mid.allocated) : Draws before after :=
  draws.trans (.of_subset answers fun _ isAllocated => allocated ▸ isAllocated)

/-- Frames were allocated and no allocation failed. -/
def Served (before after : Machine) : Prop :=
  ∃ used, before.answers = used ++ after.answers ∧
    ∀ frame, after.allocated frame = true ↔ before.allocated frame = true ∨ frame ∈ used

/-- Some allocation failed: there was no answer, or the last answer that was used
is not a frame that was free. -/
def AllocationFailed (before after : Machine) : Prop :=
  after.answers = [] ∨ ∃ used frame, before.answers = used ++ frame :: after.answers ∧
    (frame = 0 ∨ before.allocated frame = true ∨ frame ∈ used)

theorem Served.refl (m : Machine) : Served m m := ⟨[], rfl, fun _ => by simp⟩

theorem Served.trans (first : Served before mid) (second : Served mid after) :
    Served before after := by
  obtain ⟨used, answers, allocated⟩ := first
  obtain ⟨more, moreAnswers, moreAllocated⟩ := second
  refine ⟨used ++ more, ?_, fun frame => ?_⟩
  · rw [answers, moreAnswers, append_assoc]
  · rw [moreAllocated, allocated, mem_append, or_assoc]

theorem Served.failed (served : Served before mid) (failed : AllocationFailed mid after) :
    AllocationFailed before after := by
  obtain ⟨used, answers, allocated⟩ := served
  rcases failed with noAnswer | ⟨more, frame, moreAnswers, unusable⟩
  · exact .inl noAnswer
  refine .inr ⟨used ++ more, frame, ?_, ?_⟩
  · rw [answers, moreAnswers, append_assoc]
  · rw [allocated, or_assoc] at unusable
    rwa [mem_append]

/-- What a sequence of allocations did, and whether all of them succeeded. -/
inductive Allocations (before after : Machine) : Bool → Prop
  | served (served : Served before after) : Allocations before after true
  | failed (draws : Draws before after) (failed : AllocationFailed before after) :
      Allocations before after false

theorem Served.draws (served : Served before after) : Draws before after := by
  obtain ⟨used, answers, allocated⟩ := served
  exact ⟨used, answers, fun frame => (allocated frame).mp⟩

variable {succeeds : Bool}

theorem Allocations.draws (allocations : Allocations before after succeeds) :
    Draws before after := by
  cases allocations with
  | served served => exact served.draws
  | failed draws => exact draws

theorem Served.allocations (served : Served before mid)
    (later : Allocations mid after succeeds) : Allocations before after succeeds := by
  cases later with
  | served more => exact .served (served.trans more)
  | failed draws failed => exact .failed (served.draws.trans draws) (served.failed failed)

theorem allocations_of_pmmAlloc (called : pmmAlloc m = (frame, after)) :
    Allocations m after (decide (frame ≠ 0)) := by
  rw [pmmAlloc] at called
  split at called
  · next noAnswer =>
    cases called
    exact .failed (.refl m) (.inl noAnswer)
  next answer answers isAnswer =>
  split at called
  · next unusable =>
    cases called
    exact .failed ⟨[answer], isAnswer, fun _ => .inl⟩
      (.inr ⟨[], answer, isAnswer, unusable.imp_right .inl⟩)
  · next usable =>
    cases called
    rw [decide_eq_true (not_or.mp usable).1]
    refine .served ⟨[frame], isAnswer, fun other => ?_⟩
    by_cases same : other = frame <;> simp [same]

theorem served_of_pmmAlloc (called : pmmAlloc m = (frame, after)) (frameNe : frame ≠ 0) :
    Served m after := by
  have allocations := allocations_of_pmmAlloc called
  rw [decide_eq_true frameNe] at allocations
  cases allocations with
  | served served => exact served

theorem allocations_of_ensureTable {stride : Option Word} {next : Option Frame}
    (called : ensureTable stride table i flags m = (next, after)) :
    Allocations m after next.isSome := by
  rcases allocation : pmmAlloc m with ⟨frame, granted⟩
  have served := served_of_pmmAlloc allocation
  simp only [ensureTable, allocation] at called
  split at called
  · split at called
    · split at called
      · split at called <;> cases called
        · next isZero =>
          subst isZero
          exact allocations_of_pmmAlloc allocation
        · next frameNe => exact .served (served frameNe)
      · cases called
        exact .served (Served.refl m)
    · cases called
      exact .served (Served.refl m)
  · split at called <;> cases called
    · next isZero =>
      subst isZero
      exact allocations_of_pmmAlloc allocation
    · next frameNe => exact .served (served frameNe)

theorem served_of_ensureTable {stride : Option Word} {next : Frame}
    (called : ensureTable stride table i flags m = (some next, after)) :
    Served m after := by
  cases allocations_of_ensureTable called with
  | served served => exact served

theorem allocations_of_vmmMapLocked {overwriteOk mapped : Bool}
    (ran : vmmMapLocked root va paddr flags overwriteOk m = .ok (mapped, after)) :
    Allocations m after mapped := by
  simp only [vmmMapLocked] at ran
  split at ran
  · next first firstEq =>
    cases ran
    exact allocations_of_ensureTable firstEq
  next pdpt first firstEq =>
  have firstServed := served_of_ensureTable firstEq
  split at ran
  · next second secondEq =>
    cases ran
    exact firstServed.allocations (allocations_of_ensureTable secondEq)
  next pd second secondEq =>
  have secondServed := firstServed.trans (served_of_ensureTable secondEq)
  split at ran
  · next third thirdEq =>
    cases ran
    exact secondServed.allocations (allocations_of_ensureTable thirdEq)
  next pt third thirdEq =>
  have served := secondServed.trans (served_of_ensureTable thirdEq)
  split at ran <;> cases ran
  exact .served served

theorem pmmFree_cases (freed : pmmFree frame m = .ok after) :
    (frame = 0 ∧ after = m) ∨ (frame ≠ 0 ∧ m.allocated frame = true ∧
      after = { m with allocated := Function.update m.allocated frame false }) := by
  rw [pmmFree] at freed
  split at freed
  · next isZero =>
    cases freed
    exact .inl ⟨isZero, rfl⟩
  · next frameNe =>
    split at freed <;> cases freed
    next allocated => exact .inr ⟨frameNe, allocated, rfl⟩

theorem pmmFree_answers (freed : pmmFree frame m = .ok after) :
    after.answers = m.answers := by
  rcases pmmFree_cases freed with ⟨_, rfl⟩ | ⟨_, _, rfl⟩
  · rfl
  · rfl

theorem draws_pmmFree (freed : pmmFree frame m = .ok after) : Draws m after := by
  rcases pmmFree_cases freed with ⟨_, rfl⟩ | ⟨_, _, rfl⟩
  · exact .refl after
  refine .of_subset rfl fun other isAllocated => ?_
  by_cases same : other = frame
  · subst same
    simp at isAllocated
  · exact (Function.update_of_ne same _ _).symm.trans isAllocated

theorem allocations_of_mapFresh (ran : mapFresh root va flags m = .ok (frame, after)) :
    Allocations m after (decide (frame ≠ 0)) := by
  rcases allocation : pmmAlloc m with ⟨phys, granted⟩
  simp only [mapFresh, allocation] at ran
  split at ran
  · next isZero =>
    cases ran
    subst isZero
    exact allocations_of_pmmAlloc allocation
  next physNe =>
  have served := served_of_pmmAlloc allocation physNe
  split at ran
  · cases ran
  · next mapped =>
    cases ran
    rw [decide_eq_true physNe]
    exact served.allocations (allocations_of_vmmMapLocked mapped)
  · next notMapped =>
    split at ran <;> cases ran
    next freed =>
      cases served.allocations (allocations_of_vmmMapLocked notMapped) with
      | failed draws failed =>
        refine .failed (draws.trans (draws_pmmFree freed)) ?_
        rw [AllocationFailed, pmmFree_answers freed]
        exact failed

theorem failed_of_populate {pages : Nat} {stopped : Word}
    (ran : populate root flags pages cursor m = .ok (some stopped, after)) :
    AllocationFailed m after := by
  induction pages generalizing cursor m with
  | zero => cases ran
  | succ pages ih =>
    rw [populate] at ran
    split at ran
    · cases ran
    next phys mapped fresh =>
    have allocations := allocations_of_mapFresh fresh
    split at ran
    · next isZero =>
      cases ran
      subst isZero
      cases allocations with
      | failed _ failed => exact failed
    · next physNe =>
      rw [decide_eq_true physNe] at allocations
      cases allocations with
      | served served => exact served.failed (ih ran)

theorem vmmUnmap_answers : (vmmUnmap root va m).2.answers = m.answers := by
  simp only [vmmUnmap]
  split
  · rfl
  · split
    · rfl
    · split <;> rfl

theorem releasePage_answers (ran : releasePage root va m = .ok after) :
    after.answers = m.answers := by
  rw [releasePage] at ran
  split at ran
  · cases ran
  simp only at ran
  split at ran
  · cases ran
    exact vmmUnmap_answers
  · rw [pmmFree_answers ran, vmmUnmap_answers]

theorem release_answers {pages : Nat} (ran : release root pages va m = .ok after) :
    after.answers = m.answers := by
  induction pages generalizing va m with
  | zero =>
    cases ran
    rfl
  | succ pages ih =>
    rw [release] at ran
    split at ran
    · cases ran
    · next released => rw [ih ran, releasePage_answers released]

end Allocations

section Runs

variable {process : Process}

def NoRegions (process : Process) : Prop := process.space.vmas = [] ∧ process.killed = false

theorem perform_of_step {call : Call} {after : Process}
    (ran : step root process call = some after) : process.killed = false ∧
      call.perform root process.space = .ok (!after.killed, after.space) := by
  obtain ⟨alive, ran⟩ := Option.ite_none_left_eq_some.mp ran
  split at ran <;> cases ran
  next performed =>
    simp only [Bool.not_not]
    exact ⟨Bool.eq_false_iff.mpr alive, performed⟩

theorem window_of_reachable (reached : (system root NoRegions).Reachable process) :
    Window process.space.vmas := by
  induction reached with
  | start initially =>
    rw [initially.1]
    exact window_nil
  | next _ _ ran window =>
    obtain ⟨_, performed⟩ := perform_of_step ran
    exact window.perform performed

/-- The regions are sorted, apart, not empty, aligned to pages and inside the
window for `mmap`. -/
structure RegionsOk (vmas : List Vma) : Prop where
  sorted : vmas.Pairwise fun first second => first.start < second.start
  disjoint : vmas.Pairwise fun first second =>
    ∀ address, ¬ ((first.start ≤ address ∧ address < first.stop) ∧
      (second.start ≤ address ∧ address < second.stop))
  inside : ∀ vma ∈ vmas, userMmapBase ≤ vma.start ∧ vma.start < vma.stop ∧ vma.stop ≤ userMmapEnd
  aligned : ∀ vma ∈ vmas, vma.start.toNat % 4096 = 0 ∧ vma.stop.toNat % 4096 = 0

theorem Window.regionsOk (window : Window vmas) : RegionsOk vmas := by
  have inside : ∀ vma ∈ vmas, userMmapBase ≤ vma.start ∧ vma.start < vma.stop ∧
      vma.stop ≤ userMmapEnd := by
    intro vma member
    exact window.ordered.mem member
  refine ⟨?_, ?_, inside, window.aligned⟩
  · refine window.ordered.pairwise.imp_of_mem fun {first second} firstMember _ apart => ?_
    have nonempty := (window.ordered.mem firstMember).2.1
    exact nonempty.trans_le apart
  refine window.ordered.pairwise.imp fun {first second} apart addr => ?_
  rintro ⟨⟨_, beforeStop⟩, ⟨afterStart, _⟩⟩
  rw [BitVec.lt_def] at beforeStop
  rw [BitVec.le_def] at afterStart
  have apartNat : first.stop.toNat ≤ second.start.toNat := apart
  omega

/-- A page-aligned address in the window at which a length fits between the
regions. -/
structure Gap (length : Nat) (vmas : List Vma) (address : Word) : Prop where
  aligned : address.toNat % 4096 = 0
  above : userMmapBase ≤ address
  below : address.toNat + length ≤ userMmapEnd.toNat
  apart : ∀ vma ∈ vmas, address.toNat + length ≤ vma.start.toNat ∨ vma.stop ≤ address

theorem Placed.isLeast_gap {va : Word} (placed : Placed length va vmas)
    (window : Window vmas) : IsLeast {addr | Gap (pageLength length) vmas addr} va := by
  obtain ⟨fits, least⟩ := placed.isLeast window
  have lengthEq := toNat_roundUp placed.inRange
  constructor
  · refine ⟨placed.aligned window, BitVec.le_def.mpr fits.above, lengthEq ▸ fits.below,
      fun vma member => ?_⟩
    rw [← lengthEq]
    exact fits.apart vma member
  intro addr gap
  refine least ⟨BitVec.le_def.mp gap.above, lengthEq.symm ▸ gap.below, fun vma member => ?_⟩
  rw [lengthEq]
  exact (gap.apart vma member).imp_right BitVec.le_def.mp

theorem not_gap_of_placeOf (window : Window vmas) (nonempty : roundUp length ≠ 0)
    (inRange : length.toNat + 4095 < 2 ^ 64)
    (noPlace : placeOf (roundUp length) userMmapBase vmas = none) (addr : Word) :
    ¬ Gap (pageLength length) vmas addr := by
  intro gap
  have positive := Nat.pos_of_ne_zero fun isZero => nonempty (BitVec.eq_of_toNat_eq isZero)
  rw [placeOf_eq_firstFit window.ordered (by decide) positive] at noPlace
  refine firstFit_eq_none window.ordered noPlace addr.toNat
    ⟨BitVec.le_def.mp gap.above, ?_, fun vma member => ?_⟩
  · rw [toNat_roundUp inRange]
    exact gap.below
  · rw [toNat_roundUp inRange]
    exact (gap.apart vma member).imp_right BitVec.le_def.mp

/-- The regions stay in order, and `do_mmap` returns the least gap that is large enough, or 0
when an allocation fails, the length is bad, or there is no gap. -/
theorem doMmap_returns_least_gap (rootSet : root ≠ 0)
    (reached : (system root NoRegions).Reachable process) : RegionsOk process.space.vmas ∧
      ∀ length prot flags kmallocOk result after,
        doMmap root length prot flags kmallocOk process.space = .ok (result, after) →
          (result ≠ 0 → IsLeast {addr | Gap (pageLength length) process.space.vmas addr}
            result) ∧ (result = 0 → kmallocOk = true →
            ¬ AllocationFailed process.space.machine after.machine →
            pageLength length = 0 ∨ 2 ^ 64 ≤ pageLength length ∨
              ∀ addr, ¬ Gap (pageLength length) process.space.vmas addr) := by
  have window := window_of_reachable reached
  refine ⟨window.regionsOk, fun length prot flags kmallocOk result after ran => ?_⟩
  have effect := @doMmap_effect root length prot flags kmallocOk process.space
  rw [ran] at effect
  cases effect with
  | refused reason =>
    refine ⟨fun ne => absurd rfl ne, fun _ allocated _ => ?_⟩
    by_cases inRange : length.toNat + 4095 < 2 ^ 64
    · by_cases nonempty : roundUp length = 0
      · refine .inl ?_
        rw [← toNat_roundUp inRange, nonempty]
        rfl
      refine .inr (.inr (not_gap_of_placeOf window nonempty inRange ?_))
      rcases reason with noRoot | tooLong | isZero | noPlace | notAllocated
      · exact absurd noRoot rootSet
      · omega
      · exact absurd isZero nonempty
      · exact noPlace
      · cases allocated.symm.trans notAllocated
    · refine .inr (.inl ?_)
      simp only [pageLength]
      omega
  | deferred placed | populated placed =>
    refine ⟨fun _ => placed.isLeast_gap window, ?_⟩
    rintro rfl
    exact absurd (placed.isLeast window).1.above (by decide)
  | rolledBack placed eager stopped released =>
    refine ⟨fun ne => absurd rfl ne, fun _ _ succeeded => absurd ?_ succeeded⟩
    rw [AllocationFailed, release_answers released]
    exact failed_of_populate stopped

/-- A thread whose page table has a zeroed root, with frames for a few pages. -/
def emptyProcess : Process where
  space := ⟨⟨fun _ _ => 0, fun frame => frame = 1, [2, 3, 4, 5, 6, 7, 8, 9, 10, 11]⟩, []⟩
  killed := false

/-- Three regions, the second of them lazy, and the first is removed again. -/
def busyProcess : Process :=
  ((system 1 NoRegions).run emptyProcess
    [.mmap 0x1234 protWrite 0 true, .mmap 0x3000 protWrite mapLazy true, .mmap 1 0 0 true,
      .munmap 0x04000123 0x1500]).getD emptyProcess

theorem noRegions_emptyProcess : (system 1 NoRegions).initial emptyProcess := ⟨rfl, rfl⟩

theorem reachable_busyProcess : (system 1 NoRegions).Reachable busyProcess :=
  TransitionSystem.Reachable.getD_run (.start noRegions_emptyProcess) _

theorem doMmap_returns_least_gap_busyProcess :
    busyProcess.space.vmas.map (fun vma => (vma.start, vma.stop)) =
        [(0x04002000, 0x04005000), (0x04005000, 0x04006000)] ∧
      (doMmap 1 0x2000 0 mapLazy true busyProcess.space).toOption.map Prod.fst = some 0x04000000 ∧
      IsLeast {addr | Gap (pageLength 0x2000) busyProcess.space.vmas addr} 0x04000000 := by
  have returned : (doMmap 1 0x2000 0 mapLazy true busyProcess.space).toOption.map Prod.fst =
      some 0x04000000 := by
    decide +kernel
  refine ⟨by decide +kernel, returned, ?_⟩
  cases called : doMmap 1 0x2000 0 mapLazy true busyProcess.space with
  | error reason =>
    rw [called] at returned
    cases returned
  | ok result =>
    rw [called] at returned
    obtain ⟨addr, after⟩ := result
    cases returned
    exact ((doMmap_returns_least_gap (by decide) reachable_busyProcess).2 _ _ _ _ _ _ called).1
      (by decide)

end Runs

end LaOS.UserSpace
