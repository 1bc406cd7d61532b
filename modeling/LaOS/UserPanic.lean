import LaOS.UserDestroy
import LaOS.UserEntries

/-!
# When a page is mapped twice

The loader, the stack and the window for `mmap` share no record of the addresses that
are taken.
-/

namespace LaOS.UserSpace

open List Vmm RadixTree WordBytes

variable {others : Frame → Prop} {root : Frame} {m before after first : Machine}
  {va flags : Word} {space : Space} {range : Nat → Prop} {clear : Prop}

theorem and_twoPow_ne {width : Nat} (bit : Nat) (inside : bit < width) (word : BitVec width) :
    word &&& BitVec.twoPow width bit ≠ 0 ↔ word.getLsbD bit = true := by
  rw [BitVec.and_twoPow]
  split
  · next isSet =>
    refine iff_of_true (fun isZero => ?_) isSet
    have bitEq := congrArg (BitVec.getLsbD · bit) isZero
    simp [inside] at bitEq
  · next notSet => simp [notSet]

/-- A page entry allows writing and execution as a protection does. -/
structure Allows (prot : BitVec 32) (leaf : Word) : Prop where
  write : writable leaf = prot.getLsbD 1
  execute : noExecute leaf = !prot.getLsbD 2

theorem Fresh.allows {prot leaf : Word} (isFresh : Fresh (pageFlags prot) leaf) :
    Allows (prot.setWidth 32) leaf := by
  obtain ⟨phys, rfl⟩ := isFresh
  have write : prot &&& protWrite ≠ 0 ↔ prot.getLsbD 1 = true := and_twoPow_ne 1 (by decide) prot
  have execute : prot &&& protExec ≠ 0 ↔ prot.getLsbD 2 = true := and_twoPow_ne 2 (by decide) prot
  constructor
  all_goals
    simp only [pageEntry, pageFlags, write, execute, writable, noExecute, BitVec.getLsbD_setWidth,
      BitVec.getLsbD_or, BitVec.getLsbD_and, getLsbD_pteAddrMask]
    cases prot.getLsbD 1 <;> cases prot.getLsbD 2 <;>
      simp [ptePresent, pteUser, pteWritable, pteNx]

def VmaPage (vmas : List Vma) (page : Nat) (leaf : Word) : Prop :=
  ∃ vma ∈ vmas, Between vma.start.toNat vma.stop.toNat page ∧ Allows vma.prot leaf

/-- Every page that is mapped is a fixed one or lies in a region, whose protection
its entry has. -/
def Covered (fixed : Nat → Prop) (root : Frame) (space : Space) : Prop :=
  ∀ vaddr leaf, low (pml4Idx vaddr) → leafOf space.machine root vaddr = some leaf →
    fixed (pageNumber vaddr) ∨ VmaPage space.vmas (pageNumber vaddr) leaf

section Calls

variable {fixed : Nat → Prop} {length prot mmapFlags result : Word} {kmallocOk : Bool}
  {vmas : List Vma} {vma : Vma}

theorem roundUp_div_mul (length : Word) :
    (roundUp length).toNat / 4096 * 4096 = (roundUp length).toNat := by
  have aligned := roundUp_aligned length
  omega

theorem Placed.range_le (placed : Placed length va vmas) (window : Window vmas) :
    va.toNat + (roundUp length).toNat / 4096 * 4096 ≤ 2 ^ 47 := by
  have bound := placed.bound window
  have endEq : userMmapEnd.toNat = 0x10000000 := rfl
  omega

theorem isExactly_iff {start : Word} :
    vma.isExactly start length = true ↔ vma.start = start ∧ vma.stop = start + length := by
  simp [Vma.isExactly]

theorem Placed.not_exactly (placed : Placed length va vmas) (window : Window vmas)
    (member : vma ∈ vmas) : ¬ vma.isExactly va (roundUp length) = true := by
  intro isExact
  obtain ⟨sameStart, sameStop⟩ := isExactly_iff.mp isExact
  have apart := (placed.isLeast window).1.apart vma member
  have nonempty := placed.length_pos
  have stopEq := placed.stop_eq window
  simp only [vmaStart, vmaStop, sameStart, sameStop, stopEq] at apart
  omega

theorem Placed.vmaFree_insert (placed : Placed length va vmas) (window : Window vmas) :
    (vmaFree va (roundUp length)
      (vmaInsert (mmapRegion va (roundUp length) prot mmapFlags) vmas)).2 = vmas :=
  FirstFit.eraseP_insertRegion (isExactly_iff.mpr ⟨rfl, rfl⟩) fun _ => placed.not_exactly window

theorem restored_of_populate (owns : Owns others root space.machine) (window : Window space.vmas)
    (placed : Placed length va space.vmas) {stop : Word} {mid : Machine}
    (stopped : populate root (pageFlags prot) ((roundUp length).toNat / 4096) va space.machine =
      .ok (some stop, mid)) : Yields clear (fun after => KeepsTables root space.machine after ∧
        ∀ other, low (pml4Idx other) → leafOf after root other = leafOf space.machine root other)
      (release root ((stop - va).toNat / 4096) va mid) := by
  have filled := filled_populate owns (mapsPage_pageFlags prot) (placed.range_le window)
  rw [stopped] at filled
  obtain ⟨_, stopEq, releaseLe⟩ := placed.stopped window stopped
  have middleOwns := owns.populate (mapsPage_pageFlags prot) (placed.range_le window) stopped
  refine (emptied_release middleOwns releaseLe).mono fun after emptied => ?_
  rw [← stopEq] at emptied
  exact ⟨fun _ isTable => emptied.tables _ (filled.of_ok.tables _ isTable),
    fun _ => filled.of_ok.emptied emptied⟩

theorem Covered.filled (covered : Covered fixed root space)
    (filled : Filled range flags root space.machine m) (kept : space.vmas ⊆ vmas)
    (inside : ∀ page leaf, range page → Fresh flags leaf → VmaPage vmas page leaf) :
    Covered fixed root ⟨m, vmas⟩ := by
  intro va leaf isLow found
  by_cases inRange : range (pageNumber va)
  · obtain ⟨fresh, freshFound, isFresh⟩ := filled.fresh va isLow inRange
    cases found.symm.trans freshFound
    exact .inr (inside _ _ inRange isFresh)
  · rw [filled.others va isLow inRange] at found
    exact (covered va leaf isLow found).imp_right fun ⟨vma, member, rest⟩ =>
      ⟨vma, kept member, rest⟩

theorem Covered.vacancy (covered : Covered fixed root space) (window : Window space.vmas)
    (placed : Placed length va space.vmas)
    (isFree : ∀ page, Between va.toNat (va.toNat + (roundUp length).toNat) page →
      ¬ fixed page) : Vacancy root space.machine va.toNat
      (va.toNat + (roundUp length).toNat / 4096 * 4096) := by
  rw [roundUp_div_mul]
  refine fun other isLow between => Option.eq_none_iff_forall_ne_some.mpr fun leaf found => ?_
  rcases covered other leaf isLow found with isFixed | ⟨vma, member, inVma, _⟩
  · exact isFree _ between isFixed
  have apart := (placed.isLeast window).1.apart vma member
  simp only [Between, vmaStart, vmaStop] at between inVma apart
  omega

theorem Covered.doMmap (covered : Covered fixed root space) (window : Window space.vmas)
    (owns : Owns others root space.machine)
    (isFree : clear → ∀ va, Placed length va space.vmas → mmapFlags &&& mapLazy = 0 →
      ∀ page, Between va.toNat (va.toNat + (roundUp length).toNat) page → ¬ fixed page) :
    Yields clear (fun answer => Covered fixed root answer.2)
      (doMmap root length prot mmapFlags kmallocOk space) := by
  have kept : ∀ {va}, space.vmas ⊆
      vmaInsert (mmapRegion va (roundUp length) prot mmapFlags) space.vmas :=
    fun member => FirstFit.mem_insertRegion.mpr (.inr member)
  have populated := fun va (placed : Placed length va space.vmas) =>
    filled_populate owns (mapsPage_pageFlags prot) (placed.range_le window)
  have effect := @doMmap_effect root length prot mmapFlags kmallocOk space
  generalize UserSpace.doMmap root length prot mmapFlags kmallocOk space = outcome at effect
  cases effect with
  | refused => exact .ok covered
  | deferred =>
    exact .ok fun other leaf isLow found => (covered other leaf isLow found).imp_right
      fun ⟨vma, member, inVma⟩ => ⟨vma, kept member, inVma⟩
  | populated placed _ filled =>
    have entries := populated _ placed
    rw [filled] at entries
    refine .ok (covered.filled entries.of_ok kept fun page leaf between isFresh => ?_)
    refine ⟨_, FirstFit.mem_insertRegion.mpr (.inl rfl), ?_, isFresh.allows⟩
    simp only [mappedEnd, Option.map_none, Option.getD_none, roundUp_div_mul] at between
    simpa only [mmapRegion, placed.stop_eq window] using between
  | rolledBack placed _ stopped released =>
    have restored := @restored_of_populate _ _ _ _ clear _ _ owns window placed _ _ stopped
    rw [released] at restored
    refine .ok fun other leaf isLow found => ?_
    rw [placed.vmaFree_insert window]
    rw [restored.of_ok.2 other isLow] at found
    exact covered other leaf isLow found
  | panicked placed eager failed =>
    have entries := populated _ placed
    rw [failed] at entries
    exact entries.of_error fun isClear =>
      covered.vacancy window placed (isFree isClear _ placed eager)
  | panickedLater placed _ stopped failed =>
    have restored := @restored_of_populate _ _ _ _ clear _ _ owns window placed _ _ stopped
    rw [failed] at restored
    exact restored.of_error id

theorem Covered.doMunmap (covered : Covered fixed root space) (window : Window space.vmas)
    (owns : Owns others root space.machine) {addr : Word} :
    Yields clear (fun answer => Covered fixed root answer.2) (doMunmap root addr length space) := by
  have effect := @doMunmap_effect root length space addr
  generalize UserSpace.doMunmap root addr length space = outcome at effect
  cases effect with
  | refused => exact .ok covered
  | removed member atStart atStop inRange released =>
    have emptied := @emptied_release _ _ _ _ _ clear owns (munmap_bound window member atStop inRange)
    rw [released] at emptied
    refine .ok fun other leaf isLow found => ?_
    have outside : ¬ Between _ _ _ := fun inside => by
      cases found.symm.trans (emptied.of_ok.vacant other isLow inside)
    rw [emptied.of_ok.others other isLow outside] at found
    refine (covered other leaf isLow found).imp_right fun ⟨vma, isVma, inVma, allows⟩ => ?_
    refine ⟨vma, (mem_eraseP_of_neg fun isExact => outside ?_).mpr isVma, inVma, allows⟩
    obtain ⟨sameStart, sameStop⟩ := isExactly_iff.mp isExact
    have aligned := roundUp_aligned length
    rw [sameStart, sameStop, BitVec.toNat_add, Nat.mod_eq_of_lt inRange] at inVma
    simp only [Between] at inVma ⊢
    omega
  | panicked member _ atStop inRange failed =>
    have emptied := @emptied_release _ _ _ _ _ clear owns (munmap_bound window member atStop inRange)
    rw [failed] at emptied
    exact emptied.of_error id

theorem Window.inside (window : Window vmas) (member : vma ∈ vmas) (above : vma.start ≤ va)
    (below : va < vma.stop) :
    low (pml4Idx va) ∧ Between vma.start.toNat vma.stop.toNat (pageNumber va) := by
  have endEq : userMmapEnd.toNat = 0x10000000 := rfl
  have stopLe : vma.stop.toNat ≤ userMmapEnd.toNat := (window.ordered.mem member).2.2
  have aligned := (window.aligned vma member).2
  rw [BitVec.le_def] at above
  rw [BitVec.lt_def] at below
  refine ⟨low_of_lt (by omega), ?_⟩
  rw [pageNumber_eq (by omega)]
  simp only [Between]
  omega

theorem vmaFind_page (window : Window vmas) :
    vmaFind (va &&& ~~~4095) vmas = vmaFind va vmas := by
  have page := @toNat_and_not_low va 12 4095 (by decide)
  refine find?_congr fun vma member => ?_
  obtain ⟨startAligned, stopAligned⟩ := window.aligned vma member
  simp only [decide_eq_decide, ge_iff_le, BitVec.le_def, BitVec.lt_def, page]
  omega

theorem filled_pageFaultDemand (owns : Owns others root space.machine)
    (window : Window space.vmas) (found : vmaFind va space.vmas = some vma) :
    Yields clear (fun answer => answer.2.vmas = space.vmas ∧
        Filled (fun page => leafOf space.machine root va = none ∧ answer.1 = true ∧
            page = pageNumber va)
          (pageFlags (vma.prot.setWidth 64)) root space.machine answer.2.machine)
      (pageFaultDemand root va space) := by
  have inScope := low_page (low_of_vmaFind window found)
  have samePage : leafOf space.machine root (va &&& ~~~4095) = leafOf space.machine root va :=
    leafOf_eq_of_pageOf (BitVec.eq_of_toNat_eq pageNumber_page)
  rw [pageFaultDemand]
  split
  · next failed =>
    rw [vmmIsMapped_eq] at failed
    exact .error fun _ => lookup_error failed
  · next mapped =>
    have isMapped := mapped_eq_of_isMapped owns.tree inScope mapped
    refine .ok ⟨rfl, filled_nothing (fun page inside => ?_) (fun _ => id) fun _ _ => rfl⟩
    rw [samePage, inside.1] at isMapped
    cases isMapped
  · next unmapped =>
    have isMapped := mapped_eq_of_isMapped owns.tree inScope unmapped
    have vacant : leafOf space.machine root va = none := by
      rw [samePage] at isMapped
      simpa using isMapped.symm
    rw [vmaFind_page window, found]
    have fresh := filled_mapFresh owns.tree inScope (mapsPage_pageFlags (vma.prot.setWidth 64))
    rw [demandFlags]
    generalize mapFresh root _ _ space.machine = outcome at fresh
    cases fresh with
    | error isOther => exact .error fun _ => isOther (samePage.trans vacant)
    | ok filled =>
      refine .ok ⟨rfl, filled.congr fun page => ?_⟩
      simp only [vacant, true_and, decide_eq_true_eq, pageNumber_page]

theorem Covered.pageFaultHandler (covered : Covered fixed root space) (window : Window space.vmas)
    (owns : Owns others root space.machine) {cr2 errorCode : Word} :
    Yields clear (fun answer => Covered fixed root answer.2)
      (pageFaultHandler root cr2 errorCode space) := by
  rw [UserSpace.pageFaultHandler]
  split
  · exact .ok covered
  split
  · exact .ok covered
  next found =>
  split
  · simp only [Option.isNone_iff_eq_none] at found
    obtain ⟨vma, isFound⟩ := Option.ne_none_iff_exists'.mp found
    obtain ⟨member, above, below⟩ := inside_of_vmaFind isFound
    have between := (window.inside member above below).2
    refine (filled_pageFaultDemand owns window isFound).mono fun answer both => ?_
    have same : answer.2 = ⟨answer.2.machine, space.vmas⟩ := by rw [← both.1]
    rw [same]
    refine covered.filled both.2 (List.Subset.refl _) fun page leaf inside isFresh => ?_
    have allows := isFresh.allows
    rw [BitVec.setWidth_setWidth_of_le _ (by decide)] at allows
    exact ⟨vma, member, inside.2.2 ▸ between, allows⟩
  · exact .ok covered

end Calls

section Creation

variable {image : List Byte} {ph : Phdr} {phs : List Phdr} {i size pages : Nat}
  {lost : List Frame} {kernelPml4 : Frame} {argv : List (List Byte)} {reason : Panic}

def SegmentPage (phs : List Phdr) (page : Nat) : Prop :=
  ∃ ph ∈ phs, ∃ i < ph.pages, page = ph.pageVaddr i / 4096

theorem mem_pageAttempts {attempt : Word × Bool}
    (member : attempt ∈ pageAttempts root image ph pages i m) :
    ∃ j < i + pages, attempt.1 = BitVec.ofNat 64 (ph.pageVaddr j) := by
  induction pages generalizing i m with
  | zero => cases member
  | succ pages ih =>
    simp only [pageAttempts] at member
    split at member
    · cases member
    split at member
    · cases member
    rcases mem_cons.mp member with rfl | later
    · exact ⟨i, by omega, rfl⟩
    · obtain ⟨j, jLt, same⟩ := ih later
      exact ⟨j, by omega, same⟩

theorem segmentPage_of_mapped (accepted : ∀ ph ∈ phs, ph.accepted size = true)
    (mapped : Mapped (segmentAttempts root image phs m) va) :
    SegmentPage phs (pageNumber va) := by
  induction phs generalizing m with
  | nil =>
    obtain ⟨_, member, _⟩ := mapped
    cases member
  | cons ph phs ih =>
    rw [segmentAttempts, mapped_append] at mapped
    rcases mapped with ⟨attempt, member, samePage, _⟩ | later
    · obtain ⟨j, jLt, isPage⟩ := mem_pageAttempts member
      rw [zero_add] at jLt
      have bound := Phdr.pageVaddr_bound (accepted ph mem_cons_self) jLt
      refine ⟨ph, mem_cons_self, j, jLt, ?_⟩
      have isNat := toNat_pageVaddr bound
      rw [pageNumber, ← samePage, isPage]
      exact (pageNumber_eq (by rwa [isNat])).trans (by rw [isNat])
    · split at later
      · obtain ⟨other, member, isPage⟩ := ih
          (fun other member => accepted other (mem_cons_of_mem _ member)) later
        exact ⟨other, mem_cons_of_mem _ member, isPage⟩
      · obtain ⟨_, member, _⟩ := later
        cases member

theorem loadPages_error (building : Building before lost root m)
    (bound : ∀ page, page < i + pages → ph.pageVaddr page < 2 ^ 47)
    (failed : loadPages root image ph pages i m = .error reason) :
    reason ≠ .overwritingMapping := by
  induction pages generalizing i m lost with
  | zero => cases failed
  | succ pages ih =>
    have inScope := low_pageVaddr (bound i (by omega))
    rw [UserSpace.loadPages] at failed
    split at failed
    · next refused =>
      have effect := @segmentFrame_effect root m _ ph.pteFlags building.owns.tree inScope
        fun leaf found => (building.owns.inUse inScope found).1
      rw [refused] at effect
      cases failed
      generalize mapSpecificFails root _ _ m = fails at effect
      cases effect with
      | panicked isOther => exact isOther
    next phys chosen found =>
      rcases building.segmentFrame inScope (mapsPage_segment ph) found with
        ⟨physEq, _⟩ | ⟨physNe, step⟩
      · rw [if_pos physEq] at failed
        cases failed
      rw [if_neg physNe] at failed
      exact ih (step.loaded (@overwritten_copyPage phys chosen image ph i)).building
        (fun page pageLt => bound page (by omega)) failed

theorem loadSegments_error (building : Building before lost root m)
    (accepted : ∀ ph ∈ phs, ph.accepted size = true)
    (failed : loadSegments root image phs m = .error reason) :
    reason ≠ .overwritingMapping := by
  induction phs generalizing m lost with
  | nil => cases failed
  | cons ph phs ih =>
    have bound : ∀ page, page < 0 + ph.pages → ph.pageVaddr page < 2 ^ 47 := fun page pageLt =>
      Phdr.pageVaddr_bound (accepted ph mem_cons_self) (by omega)
    rw [UserSpace.loadSegments] at failed
    split at failed
    · next refused =>
      cases failed
      exact loadPages_error building bound refused
    · next found =>
      obtain ⟨_, loaded⟩ := building.loadPages bound found
      exact ih loaded.building (fun other member => accepted other (mem_cons_of_mem _ member))
        failed
    · cases failed

theorem dropStack_error {phys : Frame} (failed : dropStack root phys m = .error reason) :
    reason ≠ .overwritingMapping := by
  rw [dropStack, pmmFree] at failed
  split at failed
  · next refused =>
    cases failed
    split at refused
    · cases refused
    · split at refused <;> cases refused
      rintro ⟨⟩
  · cases failed

theorem setupUserStack_error {kmallocOk : Bool} (ok : TreeOk low root m)
    (vacant : leafOf m root stackPage = none)
    (failed : setupUserStack root argv kmallocOk m = .error reason) :
    reason ≠ .overwritingMapping := by
  rw [setupUserStack] at failed
  split at failed
  · cases failed
  split at failed
  · next refused =>
    have fresh := @filled_mapFresh root m stackPage (ptePresent ||| pteWritable) ok
      low_stackPage ⟨by decide, by decide, by decide⟩
    rw [refused] at fresh
    cases failed
    cases fresh with
    | error isOther => exact isOther vacant
  split at failed
  · cases failed
  split at failed
  · exact dropStack_error failed
  split at failed
  · exact dropStack_error failed
  simp only at failed
  split at failed
  · exact dropStack_error failed
  split at failed
  · exact dropStack_error failed
  · cases failed

def stackNumber : Nat := (userStackTop - 4096) / 4096

theorem stackNumber_eq : stackNumber = 0x7fffffffe := by
  decide

theorem pageNumber_stackPage : pageNumber stackPage = stackNumber := by
  decide

def StackClear (image : List Byte) : Prop :=
  ∀ ph ∈ loads image, ∀ i < ph.pages, ph.pageVaddr i ≠ userStackTop - 4096

theorem Phdr.pageVaddr_aligned (ph : Phdr) (i : Nat) : ph.pageVaddr i % 4096 = 0 := by
  simp only [pageVaddr, pageBase]
  omega

theorem StackClear.not_segmentPage (clear : StackClear image) :
    ¬ SegmentPage (loads image) stackNumber := by
  have pageEq : userStackTop - 4096 = 0x7fffffffe000 := by decide
  rw [stackNumber_eq]
  rintro ⟨ph, member, i, pageLt, same⟩
  have aligned := ph.pageVaddr_aligned i
  refine clear ph member i pageLt ?_
  omega

/-- The pages that the construction of a process maps. -/
def FixedPage (image : List Byte) (page : Nat) : Prop :=
  SegmentPage (loads image) page ∨ page = stackNumber

variable {grants : Grants}

theorem createElfProcess_ne (clear : StackClear image) :
    createElfProcess kernelPml4 image argv grants m ≠ .error .overwritingMapping := by
  intro failed
  have discarded : ∀ {root m}, (∃ after, threadDestroy root m = .ok after) →
      discard root m ≠ .error .overwritingMapping := by
    rintro root m ⟨after, destroyed⟩
    simp [discard, destroyed]
  rw [createElfProcess] at failed
  split at failed
  · cases failed
  next accepted =>
  split at failed
  · cases failed
  split at failed
  · cases failed
  rcases created : vmmCreateUserPml4 kernelPml4 m with ⟨root, blank⟩
  simp only [created] at failed
  split at failed
  · next isZero => exact discarded ⟨blank, by rw [threadDestroy, if_pos isZero]⟩ failed
  next rootNe =>
  have isAccepted := @accepted_of_imageAccepted image (by simpa using accepted)
  obtain ⟨building, blankTree⟩ := building_createUserPml4 created rootNe
  have gone : ∀ {lost built}, Building m lost root built →
      discard root built ≠ .error .overwritingMapping := fun building =>
    discarded (building.owns.threadDestroy.imp fun _ => And.left)
  split at failed
  · next refused =>
    cases failed
    exact loadSegments_error building isAccepted refused rfl
  · next segments =>
    obtain ⟨_, done⟩ := building.loadSegments isAccepted segments
    exact gone done.building failed
  · next loaded segments =>
    obtain ⟨_, done⟩ := building.loadSegments isAccepted segments
    have vacant : leafOf loaded root stackPage = none := by
      rw [← Option.not_isSome_iff_eq_none, done.leaves _ low_stackPage, blankTree _ low_stackPage]
      rintro (isSome | mapped)
      · cases isSome
      · have isPage := segmentPage_of_mapped isAccepted mapped
        exact clear.not_segmentPage isPage
    split at failed
    · next refused =>
      cases failed
      exact setupUserStack_error done.building.owns.tree vacant refused rfl
    next stacked =>
    have stackBuilding := (done.building.setupUserStack stacked).1
    split at failed
    · exact gone stackBuilding failed
    split at failed
    · exact gone stackBuilding failed
    · cases failed

theorem covered_createElfProcess
    (ran : createElfProcess kernelPml4 image argv grants m = .ok (some root, after)) :
    Covered (FixedPage image) root ⟨after, []⟩ := by
  obtain ⟨accepted, rootNe, blank, loaded, stack, created, segments, stacked, stackNe⟩ :=
    created_of_createElfProcess ran
  have isAccepted := accepted_of_imageAccepted accepted
  obtain ⟨building, blankTree⟩ := building_createUserPml4 created rootNe
  obtain ⟨_, done⟩ := building.loadSegments isAccepted segments
  intro va leaf isLow found
  have isSome := Option.isSome_of_eq_some found
  rw [(done.building.setupUserStack stacked).2 stackNe va isLow, done.leaves va isLow,
    blankTree va isLow] at isSome
  rcases isSome with (isSome | mapped) | samePage
  · cases isSome
  · exact .inl (.inl (segmentPage_of_mapped isAccepted mapped))
  · refine .inl (.inr ?_)
    rw [pageNumber, samePage]
    exact pageNumber_stackPage

end Creation

section Runs

variable {image : List Byte} {process : Process} {call : Call}

/-- No page of a segment lies where the first fit places a region. -/
def Vacant (image : List Byte) (length : Word) (vmas : List Vma) : Prop :=
  ∀ ph ∈ loads image, ∀ i < ph.pages,
    ¬ ((vmaFindFree (roundUp length) vmas).toNat ≤ ph.pageVaddr i ∧
      ph.pageVaddr i < (vmaFindFree (roundUp length) vmas).toNat + (roundUp length).toNat)

instance (length : Word) (vmas : List Vma) : Decidable (Vacant image length vmas) :=
  inferInstanceAs (Decidable (∀ ph ∈ loads image, ∀ i < ph.pages, _))

/-- A system call or a page fault in user mode.  Where an eager region is placed
there is no page of a segment. -/
def Call.Clear (image : List Byte) (space : Space) : Call → Prop
  | .mmap length _ flags _ => flags &&& mapLazy = 0 → Vacant image length space.vmas
  | .munmap _ _ => True
  | .demand _ => False
  | .fault _ _ => True

/-- A call that user mode causes. -/
def Call.FromUser : Call → Prop
  | .demand _ => False
  | _ => True

theorem Call.FromUser.low (fromUser : call.FromUser) : call.Low := by
  cases call with
  | demand va => exact fromUser.elim
  | _ => trivial

theorem Call.Clear.fromUser (clear : call.Clear image space) : call.FromUser := by
  cases call with
  | demand va => exact clear.elim
  | _ => trivial

theorem Yields.perform {Result : Type} {called : Except Panic (Result × Space)}
    (yields : Yields clear (fun answer => Covered (FixedPage image) root answer.2) called) :
    Yields clear (fun answer => Covered (FixedPage image) root answer.2)
      (called.map fun result => (true, result.2)) := by
  cases yields with
  | ok covered => exact .ok covered
  | error isOther => exact .error isOther

theorem Placed.not_fixedPage {length : Word} {page : Nat} (placed : Placed length va space.vmas)
    (window : Window space.vmas) (isClear : Vacant image length space.vmas)
    (between : Between va.toNat (va.toNat + (roundUp length).toNat) page) :
    ¬ FixedPage image page := by
  have vaddrEq : vmaFindFree (roundUp length) space.vmas = va := by
    rw [placed.vaddr_eq, vmaFindFree, roundUp_of_aligned (roundUp_aligned length)]
  rw [Vacant, vaddrEq] at isClear
  have startAligned := placed.aligned window
  have below := (placed.isLeast window).1.below
  have endEq : userMmapEnd.toNat = 0x10000000 := rfl
  simp only [Between] at between
  rintro (⟨ph, member, i, pageLt, rfl⟩ | isStack)
  · have aligned := ph.pageVaddr_aligned i
    refine isClear ph member i pageLt ⟨?_, ?_⟩ <;> omega
  · rw [stackNumber_eq] at isStack
    omega

theorem Covered.perform (covered : Covered (FixedPage image) root space)
    (window : Window space.vmas) (owns : Owns others root space.machine)
    (fromUser : call.FromUser) :
    Yields (call.Clear image space) (fun answer => Covered (FixedPage image) root answer.2)
      (call.perform root space) := by
  cases call with
  | mmap length prot flags kmallocOk =>
    refine (covered.doMmap window owns ?_).perform
    exact fun isClear va placed eager page => placed.not_fixedPage window (isClear eager)
  | munmap addr length => exact (covered.doMunmap window owns).perform
  | demand va => exact fromUser.elim
  | fault cr2 errorCode => exact covered.pageFaultHandler window owns

theorem covered_of_reachable {kernelPml4 : Frame} {argv : List (List Byte)} {grants : Grants}
    (created : createElfProcess kernelPml4 image argv grants m = .ok (some root, first))
    (reached : (processRuns root first).ReachableWhere (fun _ call => call.FromUser) process) :
    Window process.space.vmas ∧ (∃ others, Owns others root process.space.machine) ∧
      Covered (FixedPage image) root process.space := by
  induction reached with
  | start initially =>
    cases initially
    exact ⟨window_nil, owns_createElfProcess created, covered_createElfProcess created⟩
  | next _ fromUser ran ih =>
    obtain ⟨_, performed⟩ := perform_of_step ran
    obtain ⟨window, ⟨others, owns⟩, covered⟩ := ih
    have kept := covered.perform window owns fromUser
    rw [performed] at kept
    exact ⟨window.perform performed, ⟨others, owns.perform window fromUser.low performed⟩,
      kept.of_ok⟩

/-- No page is mapped twice when the segments leave the stack page and the places of eager
regions alone. -/
theorem never_overwrites {kernelPml4 : Frame} {argv : List (List Byte)} {grants : Grants}
    (stackClear : StackClear image) :
    createElfProcess kernelPml4 image argv grants m ≠ .error .overwritingMapping ∧
      ∀ (root : Frame) (first : Machine) (process : Process) (call : Call),
        createElfProcess kernelPml4 image argv grants m = .ok (some root, first) →
        (processRuns root first).ReachableWhere (fun process call =>
          call.Clear image process.space) process → call.Clear image process.space →
        call.perform root process.space ≠ .error .overwritingMapping := by
  refine ⟨createElfProcess_ne stackClear, ?_⟩
  intro root first process call created reached clear
  obtain ⟨window, ⟨others, owns⟩, covered⟩ :=
    covered_of_reachable created (reached.mono fun _ _ => Call.Clear.fromUser)
  exact (covered.perform window owns clear.fromUser).ne clear

instance : Decidable (StackClear image) :=
  inferInstanceAs (Decidable (∀ ph ∈ loads image, ∀ i < ph.pages, _))

instance (space : Space) (call : Call) : Decidable (call.Clear image space) :=
  match call with
  | .mmap length _ flags _ =>
    inferInstanceAs (Decidable (flags &&& mapLazy = 0 → Vacant image length space.vmas))
  | .munmap _ _ => .isTrue trivial
  | .demand _ => .isFalse id
  | .fault _ _ => .isTrue trivial

def eagerCall : Call := .mmap 0x1000 protWrite 0 true

def eagerProcess : Process :=
  (step 2 (createdProcess smallMachine) eagerCall).getD (createdProcess smallMachine)

theorem reachable_eagerProcess {allowed : Process → Call → Prop}
    (permitted : allowed (createdProcess smallMachine) eagerCall) :
    (processRuns 2 smallMachine).ReachableWhere allowed eagerProcess := by
  have enabled : (step 2 (createdProcess smallMachine) eagerCall).isSome = true := by
    decide +kernel
  obtain ⟨after, ran⟩ := Option.isSome_iff_exists.mp enabled
  have stepped : (processRuns 2 smallMachine).step (createdProcess smallMachine) eagerCall =
      some after := by
    rw [← ran, processRuns, system]
  rw [eagerProcess, ran]
  exact .next (.start rfl) permitted stepped

theorem never_overwrites_eagerProcess : StackClear smallImage ∧ eagerProcess.space.vmas.length = 1 ∧
      eagerCall.perform 2 eagerProcess.space ≠ .error .overwritingMapping := by
  have stackClear : StackClear smallImage := by decide +kernel
  have regions : eagerProcess.space.vmas.length = 1 := by decide +kernel
  have clear : eagerCall.Clear smallImage eagerProcess.space := by decide +kernel
  have first : eagerCall.Clear smallImage (createdProcess smallMachine).space := by decide +kernel
  exact ⟨stackClear, regions, (never_overwrites stackClear).2 2 smallMachine eagerProcess
    eagerCall smallCreation_eq (reachable_eagerProcess first) clear⟩

def panicOf {Result : Type} : Except Panic Result → Option Panic
  | .error reason => some reason
  | .ok _ => none

theorem error_of_panicOf {Result : Type} {outcome : Except Panic Result} {reason : Panic}
    (panics : panicOf outcome = some reason) : outcome = .error reason := by
  cases outcome with
  | error other =>
    cases panics
    rfl
  | ok result => cases panics

def stackImage : List Byte :=
  headersOnly 0x7fffffffe000 [⟨ptLoad, 5, 0, 0x7fffffffe000, 0, 0x1000⟩]

def windowImage : List Byte := headersOnly 0x04000000 [⟨ptLoad, 5, 0, 0x04000000, 0, 0x1000⟩]

def windowMachine : Machine :=
  ((createElfProcess 1 windowImage [[0x61]] allGranted bootMachine).toOption.map Prod.snd).getD
    bootMachine

/-- A segment on the stack page makes `create_elf_process` panic, and a segment in
the window makes `do_mmap` panic. -/
theorem overwrites_stack_and_window :
    createElfProcess 1 stackImage [[0x61]] allGranted bootMachine = .error .overwritingMapping ∧
      (createElfProcess 1 windowImage [[0x61]] allGranted bootMachine).toOption.map Prod.fst =
        some (some 2) ∧
      eagerCall.perform 2 (createdProcess windowMachine).space = .error .overwritingMapping :=
  ⟨error_of_panicOf (by decide +kernel), by decide +kernel, error_of_panicOf (by decide +kernel)⟩

end Runs

end LaOS.UserSpace
