import LaOS.UserFrames

/-!
# The calls of a process keep its frames

Each sequence of calls that maps or releases pages keeps the invariant on the
frames of a process, whatever allocations fail.
-/

namespace LaOS.UserSpace

open Vmm RadixTree WordBytes

variable {others : Frame → Prop} {root frame phys : Frame} {m after : Machine}
  {va cursor flags : Word} {space last : Space} {pages : Nat}

theorem mapsPage_pageFlags (prot : Word) : MapsPage (pageFlags prot ||| pteUser) := by
  simp only [pageFlags]
  constructor
  all_goals
    split
    all_goals
      split <;> decide

theorem mapsPage_demandFlags (vma : Option Vma) : MapsPage (demandFlags vma ||| pteUser) := by
  cases vma with
  | none => exact ⟨by decide, by decide, by decide⟩
  | some vma => exact mapsPage_pageFlags _

theorem mapsPage_segment (ph : Phdr) : MapsPage ph.pteFlags := by
  simp only [Phdr.pteFlags]
  cases ph.writable with
  | false | true =>
    cases ph.executable with
    | false | true => exact ⟨by decide, by decide, by decide⟩

section

variable (owns : Owns others root m)

include owns

theorem Owns.not_other (free : m.allocated frame = false) : ¬ others frame := by
  intro isOther
  cases free.symm.trans ((owns.allocated frame).mpr (.inl isOther))

theorem Owns.granted_grows (free : m.allocated phys = false) {answers : List Frame}
    (grows : Grows low root (UserSpace.granted m phys answers) after) :
    Owns (fun other => others other ∨ other = phys) root after :=
  (owns.granted free answers).grows grows

theorem Owns.mapFresh (inScope : low (pml4Idx va)) (flagsOk : MapsPage (flags ||| pteUser))
    (ran : mapFresh root va flags m = .ok (phys, after)) : Owns others root after := by
  have effect := @mapFresh_effect root m va flags owns.tree inScope
  rw [ran] at effect
  cases effect with
  | refused answers => exact owns.answers answers
  | failed _ free grows =>
    exact (owns.granted_grows free grows).reclaimed (owns.not_other free)
  | mapped physNe free grows reaches pathUser vacant =>
    have stillVacant := (grows.leafOf_eq inScope).trans vacant
    exact (owns.granted_grows free grows).setLeaf inScope reaches
      (owns.not_other free) physNe stillVacant flagsOk pathUser

theorem Owns.releasePage (inScope : low (pml4Idx va))
    (ran : releasePage root va m = .ok after) : Owns others root after := by
  have effect := releasePage_effect owns.tree inScope fun leaf found => owns.inUse inScope found
  rw [ran] at effect
  cases effect with
  | absent vacant same =>
    rcases same with rfl | ⟨table, reaches, rfl⟩
    · exact owns
    · exact owns.clearAbsent inScope reaches vacant
  | released found reaches =>
    refine (owns.clearLeaf inScope reaches found).reclaimed ?_
    exact owns.apart _ (.inr ⟨va, _, inScope, found, rfl⟩)

end

theorem low_of_range (bound : cursor.toNat + (pages + 1) * 4096 ≤ 2 ^ 47) :
    low (pml4Idx cursor) ∧ (cursor + 0x1000).toNat + pages * 4096 ≤ 2 ^ 47 := by
  have pageEq : (0x1000 : Word).toNat = 4096 := rfl
  refine ⟨low_of_lt (by omega), ?_⟩
  rw [BitVec.toNat_add]
  omega

theorem Owns.populate (owns : Owns others root m)
    (flagsOk : MapsPage (flags ||| pteUser)) (bound : cursor.toNat + pages * 4096 ≤ 2 ^ 47)
    {stopped : Option Word}
    (ran : populate root flags pages cursor m = .ok (stopped, after)) :
    Owns others root after := by
  induction pages generalizing cursor m with
  | zero =>
    cases ran
    exact owns
  | succ pages ih =>
    obtain ⟨inScope, restBound⟩ := low_of_range bound
    rw [UserSpace.populate] at ran
    split at ran
    · cases ran
    next mapped =>
    have mappedOwns := owns.mapFresh inScope flagsOk mapped
    split at ran
    · cases ran
      exact mappedOwns
    · exact ih mappedOwns restBound ran

theorem Owns.release (owns : Owns others root m)
    (bound : cursor.toNat + pages * 4096 ≤ 2 ^ 47)
    (ran : release root pages cursor m = .ok after) : Owns others root after := by
  induction pages generalizing cursor m with
  | zero =>
    cases ran
    exact owns
  | succ pages ih =>
    obtain ⟨inScope, restBound⟩ := low_of_range bound
    rw [UserSpace.release] at ran
    split at ran
    · cases ran
    · next released => exact ih (owns.releasePage inScope released) restBound ran

theorem stopped_of_populate {stopped : Word} (bound : cursor.toNat + pages * 4096 ≤ 2 ^ 47)
    (ran : populate root flags pages cursor m = .ok (some stopped, after)) :
    ∃ done < pages, stopped.toNat = cursor.toNat + done * 4096 := by
  induction pages generalizing cursor m with
  | zero => cases ran
  | succ pages ih =>
    have pageEq : (0x1000 : Word).toNat = 4096 := rfl
    rw [UserSpace.populate] at ran
    split at ran
    · cases ran
    split at ran
    · cases ran
      exact ⟨0, by omega, by omega⟩
    · obtain ⟨done, doneLt, stopEq⟩ := ih (low_of_range bound).2 ran
      rw [BitVec.toNat_add] at stopEq
      exact ⟨done + 1, by omega, by omega⟩

theorem Placed.bound {length : Word} {vmas : List Vma} (placed : Placed length va vmas)
    (window : Window vmas) :
    va.toNat + (roundUp length).toNat / 4096 * 4096 ≤ userMmapEnd.toNat := by
  have below := (placed.isLeast window).1.below
  omega

theorem Placed.stopped {length : Word} {vmas : List Vma} {stopped : Word}
    (placed : Placed length va vmas) (window : Window vmas)
    (ran : populate root flags ((roundUp length).toNat / 4096) va m =
      .ok (some stopped, after)) : (stopped - va).toNat / 4096 < (roundUp length).toNat / 4096 ∧
      stopped.toNat = va.toNat + (stopped - va).toNat / 4096 * 4096 ∧
      va.toNat + (stopped - va).toNat / 4096 * 4096 ≤ 2 ^ 47 := by
  have bound := placed.bound window
  have endEq : userMmapEnd.toNat = 0x10000000 := rfl
  obtain ⟨done, doneLt, stopEq⟩ := stopped_of_populate (by omega) ran
  have difference : (stopped - va).toNat = done * 4096 := by
    rw [BitVec.toNat_sub]
    omega
  omega

theorem Owns.doMmap (owns : Owns others root space.machine) (window : Window space.vmas)
    {length prot mmapFlags result : Word} {kmallocOk : Bool}
    (ran : doMmap root length prot mmapFlags kmallocOk space = .ok (result, last)) :
    Owns others root last.machine := by
  have endEq : userMmapEnd.toNat = 0x10000000 := rfl
  have effect := @doMmap_effect root length prot mmapFlags kmallocOk space
  rw [ran] at effect
  cases effect with
  | refused => exact owns
  | deferred => exact owns
  | populated placed _ filled =>
    have bound := placed.bound window
    exact owns.populate (mapsPage_pageFlags prot) (by omega) filled
  | rolledBack placed _ stopped released =>
    have bound := placed.bound window
    have populated := owns.populate (mapsPage_pageFlags prot) (by omega) stopped
    exact populated.release (placed.stopped window stopped).2.2 released

theorem munmap_bound {vmas : List Vma} {addr length : Word} {vma : Vma} (window : Window vmas)
    (member : vma ∈ vmas) (atStop : vma.stop = addr + length)
    (inRange : addr.toNat + length.toNat < 2 ^ 64) :
    addr.toNat + length.toNat / 4096 * 4096 ≤ 2 ^ 47 := by
  have endEq : userMmapEnd.toNat = 0x10000000 := rfl
  have stopLe := (window.ordered.mem member).2.2
  have stopEq : vmaStop vma = addr.toNat + length.toNat := by
    rw [vmaStop, atStop, BitVec.toNat_add, Nat.mod_eq_of_lt inRange]
  omega

variable {result : Bool}

theorem Owns.doMunmap (owns : Owns others root space.machine) (window : Window space.vmas)
    {addr length : Word} (ran : doMunmap root addr length space = .ok (result, last)) :
    Owns others root last.machine := by
  have effect := @doMunmap_effect root length space addr
  rw [ran] at effect
  cases effect with
  | refused => exact owns
  | removed member atStart atStop inRange released =>
    exact owns.release (munmap_bound window member atStop inRange) released

theorem low_page (inScope : low (pml4Idx va)) : low (pml4Idx (va &&& ~~~4095)) := by
  have same : pml4Idx (va &&& ~~~4095) = pml4Idx va := pml4Idx_page
  rwa [same]

theorem Owns.pageFaultDemand (owns : Owns others root space.machine)
    (inScope : low (pml4Idx va)) (ran : pageFaultDemand root va space = .ok (result, last)) :
    Owns others root last.machine := by
  rw [UserSpace.pageFaultDemand] at ran
  split at ran
  · cases ran
  · cases ran
    exact owns
  · split at ran <;> cases ran
    next mapped => exact owns.mapFresh (low_page inScope) (mapsPage_demandFlags _) mapped

theorem inside_of_vmaFind {vmas : List Vma} {vma : Vma} (found : vmaFind va vmas = some vma) :
    vma ∈ vmas ∧ vma.start ≤ va ∧ va < vma.stop := by
  have inside := List.find?_some found
  simp only [decide_eq_true_eq] at inside
  exact ⟨List.mem_of_find?_eq_some found, inside⟩

theorem low_of_vmaFind {vmas : List Vma} {vma : Vma} (window : Window vmas)
    (found : vmaFind va vmas = some vma) : low (pml4Idx va) := by
  have endEq : userMmapEnd.toNat = 0x10000000 := rfl
  obtain ⟨member, _, below⟩ := inside_of_vmaFind found
  have stopLe : vma.stop.toNat ≤ userMmapEnd.toNat := (window.ordered.mem member).2.2
  rw [BitVec.lt_def] at below
  exact low_of_lt (by omega)

theorem Owns.pageFaultHandler (owns : Owns others root space.machine)
    (window : Window space.vmas) {errorCode : Word}
    (ran : pageFaultHandler root va errorCode space = .ok (result, last)) :
    Owns others root last.machine := by
  simp only [UserSpace.pageFaultHandler] at ran
  split at ran
  · cases ran
    exact owns
  split at ran
  · cases ran
    exact owns
  next found =>
  split at ran
  · simp only [Option.isNone_iff_eq_none] at found
    obtain ⟨vma, isFound⟩ := Option.ne_none_iff_exists'.mp found
    exact owns.pageFaultDemand (low_of_vmaFind window isFound) ran
  · cases ran
    exact owns

/-- `page_fault_demand` is called for an address in the lower half. -/
def Call.Low : Call → Prop
  | .demand vaddr => low (pml4Idx vaddr)
  | _ => True

theorem Owns.perform (owns : Owns others root space.machine) (window : Window space.vmas)
    {call : Call} {goesOn : Bool} (isLow : call.Low)
    (ran : call.perform root space = .ok (goesOn, last)) : Owns others root last.machine := by
  cases call with
  | mmap length prot flags kmallocOk =>
    obtain ⟨result, called⟩ := result_of_perform ran
    exact owns.doMmap window called
  | munmap addr length =>
    obtain ⟨result, called⟩ := result_of_perform ran
    exact owns.doMunmap window called
  | demand va =>
    obtain ⟨result, called⟩ := result_of_perform ran
    exact owns.pageFaultDemand isLow called
  | fault cr2 errorCode => exact owns.pageFaultHandler window ran

def Overwritten (frame : Frame) (before after : Machine) : Prop :=
  ∃ content, after = before.fill frame content

theorem Overwritten.refl (frame : Frame) (m : Machine) : Overwritten frame m m :=
  ⟨m.memory frame, by simp [Machine.fill]⟩

theorem Overwritten.trans {before mid : Machine} (first : Overwritten frame before mid)
    (second : Overwritten frame mid after) : Overwritten frame before after := by
  obtain ⟨content, rfl⟩ := first
  obtain ⟨later, rfl⟩ := second
  exact ⟨later, by simp [Machine.fill]⟩

variable {size : Nat}

theorem overwritten_store {start : Nat} {content : Nat → Byte} :
    Overwritten frame m (store frame start size content m) :=
  ⟨_, rfl⟩

variable {image : List Byte} {ph : Phdr} {i : Nat}

theorem overwritten_copyPage : Overwritten frame m (copyPage image ph i frame m) :=
  overwritten_store.trans overwritten_store

theorem overwritten_writeWords {index : Nat} {words : List Word} :
    Overwritten frame m (writeWords frame index words m) := by
  induction words generalizing index m with
  | nil => exact .refl frame m
  | cons word words ih =>
    have written : Overwritten frame m
        (m.write frame (BitVec.ofNat 9 index) word) := ⟨_, rfl⟩
    exact written.trans ih

theorem overwritten_copyStrings {strings : List (List Byte)} {offset : Nat}
    {addresses : List Word} :
    Overwritten frame m (copyStrings frame strings offset addresses m).2 := by
  induction strings generalizing offset addresses m with
  | nil => exact .refl frame m
  | cons string strings ih =>
    simp only [copyStrings]
    split
    · exact .refl frame m
    · exact overwritten_store.trans ih

section Blank

variable (blank : ∀ index, low index → m.memory root index = 0)
include blank

theorem tableAt_of_blank {path : List Index} {table : Frame} (isInside : Inside low path)
    (reaches : tableAt m root path = some table) : path = [] ∧ table = root := by
  cases path with
  | nil =>
    cases reaches
    exact ⟨rfl, rfl⟩
  | cons index path =>
    have isLow := isInside.2 index rfl
    have absent : child (m.memory root index) = none :=
      child_of_absent (by rw [blank index isLow]; exact present_zero)
    rw [tableAt, descend_cons, absent] at reaches
    cases reaches

theorem leafOf_of_blank (inScope : low (pml4Idx va)) : leafOf m root va = none := by
  cases found : leafOf m root va with
  | none => rfl
  | some leaf =>
    obtain ⟨table, reaches⟩ := Option.isSome_iff_exists.mp (leafOf_isSome found)
    have noDirs := (tableAt_of_blank blank (inside_dirs inScope) reaches).1
    simp [dirs] at noDirs

theorem owns_of_blank (allocated : m.allocated root = true) (rootNe : root ≠ 0) :
    Owns (fun frame => m.allocated frame = true ∧ frame ≠ root) root m := by
  have noLeaf : ∀ {va leaf}, low (pml4Idx va) → leafOf m root va ≠ some leaf := by
    intro va leaf inScope found
    cases found.symm.trans (leafOf_of_blank blank inScope)
  have heldIff : ∀ frame, Held root m frame ↔ frame = root := by
    intro frame
    constructor
    · rintro (⟨path, isInside, reaches⟩ | ⟨va, leaf, inScope, found, _⟩)
      · exact (tableAt_of_blank blank isInside reaches).2
      · exact absurd found (noLeaf inScope)
    · rintro rfl
      exact .inl tableFrame_root
  refine ⟨⟨?_, ?_, ?_⟩, ?_, ?_, ?_, ?_, ?_, fun va leaf inScope found =>
    absurd found (noLeaf inScope)⟩
  · intro left right node leftInside rightInside leftReaches rightReaches
    rw [(tableAt_of_blank blank leftInside leftReaches).1,
      (tableAt_of_blank blank rightInside rightReaches).1]
  · intro path table isInside reaches
    rw [(tableAt_of_blank blank isInside reaches).2]
    exact allocated
  · intro path table index isInside reaches isPresent
    have pathInside := inside_closed low path index isInside
    obtain ⟨rfl, rfl⟩ := tableAt_of_blank blank pathInside reaches
    rw [blank index (isInside.2 index rfl)] at isPresent
    cases isPresent
  · intro frame
    rw [heldIff]
    by_cases same : frame = root
    · simp [same, allocated]
    · simp [same]
  · intro frame held
    rw [(heldIff frame).mp held]
    simp
  · rintro frame ⟨va, leaf, inScope, found, _⟩
    exact absurd found (noLeaf inScope)
  · intro first second leaf other firstLow _ firstFound
    exact absurd firstFound (noLeaf firstLow)
  · rw [heldIff]
    exact rootNe.symm

end Blank

variable {kernelPml4 : Frame}

theorem blank_createUserPml4 (created : vmmCreateUserPml4 kernelPml4 m = (root, after))
    (rootNe : root ≠ 0) :
    (∀ index, low index → after.memory root index = 0) ∧ after.allocated root = true := by
  rcases pmmAlloc_cases m with ⟨answers, refused⟩ | ⟨frame, answers, _, _, allocates⟩
  · simp only [vmmCreateUserPml4, refused] at created
    exact absurd (congrArg Prod.fst created).symm rootNe
  simp only [vmmCreateUserPml4, allocates] at created
  cases created
  refine ⟨fun index isLow => ?_, ?_⟩
  · rw [low] at isLow
    simp [Machine.fill, isLow]
  · simp [Machine.fill]

theorem toNat_pageVaddr (bound : ph.pageVaddr i < 2 ^ 47) :
    (BitVec.ofNat 64 (ph.pageVaddr i)).toNat = ph.pageVaddr i :=
  (BitVec.toNat_ofNat _ _).trans (Nat.mod_eq_of_lt (by omega))

theorem low_pageVaddr (bound : ph.pageVaddr i < 2 ^ 47) :
    low (pml4Idx (BitVec.ofNat 64 (ph.pageVaddr i))) := by
  refine low_of_lt ?_
  rwa [toNat_pageVaddr bound]

theorem Phdr.bounds_of_accepted (isAccepted : ph.accepted size = true) :
    ph.filesz ≤ ph.memsz ∧ ph.vaddr + ph.memsz ≤ userStackTop := by
  simp only [accepted, Bool.not_eq_true', decide_eq_false_iff_not, not_or, not_lt] at isAccepted
  omega

theorem Phdr.pageVaddr_lt (isAccepted : ph.accepted size = true)
    (pageLt : i < ph.pages) : ph.pageVaddr i < userStackTop := by
  have bounds := (bounds_of_accepted isAccepted).2
  simp only [pages, pageVaddr, pageBase] at pageLt ⊢
  omega

theorem low_stackPage : low (pml4Idx stackPage) := low_of_lt (by decide)

theorem accepted_of_imageAccepted (accepted : imageAccepted image = true) :
    ∀ ph ∈ loads image, ph.accepted image.length = true := by
  simp only [imageAccepted] at accepted
  split at accepted
  · cases accepted
  split at accepted
  · cases accepted
  split at accepted
  · cases accepted
  · rw [Bool.and_eq_true] at accepted
    exact List.all_eq_true.mp accepted.1

end LaOS.UserSpace
