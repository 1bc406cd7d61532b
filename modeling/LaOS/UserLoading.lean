import LaOS.UserRollback

/-!
# Loading segments when mapping fails

`elf_load_segment` does not look at the result of `vmm_map_specific`, so the frame of
the page is lost when no frame is left for a table.
-/

namespace LaOS.UserSpace

open List Function Vmm RadixTree WordBytes

variable {root phys frame kernelPml4 : Frame} {m before after : Machine} {va flags : Word}
  {lost : List Frame} {image : List Byte} {argv : List (List Byte)} {ph : Phdr}

/-- The pages for which `elf_load_segment` finds a frame, and whether they have a
mapping then. -/
def pageAttempts (root : Frame) (image : List Byte) (ph : Phdr) :
    Nat → Nat → Machine → List (Word × Bool)
  | 0, _, _ => []
  | pages + 1, i, m =>
    let vaddr := BitVec.ofNat 64 (ph.pageVaddr i)
    match segmentFrame root vaddr ph.pteFlags m with
    | .error _ => []
    | .ok (phys, after) =>
      if phys = 0 then []
      else (vaddr, !mapSpecificFails root vaddr ph.pteFlags m) ::
        pageAttempts root image ph pages (i + 1) (copyPage image ph i phys after)

def segmentAttempts (root : Frame) (image : List Byte) : List Phdr → Machine → List (Word × Bool)
  | [], _ => []
  | ph :: phs, m =>
    pageAttempts root image ph ph.pages 0 m ++
      match elfLoadSegment root image ph m with
      | .ok (true, after) => segmentAttempts root image phs after
      | _ => []

theorem Building.claim {table : Frame} (building : Building before (phys :: lost) root m)
    (lostNew : ∀ frame ∈ lost, frame ≠ 0 ∧ before.allocated frame = false)
    (notPrior : ¬ Prior before lost phys) (inScope : low (pml4Idx va))
    (reaches : tableAt m root (dirs va) = some table)
    (vacant : leafOf m root va = none) (flagsOk : MapsPage flags)
    (pathUser : user flags = true → PathUser m root va) :
    Building before lost root (m.write table (ptIdx va) (pageEntry phys flags)) := by
  have shared : Owns (fun other => Prior before lost other ∨ other = phys) root m :=
    building.owns.congr fun other => by
      simp only [Prior, mem_cons]
      tauto
  have physNe := (building.lostNew phys mem_cons_self).1
  refine building.next (.of_subset rfl fun _ => id)
    (shared.setLeaf inScope reaches notPrior physNe vacant flagsOk pathUser) lostNew
    fun frame differs => ?_
  have isTable : frame = table := by
    by_contra frameNe
    exact differs (update_of_ne frameNe _ _)
  rw [isTable]
  refine .inl (.inl ((tableFrame_write shared.tree inScope reaches).mpr ?_))
  exact ⟨_, inside_dirs inScope, reaches⟩

structure PageStep (before : Machine) (lost : List Frame) (root : Frame) (vaddr : Word)
    (m : Machine) (fails : Bool) (phys : Frame) (after : Machine) : Prop where
  building : Building before (if fails then phys :: lost else lost) root after
  own : Held root after phys ∨ fails = true
  notTable : ¬ TableFrame root after phys
  leaves : ∀ other, low (pml4Idx other) →
    ((leafOf after root other).isSome = true ↔
      (leafOf m root other).isSome = true ∨ pageOf other = pageOf vaddr ∧ fails = false)

variable {mid : Machine}

theorem Building.mapsNew {answers : List Frame} {table : Frame}
    (building : Building before lost root m) (inScope : low (pml4Idx va))
    (flagsOk : MapsPage flags) (draws : Draws m mid) (physNe : phys ≠ 0)
    (free : m.allocated phys = false)
    (grows : Grows low root (granted m phys answers) mid)
    (reaches : tableAt mid root (dirs va) = some table)
    (pathUser : user flags = true → PathUser mid root va)
    (vacant : leafOf m root va = none) : PageStep before lost root va m false phys
      (mid.write table (ptIdx va) (pageEntry phys flags)) := by
  have grown := building.grows draws physNe free grows
  have stillVacant := (grows.leafOf_eq inScope).trans vacant
  have leafEq : ∀ other, low (pml4Idx other) →
      leafOf (mid.write table (ptIdx va) (pageEntry phys flags)) root other =
        if pageOf other = pageOf va then some (pageEntry phys flags)
        else leafOf m root other := by
    intro other isLow
    rw [leafOf_setLeaf grows.ok inScope reaches flagsOk isLow, grows.leafOf_eq isLow]
    rfl
  have claimed := grown.claim building.lostNew (building.notPrior free) inScope reaches
    stillVacant flagsOk pathUser
  have isLeaf : LeafFrame root (mid.write table (ptIdx va) (pageEntry phys flags)) phys :=
    ⟨va, _, inScope, by rw [leafEq va inScope, if_pos rfl], frameOf_pageEntry flagsOk⟩
  refine ⟨claimed, .inl (.inr isLeaf), claimed.owns.leafNotTable _ isLeaf, fun other isLow => ?_⟩
  rw [leafEq other isLow]
  split
  next samePage => simp [samePage]
  next differs => simp [differs]

theorem Building.segmentFrame (building : Building before lost root m)
    (inScope : low (pml4Idx va)) (flagsOk : MapsPage flags)
    (called : segmentFrame root va flags m = .ok (phys, after)) :
    (phys = 0 ∧ Building before lost root after ∧ SameTree root m after) ∨
      (phys ≠ 0 ∧ PageStep before lost root va m
        (mapSpecificFails root va flags m) phys after) := by
  have owns := building.owns
  have effect := @segmentFrame_effect root m va flags owns.tree inScope fun leaf found =>
    (owns.inUse inScope found).1
  have draws := draws_segmentFrame called
  rw [called] at effect
  generalize mapSpecificFails root va flags m = fails at effect ⊢
  cases effect with
  | @present leaf found =>
    refine .inr ⟨(owns.inUse inScope found).1, building, .inl (.inr ⟨va, leaf, inScope, found,
      rfl⟩), owns.leafNotTable _ ⟨va, leaf, inScope, found, rfl⟩, fun other isLow => ?_⟩
    refine ⟨.inl, fun isSome => isSome.elim id fun samePage => ?_⟩
    rw [leafOf_eq_of_pageOf samePage.1, found]
    rfl
  | refused answers =>
    exact .inl ⟨rfl, building.next draws (owns.answers answers) building.lostNew
      fun frame differs => absurd rfl differs, sameTree_of_memory rfl⟩
  | lost physNe free grows vacant =>
    have grown := building.grows draws physNe free grows
    refine .inr ⟨physNe, grown, .inr rfl, fun isTable => ?_, fun other isLow => ?_⟩
    · exact grown.owns.apart _ (.inl isTable) (.inr mem_cons_self)
    · rw [grows.leafOf_eq isLow]
      simp only [Bool.true_eq_false, and_false, or_false]
      rfl
  | mapped physNe free grows reaches pathUser vacant =>
    exact .inr ⟨physNe, building.mapsNew inScope flagsOk (draws.wrote rfl rfl) physNe free grows
      reaches pathUser vacant⟩

def Mapped (attempts : List (Word × Bool)) (vaddr : Word) : Prop :=
  ∃ attempt ∈ attempts, pageOf attempt.1 = pageOf vaddr ∧ attempt.2 = true

variable {first second : List (Word × Bool)}

theorem mapped_append :
    Mapped (first ++ second) va ↔ Mapped first va ∨ Mapped second va := by
  simp only [Mapped, mem_append, or_and_right, exists_or]

structure Loaded (before : Machine) (lost : List Frame) (root : Frame) (m : Machine)
    (attempts : List (Word × Bool)) (after : Machine) (others : List Frame) : Prop where
  building : Building before others root after
  nothingLost : others = lost ↔ ∀ attempt ∈ attempts, attempt.2 = true
  leaves : ∀ other, low (pml4Idx other) →
    ((leafOf after root other).isSome = true ↔
      (leafOf m root other).isSome = true ∨ Mapped attempts other)
  grows : lost <:+ others

theorem Building.loaded (building : Building before lost root m) :
    Loaded before lost root m [] m lost :=
  ⟨building, by simp, by simp [Mapped], suffix_rfl⟩

theorem Loaded.trans {others last : List Frame}
    (loaded : Loaded before lost root m first mid others)
    (later : Loaded before others root mid second after last) :
    Loaded before lost root m (first ++ second) after last := by
  refine ⟨later.building, ?_, fun other isLow => ?_, loaded.grows.trans later.grows⟩
  · simp only [mem_append, or_imp, forall_and, ← loaded.nothingLost, ← later.nothingLost]
    constructor
    · rintro rfl
      have same := loaded.grows.eq_of_length_le later.grows.length_le
      exact ⟨same.symm, same⟩
    · rintro ⟨rfl, rfl⟩
      rfl
  · rw [later.leaves other isLow, loaded.leaves other isLow, mapped_append, or_assoc]

theorem PageStep.copied {fails : Bool} {copied : Machine}
    (step : PageStep before lost root va m fails phys after)
    (copies : Overwritten phys after copied) :
    Building before (if fails then phys :: lost else lost) root copied ∧
      SameTree root after copied := by
  refine step.building.overwritten (step.own.imp_right fun isLost => ?_) step.notTable copies
  rw [isLost]
  exact mem_cons_self

theorem PageStep.loaded {fails : Bool} {copied : Machine}
    (step : PageStep before lost root va m fails phys after)
    (copies : Overwritten phys after copied) :
    Loaded before lost root m [(va, !fails)] copied
      (if fails then phys :: lost else lost) := by
  obtain ⟨building, sameTree⟩ := step.copied copies
  refine ⟨building, ?_, fun other isLow => ?_, ?_⟩
  · cases fails <;> simp
  · have samePage : pageOf other = pageOf va ↔ pageOf va = pageOf other := eq_comm
    rw [sameTree.leaves other isLow, step.leaves other isLow, samePage]
    simp only [Mapped, mem_singleton, exists_eq_left, Bool.not_eq_true']
  · split
    · exact suffix_cons _ _
    · exact suffix_rfl

variable {success : Bool}

theorem Building.loadPages {pages i : Nat} (building : Building before lost root m)
    (bound : ∀ page, page < i + pages → ph.pageVaddr page < 2 ^ 47)
    (called : loadPages root image ph pages i m = .ok (success, after)) :
    ∃ others, Loaded before lost root m (pageAttempts root image ph pages i m) after
      others := by
  induction pages generalizing i m lost with
  | zero =>
    cases called
    exact ⟨lost, building.loaded⟩
  | succ pages ih =>
    rw [UserSpace.loadPages] at called
    split at called
    · cases called
    next phys chosen found =>
      simp only [pageAttempts, found]
      have inScope := low_pageVaddr (bound i (by omega))
      rcases building.segmentFrame inScope (mapsPage_segment ph) found with
        ⟨physEq, kept, same⟩ | ⟨physNe, step⟩
      · simp only [if_pos physEq] at called ⊢
        cases called
        refine ⟨lost, kept, by simp, fun other isLow => ?_, suffix_rfl⟩
        rw [same.leaves other isLow]
        simp [Mapped]
      · simp only [if_neg physNe] at called ⊢
        have first := step.loaded (@overwritten_copyPage phys chosen image ph i)
        obtain ⟨others, loaded⟩ := ih first.building (fun page pageLt => bound page (by omega))
          called
        exact ⟨others, first.trans loaded⟩

theorem Phdr.pageVaddr_bound {size i : Nat} (isAccepted : ph.accepted size = true)
    (pageLt : i < ph.pages) : ph.pageVaddr i < 2 ^ 47 := by
  have := Phdr.pageVaddr_lt isAccepted pageLt
  simp only [userStackTop] at this
  omega

theorem Building.loadSegments {phs : List Phdr} {size : Nat}
    (building : Building before lost root m) (accepted : ∀ ph ∈ phs, ph.accepted size = true)
    (called : loadSegments root image phs m = .ok (success, after)) :
    ∃ others, Loaded before lost root m (segmentAttempts root image phs m) after
      others := by
  induction phs generalizing m lost with
  | nil =>
    cases called
    exact ⟨lost, building.loaded⟩
  | cons ph phs ih =>
    have bound : ∀ page, page < 0 + ph.pages → ph.pageVaddr page < 2 ^ 47 := fun page pageLt =>
      Phdr.pageVaddr_bound (accepted ph mem_cons_self) (by omega)
    rw [UserSpace.loadSegments] at called
    rw [segmentAttempts]
    split at called
    · cases called
    next loadedMachine found =>
      obtain ⟨others, loaded⟩ := building.loadPages bound found
      obtain ⟨last, later⟩ := ih loaded.building
        (fun other mem => accepted other (mem_cons_of_mem _ mem)) called
      simp only [found]
      exact ⟨last, loaded.trans later⟩
    next loadedMachine found =>
      cases called
      obtain ⟨others, loaded⟩ := building.loadPages bound found
      simp only [found, append_nil]
      exact ⟨others, loaded⟩

theorem building_createUserPml4 (created : vmmCreateUserPml4 kernelPml4 m = (root, after))
    (rootNe : root ≠ 0) :
    Building m [] root after ∧ ∀ va, low (pml4Idx va) → leafOf after root va = none := by
  obtain ⟨blank, allocated⟩ := blank_createUserPml4 created rootNe
  have draws : Draws m after := by
    have allocates := (@allocations_of_pmmAlloc m _ _ rfl).draws
    cases created
    exact allocates.wrote rfl rfl
  have fields : m.allocated root = false ∧
      after.allocated = update m.allocated root true ∧
      ∀ frame, frame ≠ root → after.memory frame = m.memory frame := by
    rcases pmmAlloc_cases m with ⟨answers, refused⟩ | ⟨new, answers, _, free, allocates⟩
    · simp only [vmmCreateUserPml4, refused] at created
      exact absurd (congrArg Prod.fst created).symm rootNe
    · simp only [vmmCreateUserPml4, allocates] at created
      cases created
      exact ⟨free, rfl, fun frame frameNe => by simp [Machine.fill, frameNe]⟩
  obtain ⟨free, allocatedEq, sameMemory⟩ := fields
  have owns : Owns (Prior m []) root after := by
    refine (owns_of_blank blank allocated rootNe).congr fun frame => ?_
    simp only [Prior, allocatedEq, not_mem_nil, or_false]
    by_cases same : frame = root
    · simp [same, free]
    · simp [same]
  obtain ⟨drawn, drawsOnly⟩ := draws
  refine ⟨⟨owns, by rintro _ ⟨⟩, drawn, drawsOnly, fun frame differs => ?_⟩, fun va inScope =>
    leafOf_of_blank blank inScope⟩
  have isRoot : frame = root := by
    by_contra frameNe
    exact differs (sameMemory frame frameNe)
  subst isRoot
  refine ⟨rootNe, free, (drawsOnly.allocated frame allocated).resolve_left ?_⟩
  rw [free]
  exact Bool.false_ne_true

theorem Building.mapFresh (building : Building before lost root m)
    (inScope : low (pml4Idx va)) (flagsOk : MapsPage (flags ||| pteUser))
    (called : mapFresh root va flags m = .ok (phys, after)) :
    (phys = 0 ∧ Building before lost root after) ∨
      (phys ≠ 0 ∧ PageStep before lost root va m false phys after) := by
  have owns := building.owns
  have effect := @mapFresh_effect root m va flags owns.tree inScope
  have draws := (allocations_of_mapFresh called).draws
  rw [called] at effect
  cases effect with
  | refused answers =>
    exact .inl ⟨rfl, building.next draws (owns.answers answers) building.lostNew
      fun frame differs => absurd rfl differs⟩
  | failed physNe free grows =>
    refine .inl ⟨rfl, building.next draws ((owns.granted_grows free grows).reclaimed
      (owns.not_other free)) building.lostNew fun frame differs => .inl (.inl ?_)⟩
    by_contra notTable
    refine differs (grows.outside frame fun path isInside reaches => ?_)
    exact notTable ⟨path, isInside, reaches⟩
  | mapped physNe free grows reaches pathUser vacant =>
    exact .inr ⟨physNe, building.mapsNew inScope flagsOk (draws.wrote rfl rfl) physNe free grows
      reaches pathUser vacant⟩

theorem Building.dropStack {stack : Word} {leaf : Word}
    (building : Building before lost root m)
    (found : leafOf m root stackPage = some leaf) (isFrame : frameOf leaf = phys)
    (called : dropStack root phys m = .ok (stack, after)) :
    stack = 0 ∧ Building before lost root after := by
  have owns := building.owns
  obtain ⟨physNe, inUse⟩ := owns.inUse low_stackPage found
  rcases vmmUnmap_effect owns.tree stackPage low_stackPage with ⟨vacant, -⟩ |
    ⟨table, reaches, unmapped⟩
  · cases found.symm.trans vacant
  rw [isFrame] at physNe inUse
  have freed := @pmmFree_of_allocated phys (m.write table (ptIdx stackPage) 0) physNe inUse
  simp only [UserSpace.dropStack, unmapped, freed] at called
  cases called
  have cleared := owns.clearLeaf low_stackPage reaches found
  rw [isFrame] at cleared
  have notPrior := owns.apart phys (.inr ⟨stackPage, leaf, low_stackPage, found, isFrame⟩)
  refine ⟨rfl, building.next ?_ (cleared.reclaimed notPrior) building.lostNew
    fun frame differs => .inl (.inl ?_)⟩
  · refine .of_subset rfl fun other isAllocated => ?_
    by_cases same : other = phys
    · exact same ▸ inUse
    · exact (update_of_ne same _ _).symm.trans isAllocated
  have isTable : frame = table := by
    by_contra frameNe
    exact differs (update_of_ne frameNe _ _)
  rw [isTable]
  refine (tableFrame_write owns.tree low_stackPage reaches).mpr ?_
  exact ⟨_, inside_dirs low_stackPage, reaches⟩

theorem leafOf_mapFresh (ok : TreeOk low root m) (inScope : low (pml4Idx va))
    (flagsOk : MapsPage (flags ||| pteUser)) (physNe : phys ≠ 0)
    (called : mapFresh root va flags m = .ok (phys, after)) :
    ∃ leaf, leafOf after root va = some leaf ∧ frameOf leaf = phys := by
  have effect := @mapFresh_effect root m va flags ok inScope
  rw [called] at effect
  cases effect with
  | refused | failed => exact absurd rfl physNe
  | mapped _ _ grows reaches =>
    refine ⟨pageEntry phys (flags ||| pteUser), ?_, frameOf_pageEntry flagsOk⟩
    rw [leafOf_setLeaf grows.ok inScope reaches flagsOk inScope, if_pos rfl]

theorem Building.setupUserStack {kmallocOk : Bool} {stack : Word}
    (building : Building before lost root m)
    (called : setupUserStack root argv kmallocOk m = .ok (stack, after)) :
    Building before lost root after ∧ (stack ≠ 0 → ∀ other, low (pml4Idx other) →
      ((leafOf after root other).isSome = true ↔
        (leafOf m root other).isSome = true ∨ pageOf other = pageOf stackPage)) := by
  have flagsOk : MapsPage (ptePresent ||| pteWritable ||| pteUser) := ⟨by decide, by decide, by decide⟩
  rw [UserSpace.setupUserStack] at called
  split at called
  · cases called
    exact ⟨building, fun stackNe => absurd rfl stackNe⟩
  split at called
  · cases called
  next phys mapped fresh =>
    rcases building.mapFresh low_stackPage flagsOk fresh with ⟨isZero, kept⟩ | ⟨physNe, step⟩
    · rw [if_pos isZero] at called
      cases called
      exact ⟨kept, fun stackNe => absurd rfl stackNe⟩
    rw [if_neg physNe] at called
    obtain ⟨leaf, found, isFrame⟩ :=
      leafOf_mapFresh building.owns.tree low_stackPage flagsOk physNe fresh
    have isHeld : Held root mapped phys := .inr ⟨stackPage, leaf, low_stackPage, found, isFrame⟩
    have copies : ∀ {copied}, Overwritten phys mapped copied →
        Building before lost root copied ∧ SameTree root mapped copied := fun change =>
      step.building.overwritten (.inl isHeld) step.notTable change
    have dropped : ∀ {copied}, Overwritten phys mapped copied →
        UserSpace.dropStack root phys copied = .ok (stack, after) →
        Building before lost root after ∧ (stack ≠ 0 → ∀ other, low (pml4Idx other) →
          ((leafOf after root other).isSome = true ↔
            (leafOf m root other).isSome = true ∨ pageOf other = pageOf stackPage)) := by
      intro copied change drops
      obtain ⟨kept, same⟩ := copies change
      obtain ⟨isZero, last⟩ := kept.dropStack
        ((same.leaves stackPage low_stackPage).trans found) isFrame drops
      exact ⟨last, fun stackNe => absurd isZero stackNe⟩
    split at called
    · exact dropped (.refl phys mapped) called
    have strings := @overwritten_copyStrings phys mapped argv.reverse 4096 []
    split at called
    next copied copyEq =>
      rw [copyEq] at strings
      exact dropped strings called
    next offset addresses copied copyEq =>
      rw [copyEq] at strings
      simp only at called
      split at called
      · exact dropped strings called
      split at called
      · exact dropped strings called
      cases called
      obtain ⟨kept, same⟩ := copies (strings.trans overwritten_writeWords)
      refine ⟨kept, fun _ other isLow => ?_⟩
      rw [same.leaves other isLow, step.leaves other isLow]
      simp

variable {grants : Grants}

theorem created_of_createElfProcess
    (ran : createElfProcess kernelPml4 image argv grants m = .ok (some root, after)) :
    imageAccepted image = true ∧ root ≠ 0 ∧ ∃ blank loaded stack,
      vmmCreateUserPml4 kernelPml4 m = (root, blank) ∧
      loadSegments root image (loads image) blank = .ok (true, loaded) ∧
      UserSpace.setupUserStack root argv grants.arguments loaded = .ok (stack, after) ∧
      stack ≠ 0 := by
  have notDiscarded : ∀ other m, discard other m ≠ .ok (some root, after) := by
    intro other m discarded
    rw [discard] at discarded
    split at discarded <;> cases discarded
  rw [createElfProcess] at ran
  split at ran
  · cases ran
  next accepted =>
  split at ran
  · cases ran
  split at ran
  · cases ran
  rcases created : vmmCreateUserPml4 kernelPml4 m with ⟨new, blank⟩
  simp only [created] at ran
  split at ran
  · exact absurd ran (notDiscarded _ _)
  next newNe =>
  split at ran
  · cases ran
  · exact absurd ran (notDiscarded _ _)
  · next loaded segments =>
    split at ran
    · cases ran
    next stack built stacked =>
    split at ran
    · exact absurd ran (notDiscarded _ _)
    next stackNe =>
    split at ran
    · exact absurd ran (notDiscarded _ _)
    · cases ran
      exact ⟨by simpa using accepted, newNe, blank, loaded, stack, rfl, segments, stacked, stackNe⟩

theorem owns_createElfProcess
    (ran : createElfProcess kernelPml4 image argv grants m = .ok (some root, after)) :
    ∃ others, Owns others root after := by
  obtain ⟨accepted, rootNe, blank, loaded, stack, created, segments, stacked, _⟩ :=
    created_of_createElfProcess ran
  obtain ⟨building, -⟩ := building_createUserPml4 created rootNe
  obtain ⟨lost, done⟩ := building.loadSegments (accepted_of_imageAccepted accepted) segments
  exact ⟨_, (done.building.setupUserStack stacked).1.owns⟩

end LaOS.UserSpace
