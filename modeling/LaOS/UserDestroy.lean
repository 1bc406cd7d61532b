import LaOS.TreeTraversal
import LaOS.UserLoading

/-!
# The frames of a process are conserved

`thread_destroy` traverses the tree of a process and frees every frame that it
reaches.  Throughout the life of a process these are the frames that it holds.
-/

namespace LaOS.UserSpace

open List Vmm RadixTree WordBytes

variable {others : Frame → Prop} {root frame table : Frame} {m after : Machine}
  {path : List Index} {i : Index} {va : Word}

def next (entry : Word) : Option Frame := if present entry then some (frameOf entry) else none

/-- Paths of at most four indices that begin in the lower half lead to tables and
pages. -/
def LowPath (path : List Index) : Prop :=
  path.length ≤ 4 ∧ ∀ first ∈ path.head?, low first

/-- A path through the lower half of the root leads to a frame. -/
def Reached (root : Frame) (m : Machine) (path : List Index) (frame : Frame) : Prop :=
  LowPath path ∧ descend next m.memory root path = some frame

theorem next_eq_child {entry : Word} (table : present entry = true → huge entry = false) :
    next entry = child entry := by
  cases isPresent : present entry with
  | false => simp [next, child, isPresent]
  | true => simp [next, child, isPresent, table isPresent]

theorem descend_next_eq (ok : TreeOk low root m) (inside : Inside low path) :
    descend next m.memory root path = tableAt m root path := by
  induction path using reverseRecOn with
  | nil => rfl
  | append_singleton path i ih =>
    have shorter : descend next m.memory root path =
        descend child m.memory root path := ih (inside_closed low path i inside)
    rw [tableAt, descend_concat, descend_concat, shorter]
    cases reaches : descend child m.memory root path with
    | none => rfl
    | some table =>
      exact next_eq_child fun isPresent =>
        (ok.directory path table i inside reaches isPresent).notHuge

def pagePath (vaddr : Word) : List Index := dirs vaddr ++ [ptIdx vaddr]

theorem descend_next_page (ok : TreeOk low root m) (inScope : low (pml4Idx va)) :
    descend next m.memory root (pagePath va) =
      (leafOf m root va).map frameOf := by
  rw [pagePath, descend_concat, descend_next_eq ok (inside_dirs inScope), leafOf]
  cases tableAt m root (dirs va) with
  | none => rfl
  | some table =>
    simp only [Option.bind_some, next]
    split <;> rfl

theorem exists_pagePath (first second third fourth : Index) :
    ∃ va, pagePath va = [first, second, third, fourth] := by
  refine ⟨0#16 ++ first ++ second ++ third ++ fourth ++ 0#12, ?_⟩
  have piece : ∀ (start : Nat) (i : Index) (word : Word),
      (∀ bit < 9, word.getLsbD (start + bit) = i.getLsbD bit) →
        word.extractLsb' start 9 = i := by
    intro start i word bits
    refine BitVec.eq_of_getLsbD_eq fun bit bitLt => ?_
    rw [BitVec.getLsbD_extractLsb', bits bit bitLt]
    simp [bitLt]
  simp only [pagePath, dirs, cons_append, nil_append, cons.injEq, and_true]
  refine ⟨piece 39 first _ ?_, piece 30 second _ ?_, piece 21 third _ ?_, piece 12 fourth _ ?_⟩
  all_goals
    simp only [BitVec.getLsbD_append]
    grind

theorem lowPath_cases (isLow : LowPath path) :
    Inside low path ∨ ∃ va, low (pml4Idx va) ∧ path = pagePath va := by
  obtain ⟨lengthLe, headLow⟩ := isLow
  match path, lengthLe, headLow with
  | [], _, headLow => exact .inl ⟨by simp, headLow⟩
  | [_], _, headLow => exact .inl ⟨by simp, headLow⟩
  | [_, _], _, headLow => exact .inl ⟨by simp, headLow⟩
  | [_, _, _], _, headLow => exact .inl ⟨by simp, headLow⟩
  | [first, second, third, fourth], _, headLow =>
    obtain ⟨va, isPath⟩ := exists_pagePath first second third fourth
    refine .inr ⟨va, ?_, isPath.symm⟩
    have isFirst : pml4Idx va = first := by
      have := congrArg head? isPath
      simpa [pagePath, dirs] using this
    rw [isFirst]
    exact headLow first rfl
  | _ :: _ :: _ :: _ :: _ :: _, lengthLe, _ =>
    simp only [length_cons] at lengthLe
    omega

theorem lowPath_of_inside (inside : Inside low path) : LowPath path :=
  ⟨by have := inside.1; omega, inside.2⟩

theorem lowPath_pagePath (inScope : low (pml4Idx va)) : LowPath (pagePath va) :=
  ⟨by simp [pagePath, dirs], by rintro first ⟨⟩; exact inScope⟩

theorem reached_cases (ok : TreeOk low root m) (reached : Reached root m path frame) :
    (Inside low path ∧ tableAt m root path = some frame) ∨
      ∃ va leaf, low (pml4Idx va) ∧ path = pagePath va ∧
        leafOf m root va = some leaf ∧ frameOf leaf = frame := by
  obtain ⟨isLow, reaches⟩ := reached
  rcases lowPath_cases isLow with inside | ⟨va, inScope, rfl⟩
  · exact .inl ⟨inside, (descend_next_eq ok inside).symm.trans reaches⟩
  · rw [descend_next_page ok inScope] at reaches
    obtain ⟨leaf, found, isFrame⟩ := Option.map_eq_some_iff.mp reaches
    exact .inr ⟨va, leaf, inScope, rfl, found, isFrame⟩

theorem reached_iff_held (ok : TreeOk low root m) :
    (∃ path, Reached root m path frame) ↔ Held root m frame := by
  constructor
  · rintro ⟨path, reached⟩
    rcases reached_cases ok reached with isTable | ⟨va, leaf, inScope, _, isLeaf⟩
    · exact .inl ⟨path, isTable⟩
    · exact .inr ⟨va, leaf, inScope, isLeaf⟩
  · rintro (⟨path, inside, reaches⟩ | ⟨va, leaf, inScope, found, isFrame⟩)
    · exact ⟨path, lowPath_of_inside inside, (descend_next_eq ok inside).trans reaches⟩
    · refine ⟨pagePath va, lowPath_pagePath inScope, ?_⟩
      rw [descend_next_page ok inScope, found, Option.map_some, isFrame]

theorem Owns.other_iff (owns : Owns others root m) :
    others frame ↔ m.allocated frame = true ∧ ¬ Held root m frame := by
  rw [owns.allocated]
  constructor
  · exact fun isOther => ⟨.inl isOther, fun held => owns.apart frame held isOther⟩
  · rintro ⟨isOther | held, notHeld⟩
    · exact isOther
    · exact absurd held notHeld

theorem Owns.reached_unique (owns : Owns others root m) {left right : List Index}
    (leftReached : Reached root m left frame)
    (rightReached : Reached root m right frame) : left = right := by
  rcases reached_cases owns.tree leftReached with ⟨leftInside, leftTable⟩ |
    ⟨leftPage, leftLeaf, leftLow, rfl, leftFound, leftFrame⟩
  · rcases reached_cases owns.tree rightReached with ⟨rightInside, rightTable⟩ |
      ⟨rightPage, rightLeaf, rightLow, rfl, rightFound, rightFrame⟩
    · exact owns.tree.unshared left right frame leftInside rightInside leftTable rightTable
    · exact absurd ⟨left, leftInside, leftTable⟩
        (owns.leafNotTable frame ⟨rightPage, rightLeaf, rightLow, rightFound, rightFrame⟩)
  rcases reached_cases owns.tree rightReached with ⟨rightInside, rightTable⟩ |
    ⟨rightPage, rightLeaf, rightLow, rfl, rightFound, rightFrame⟩
  · exact absurd ⟨right, rightInside, rightTable⟩
      (owns.leafNotTable frame ⟨leftPage, leftLeaf, leftLow, leftFound, leftFrame⟩)
  have samePage := owns.leafUnique leftPage rightPage leftLeaf rightLeaf leftLow rightLow
    leftFound rightFound (leftFrame.trans rightFrame.symm)
  obtain ⟨sameDirs, samePt⟩ := pageOf_eq_iff.mp samePage
  rw [pagePath, pagePath, sameDirs, samePt]

def levelIndices (level : Nat) : List Index :=
  (List.range (if level = 4 then 256 else 512)).map (BitVec.ofNat 9)

theorem nodup_levelIndices (level : Nat) : (levelIndices level).Nodup := by
  refine List.Nodup.map_on ?_ nodup_range
  intro first firstMember second secondMember same
  have sameNat := congrArg BitVec.toNat same
  have limitLe : (if level = 4 then 256 else 512) ≤ 512 := by
    split
    · decide
    · exact le_rfl
  rw [mem_range] at firstMember secondMember
  simp only [BitVec.toNat_ofNat] at sameNat
  omega

variable {level : Nat}

theorem mem_levelIndices : i ∈ levelIndices level ↔ level = 4 → low i := by
  simp only [levelIndices, mem_map, mem_range, low]
  constructor
  · rintro ⟨number, numberLt, rfl⟩ isTop
    rw [if_pos isTop] at numberLt
    rw [BitVec.toNat_ofNat]
    omega
  intro isLow
  refine ⟨i.toNat, ?_, BitVec.ofNat_toNat _ _ |>.trans (BitVec.setWidth_eq _)⟩
  split
  · next isTop => exact isLow isTop
  · omega

theorem followed_iff_length (levelLt : level < 4) :
    Followed levelIndices level path ↔ path.length ≤ level := by
  induction level generalizing path with
  | zero =>
    cases path with
    | nil | cons i path => simp [Followed]
  | succ level ih =>
    cases path with
    | nil => simp [Followed]
    | cons i path =>
      have isMember : i ∈ levelIndices (level + 1) := mem_levelIndices.mpr (by omega)
      simp only [Followed, isMember, true_and, ih (by omega), length_cons, Nat.add_le_add_iff_right]

theorem followed_iff_lowPath : Followed levelIndices 4 path ↔ LowPath path := by
  cases path with
  | nil => simp [Followed, LowPath]
  | cons i path =>
    have isMember : i ∈ levelIndices 4 ↔ low i := by
      rw [mem_levelIndices]
      simp
    simp only [Followed, isMember, followed_iff_length (show 3 < 4 by decide), LowPath,
      length_cons, head?_cons, Option.mem_def, Option.some.injEq, forall_eq']
    constructor
    · rintro ⟨isLow, lengthLe⟩
      exact ⟨by omega, isLow⟩
    · rintro ⟨lengthLe, isLow⟩
      exact ⟨isLow, by omega⟩

theorem pmmFree_memory (freed : pmmFree frame m = .ok after) :
    after.memory = m.memory := by
  rcases pmmFree_cases freed with ⟨_, rfl⟩ | ⟨_, _, rfl⟩
  · rfl
  · rfl

theorem vmmDestroyLevel_eq_traverse (plain : ∀ path node i, path.length + 1 < level →
      Followed levelIndices level (path ++ [i]) →
      descend next m.memory table path = some node →
      present (m.memory node i) = true → huge (m.memory node i) = false) :
    vmmDestroyLevel level table m =
      RadixTree.traverse (fun m frame => pmmFree frame m) next levelIndices
        m.memory level table m := by
  generalize memoryEq : m.memory = memory at plain ⊢
  induction level generalizing table m with
  | zero => rfl
  | succ level ih =>
    simp only [vmmDestroyLevel, RadixTree.traverse]
    congr 1
    rw [levelIndices, foldlM_map]
    refine @foldlM_congr_of_invariant _ _ _ (fun s => s.memory = memory) _ _ _ ?_ ?_ _
      memoryEq
    · intro s number sameMemory mem
      have isIndex : BitVec.ofNat 9 number ∈ levelIndices (level + 1) := mem_map_of_mem mem
      generalize BitVec.ofNat 9 number = i at isIndex
      rw [sameMemory]
      cases isPresent : present (memory table i) with
      | false => simp [next, isPresent]
      | true =>
        simp only [next, isPresent, Bool.not_true, Bool.false_eq_true, ite_false, ite_true]
        cases level with
        | zero => rfl
        | succ level =>
          have notHuge := plain [] table i (by simp) ⟨isIndex, trivial⟩ rfl isPresent
          simp only [Nat.add_eq_right, Nat.add_eq_zero_iff, Nat.succ_ne_self, and_false,
            pteIsLeaf, isPresent, notHuge, Bool.and_false, Bool.false_eq_true, ite_false]
          refine ih sameMemory fun path node pos lengthLt followed reaches => ?_
          refine plain (i :: path) node pos (by simpa using lengthLt)
            ⟨isIndex, followed⟩ ?_
          rw [descend_cons, next, if_pos isPresent, Option.bind_some, reaches]
    · intro s number after sameMemory freed
      split at freed
      · cases freed
        exact sameMemory
      rw [traverse_eq] at freed
      refine @foldlM_invariant _ _ _ _ (fun s => s.memory = memory) _ ?_ _ _ sameMemory
        freed
      intro s frame after same freed
      rw [pmmFree_memory freed, same]

theorem freeAll {frames : List Frame} (distinct : frames.Nodup)
    (inUse : ∀ frame ∈ frames, frame ≠ 0 ∧ m.allocated frame = true) :
    ∃ after, frames.foldlM (fun m frame => pmmFree frame m) m = .ok after ∧
      after.memory = m.memory ∧ after.answers = m.answers ∧
      ∀ frame, after.allocated frame = true ↔ m.allocated frame = true ∧ frame ∉ frames := by
  induction frames generalizing m with
  | nil => exact ⟨m, rfl, rfl, rfl, by simp⟩
  | cons frame frames ih =>
    obtain ⟨notLater, laterDistinct⟩ := nodup_cons.mp distinct
    obtain ⟨frameNe, allocated⟩ := inUse frame mem_cons_self
    have freed := pmmFree_of_allocated frameNe allocated
    have stillInUse : ∀ other ∈ frames,
        other ≠ 0 ∧ (reclaimed m frame).allocated other = true := by
      intro other mem
      have otherNe : other ≠ frame := fun same => notLater (same ▸ mem)
      obtain ⟨nonzero, otherAllocated⟩ := inUse other (mem_cons_of_mem _ mem)
      exact ⟨nonzero, (Function.update_of_ne otherNe _ _).trans otherAllocated⟩
    obtain ⟨after, later, memory, answers, remaining⟩ := ih laterDistinct stillInUse
    refine ⟨after, ?_, memory, answers, fun other => ?_⟩
    · rw [foldlM_cons, freed]
      exact later
    · rw [remaining]
      by_cases same : other = frame <;> simp [same, reclaimed]

theorem Owns.threadDestroy (owns : Owns others root m) :
    ∃ after, threadDestroy root m = .ok after ∧ after.memory = m.memory ∧
      after.answers = m.answers ∧ ∀ frame, after.allocated frame = true ↔ others frame := by
  have rootNe : root ≠ 0 := fun isZero => owns.nonzero (.inl (isZero ▸ tableFrame_root))
  have plain : ∀ path node i, path.length + 1 < 4 →
      Followed levelIndices 4 (path ++ [i]) →
      descend next m.memory root path = some node →
      present (m.memory node i) = true → huge (m.memory node i) = false := by
    intro path node i lengthLt followed reaches isPresent
    have inside : Inside low (path ++ [i]) :=
      ⟨by simp only [length_append, length_singleton]; omega, (followed_iff_lowPath.mp followed).2⟩
    rw [descend_next_eq owns.tree (inside_closed low path i inside)] at reaches
    exact (owns.tree.directory path node i inside reaches isPresent).notHuge
  have visited : ∀ path frame,
      (path, frame) ∈ below next levelIndices m.memory 4 root ↔
        Reached root m path frame := by
    intro path frame
    rw [mem_below, followed_iff_lowPath]
    rfl
  have frames : ∀ frame, frame ∈ (below next levelIndices m.memory 4 root).map Prod.snd ↔
      Held root m frame := by
    intro frame
    rw [← reached_iff_held owns.tree]
    simp only [mem_map, Prod.exists, exists_eq_right, visited]
  have distinct : ((below next levelIndices m.memory 4 root).map Prod.snd).Nodup := by
    refine List.Nodup.map_on ?_ (nodup_below nodup_levelIndices).of_map
    rintro ⟨left, leftFrame⟩ leftMember ⟨right, rightFrame⟩ rightMember rfl
    have samePath := owns.reached_unique ((visited _ _).mp leftMember) ((visited _ _).mp rightMember)
    rw [samePath]
  obtain ⟨after, freed, memory, answers, remaining⟩ := freeAll distinct fun frame mem => by
    have held := (frames frame).mp mem
    refine ⟨?_, (owns.allocated frame).mpr (.inr held)⟩
    rintro rfl
    exact owns.nonzero held
  refine ⟨after, ?_, memory, answers, fun frame => ?_⟩
  · rw [UserSpace.threadDestroy, if_neg rootNe, vmmDestroyLevel_eq_traverse plain, traverse_eq]
    exact freed
  · rw [remaining, frames, owns.other_iff]

section Runs

variable {first : Machine} {process : Process}

def createdProcess (m : Machine) : Process := ⟨⟨m, []⟩, false⟩

def processRuns (root : Frame) (first : Machine) : TransitionSystem Process Call :=
  system root fun process => process = createdProcess first

theorem owns_of_reachable (owns : Owns others root first)
    (reached : (processRuns root first).ReachableWhere (fun _ call => call.Low) process) :
    Window process.space.vmas ∧ Owns others root process.space.machine := by
  induction reached with
  | start initially =>
    cases initially
    exact ⟨window_nil, owns⟩
  | next _ isLow ran ih =>
    obtain ⟨_, performed⟩ := perform_of_step ran
    exact ⟨ih.1.perform performed, ih.2.perform ih.1 isLow performed⟩

/-- The frames that are allocated when the process is created and that it does
not reach. -/
def OthersAt (root : Frame) (first : Machine) (frame : Frame) : Prop :=
  first.allocated frame = true ∧ ¬ ∃ path, Reached root first path frame

/-- The process holds exactly the frames that its tree reaches, each along one path, and
`thread_destroy` frees exactly these. -/
structure Conserved (others : Frame → Prop) (root : Frame) (m : Machine) : Prop where
  held : ∀ frame, (m.allocated frame = true ∧ ¬ others frame) ↔
    ∃ path, Reached root m path frame
  once : ∀ frame left right, Reached root m left frame → Reached root m right frame →
    left = right
  destroyed : ∃ after, threadDestroy root m = .ok after ∧ after.memory = m.memory ∧
    ∀ frame, after.allocated frame = true ↔ m.allocated frame = true ∧
      ¬ ∃ path, Reached root m path frame

theorem Owns.conserved (owns : Owns others root m) : Conserved others root m := by
  refine ⟨fun frame => ?_, fun frame left right => owns.reached_unique, ?_⟩
  · rw [reached_iff_held owns.tree, owns.allocated]
    constructor
    · rintro ⟨isOther | held, notOther⟩
      · exact absurd isOther notOther
      · exact held
    · intro held
      exact ⟨.inr held, owns.apart frame held⟩
  obtain ⟨after, destroyed, memory, _, remaining⟩ := owns.threadDestroy
  refine ⟨after, destroyed, memory, fun frame => ?_⟩
  rw [remaining, reached_iff_held owns.tree, owns.other_iff]

theorem Owns.othersAt (owns : Owns others root first) : Owns (OthersAt root first) root first := by
  have same : OthersAt root first = others := by
    funext frame
    rw [OthersAt, reached_iff_held owns.tree, ← owns.other_iff]
  rw [same]
  exact owns

/-- The frames of a process are conserved by its system calls and page faults. -/
theorem frames_conserved {kernelPml4 : Frame} {image : List Byte} {argv : List (List Byte)}
    {grants : Grants}
    (created : createElfProcess kernelPml4 image argv grants m = .ok (some root, first))
    (reached : (processRuns root first).ReachableWhere (fun _ call => call.Low) process) :
    Conserved (OthersAt root first) root process.space.machine := by
  obtain ⟨others, owns⟩ := owns_createElfProcess created
  exact (owns_of_reachable owns.othersAt reached).2.conserved

def bytesOf (number : Nat) : Nat → List Byte
  | 0 => []
  | size + 1 => BitVec.ofNat 8 number :: bytesOf (number / 256) size

def segmentHeader (ph : Phdr) : List Byte :=
  bytesOf ph.type 4 ++ bytesOf ph.flags 4 ++ bytesOf ph.offset 8 ++ bytesOf ph.vaddr 8 ++
    bytesOf 0 8 ++ bytesOf ph.filesz 8 ++ bytesOf ph.memsz 8 ++ bytesOf 4096 8

def headersOnly (entry : Nat) (phs : List Phdr) : List Byte :=
  [0x7f, 0x45, 0x4c, 0x46, 2, 1, 1] ++ bytesOf 0 9 ++ bytesOf etExec 2 ++ bytesOf emX8664 2 ++
    bytesOf 1 4 ++ bytesOf entry 8 ++ bytesOf sizeofEhdr 8 ++ bytesOf 0 12 ++
    bytesOf sizeofEhdr 2 ++ bytesOf sizeofPhdr 2 ++ bytesOf phs.length 2 ++ bytesOf 0 6 ++
    phs.flatMap segmentHeader

def smallImage : List Byte := headersOnly 0x7fffffffd000 [⟨ptLoad, 5, 0, 0x7fffffffd000, 0, 0x1000⟩]

def bootMachine : Machine where
  memory := fun _ _ => 0
  allocated := fun frame => frame = 1
  answers := [2, 3, 4, 5, 6, 7, 8, 9, 10, 11, 12, 13, 14, 15, 16]

def allGranted : Grants := ⟨true, true, true, true⟩

def smallCreation : Except Panic (Option Frame × Machine) :=
  createElfProcess 1 smallImage [[0x61]] allGranted bootMachine

def smallMachine : Machine := (smallCreation.toOption.map Prod.snd).getD bootMachine

theorem created_of_fst {creation : Except Panic (Option Frame × Machine)}
    (returned : creation.toOption.map Prod.fst = some (some root)) :
    creation = .ok (some root, (creation.toOption.map Prod.snd).getD bootMachine) := by
  cases creation with
  | error reason => cases returned
  | ok result =>
    obtain ⟨root, m⟩ := result
    cases returned
    rfl

theorem smallCreation_eq : smallCreation = .ok (some 2, smallMachine) :=
  created_of_fst (by decide +kernel)

/-- A region is mapped, one of its pages is touched, and another is removed. -/
def busySmallProcess : Process :=
  ((processRuns 2 smallMachine).run (createdProcess smallMachine)
    [.mmap 0x1000 protWrite 0 true, .mmap 0x2000 protWrite mapLazy true, .fault 0x04001234 6,
      .munmap 0x04000000 0x1000]).getD (createdProcess smallMachine)

theorem reachable_busySmallProcess :
    (processRuns 2 smallMachine).ReachableWhere (fun _ call => call.Low) busySmallProcess := by
  refine TransitionSystem.ReachableWhere.getD_run (.start rfl) fun _ call mem => ?_
  simp only [mem_cons, not_mem_nil, or_false] at mem
  rcases mem with rfl | rfl | rfl | rfl
  all_goals trivial

theorem frames_conserved_busySmallProcess : busySmallProcess.space.vmas.length = 1 ∧
      Conserved (OthersAt 2 smallMachine) 2 busySmallProcess.space.machine :=
  ⟨by decide +kernel, frames_conserved smallCreation_eq reachable_busySmallProcess⟩

/-- `page_fault_demand` maps a page for an address in the kernel half. -/
def kernelHalfProcess : Process :=
  ((processRuns 2 smallMachine).run (createdProcess smallMachine)
    [.demand 0xffffc00000000000]).getD (createdProcess smallMachine)

/-- The frame for an address in the kernel half stays allocated. -/
theorem kernelHalf_not_conserved : smallCreation = .ok (some 2, smallMachine) ∧
      (processRuns 2 smallMachine).Reachable kernelHalfProcess ∧
      ¬ Conserved (OthersAt 2 smallMachine) 2 kernelHalfProcess.space.machine := by
  refine ⟨smallCreation_eq, TransitionSystem.Reachable.getD_run (.start rfl) _, fun conserved => ?_⟩
  obtain ⟨after, destroyed, _, remaining⟩ := conserved.destroyed
  have leaked : (threadDestroy 2 kernelHalfProcess.space.machine).toOption.map
      (fun m => m.allocated 8) = some true := by
    decide +kernel
  have notOther : smallMachine.allocated 8 = false := by
    decide +kernel
  rw [destroyed] at leaked
  obtain ⟨allocated, notReached⟩ := (remaining 8).mp (Option.some.inj leaked)
  refine notReached ((conserved.held 8).mp ⟨allocated, fun isOther => ?_⟩)
  cases notOther.symm.trans isOther.1

end Runs

end LaOS.UserSpace
