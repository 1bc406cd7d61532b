import LaOS.UserPages

/-!
# The frames of a process

The allocated frames are those of others and those that the tree of the process
reaches.  A frame between its allocation and its mapping counts as one of others.
-/

namespace LaOS.UserSpace

open Option Function Vmm RadixTree

variable {others elsewhere : Frame → Prop} {root frame table phys : Frame}
  {m before mid after : Machine} {va flags leaf : Word}

def TableFrame (root : Frame) (m : Machine) (frame : Frame) : Prop :=
  ∃ path, Inside low path ∧ tableAt m root path = some frame

def LeafFrame (root : Frame) (m : Machine) (frame : Frame) : Prop :=
  ∃ vaddr leaf, low (pml4Idx vaddr) ∧ leafOf m root vaddr = some leaf ∧ frameOf leaf = frame

def Held (root : Frame) (m : Machine) (frame : Frame) : Prop :=
  TableFrame root m frame ∨ LeafFrame root m frame

structure Owns (others : Frame → Prop) (root : Frame) (m : Machine) : Prop where
  tree : TreeOk low root m
  allocated : ∀ frame, m.allocated frame = true ↔ others frame ∨ Held root m frame
  apart : ∀ frame, Held root m frame → ¬ others frame
  leafNotTable : ∀ frame, LeafFrame root m frame → ¬ TableFrame root m frame
  leafUnique : ∀ first second leaf other, low (pml4Idx first) → low (pml4Idx second) →
    leafOf m root first = some leaf → leafOf m root second = some other →
    frameOf leaf = frameOf other → pageOf first = pageOf second
  nonzero : ¬ Held root m 0
  userOk : UserOk low root m

theorem inside_nil {scope : Index → Prop} : Inside scope [] := ⟨by simp, by simp⟩

theorem tableFrame_root : TableFrame root m root := ⟨[], inside_nil, rfl⟩

theorem Owns.inUse (owns : Owns others root m) (inScope : low (pml4Idx va))
    (found : leafOf m root va = some leaf) :
    frameOf leaf ≠ 0 ∧ m.allocated (frameOf leaf) = true := by
  have held : Held root m (frameOf leaf) := .inr ⟨va, leaf, inScope, found, rfl⟩
  refine ⟨fun isZero => owns.nonzero ?_, (owns.allocated _).mpr (.inr held)⟩
  rwa [isZero] at held

structure SameTree (root : Frame) (before after : Machine) : Prop where
  tables : ∀ path, Inside low path → tableAt after root path = tableAt before root path
  leaves : ∀ vaddr, low (pml4Idx vaddr) → leafOf after root vaddr = leafOf before root vaddr

theorem leafFrame_congr (same : ∀ va, low (pml4Idx va) →
      leafOf after root va = leafOf before root va) :
    LeafFrame root after frame ↔ LeafFrame root before frame := by
  refine exists_congr fun va => exists_congr fun leaf => and_congr_right fun inScope => ?_
  rw [same va inScope]

theorem SameTree.held_iff (same : SameTree root before after) :
    (TableFrame root after frame ↔ TableFrame root before frame) ∧
      (LeafFrame root after frame ↔ LeafFrame root before frame) := by
  refine ⟨exists_congr fun path => and_congr_right fun inside => ?_, leafFrame_congr same.leaves⟩
  rw [same.tables path inside]

theorem Owns.of_same (owns : Owns others root before) (tree : TreeOk low root after)
    (same : SameTree root before after)
    (allocated : ∀ frame, after.allocated frame = true ↔ elsewhere frame ∨ Held root before frame)
    (apart : ∀ frame, Held root before frame → ¬ elsewhere frame)
    (user : UserOk low root after) : Owns elsewhere root after := by
  have heldIff : ∀ frame, Held root after frame ↔ Held root before frame := fun frame =>
    or_congr same.held_iff.1 same.held_iff.2
  refine ⟨tree, ?_, ?_, ?_, ?_, ?_, user⟩
  · intro frame
    rw [allocated, heldIff]
  · intro frame held
    exact apart frame ((heldIff frame).mp held)
  · intro frame isLeaf isTable
    exact owns.leafNotTable frame (same.held_iff.2.mp isLeaf) (same.held_iff.1.mp isTable)
  · intro first second leaf other firstLow secondLow firstLeaf secondLeaf
    rw [same.leaves first firstLow] at firstLeaf
    rw [same.leaves second secondLow] at secondLeaf
    exact owns.leafUnique first second leaf other firstLow secondLow firstLeaf secondLeaf
  · rw [heldIff]
    exact owns.nonzero

theorem sameTree_of_memory (memory : after.memory = before.memory) : SameTree root before after := by
  constructor
  · intro path _
    simp only [tableAt, memory]
  · intro va _
    simp only [leafOf, tableAt, memory]

theorem Owns.answers (owns : Owns others root m) (answers : List Frame) :
    Owns others root { m with answers } :=
  owns.of_same ⟨owns.tree.unshared, owns.tree.allocated, owns.tree.directory⟩
    (sameTree_of_memory rfl) owns.allocated owns.apart owns.userOk

theorem Owns.granted (owns : Owns others root m) (free : m.allocated frame = false)
    (answers : List Frame) :
    Owns (fun other => others other ∨ other = frame) root (granted m frame answers) := by
  have notHeld : ¬ Held root m frame := by
    intro held
    cases free.symm.trans ((owns.allocated frame).mpr (.inr held))
  refine owns.of_same (treeOk_granted owns.tree) (sameTree_of_memory rfl) ?_ ?_ owns.userOk
  · intro other
    simp only [UserSpace.granted]
    by_cases same : other = frame
    · simp [same]
    · simp only [update_of_ne same, owns.allocated other, same, or_false]
  · rintro other held (isOther | rfl)
    · exact owns.apart other held isOther
    · exact notHeld held

theorem Owns.reclaimed (owns : Owns (fun other => others other ∨ other = frame) root m)
    (notOther : ¬ others frame) : Owns others root (reclaimed m frame) := by
  have notHeld : ¬ Held root m frame := fun held => owns.apart frame held (.inr rfl)
  have tree : TreeOk low root (UserSpace.reclaimed m frame) := by
    refine ⟨owns.tree.unshared, fun path table inside reaches => ?_, owns.tree.directory⟩
    have tableNe : table ≠ frame := by
      rintro rfl
      exact notHeld (.inl ⟨path, inside, reaches⟩)
    simp only [UserSpace.reclaimed, update_of_ne tableNe]
    exact owns.tree.allocated path table inside reaches
  refine owns.of_same tree (sameTree_of_memory rfl) ?_ ?_ owns.userOk
  · intro other
    simp only [UserSpace.reclaimed]
    by_cases same : other = frame
    · subst same
      simp [notOther, notHeld]
    · simp only [update_of_ne same, owns.allocated other, same, or_false]
  · intro other held isOther
    exact owns.apart other held (.inl isOther)

section Contents

variable (owns : Owns others root m) (notTable : ¬ TableFrame root m frame)
  (content : Index → Word)
include notTable

variable {path : List Index}

theorem memory_fill_table (inside : Inside low path)
    (reaches : tableAt m root path = some table) :
    (m.fill frame content).memory table = m.memory table := by
  have tableNe : table ≠ frame := by
    rintro rfl
    exact notTable ⟨path, inside, reaches⟩
  simp [Machine.fill, tableNe]

theorem tableAt_fill (inside : Inside low path) :
    tableAt (m.fill frame content) root path = tableAt m root path := by
  induction path using List.reverseRecOn with
  | nil => rfl
  | append_singleton path i ih =>
    have pathInside := inside_closed low path i inside
    have shorter := ih pathInside
    simp only [tableAt] at shorter ⊢
    rw [descend_concat, descend_concat, shorter]
    cases reaches : descend child m.memory root path with
    | none => rfl
    | some table =>
      simp only [bind_some, memory_fill_table notTable content pathInside reaches]

theorem sameTree_fill : SameTree root m (m.fill frame content) := by
  refine ⟨fun path inside => tableAt_fill notTable content inside, fun va inScope => ?_⟩
  simp only [leafOf, tableAt_fill notTable content (inside_dirs inScope)]
  cases reaches : tableAt m root (dirs va) with
  | none => rfl
  | some table =>
    simp only [bind_some, memory_fill_table notTable content (inside_dirs inScope) reaches]

include owns

theorem Owns.filled : Owns others root (m.fill frame content) := by
  have tables := fun path inside => @tableAt_fill root frame m notTable content path inside
  have same := sameTree_fill notTable content
  refine owns.of_same ⟨?_, ?_, ?_⟩ same owns.allocated owns.apart ?_
  · intro left right node leftInside rightInside leftReaches rightReaches
    exact owns.tree.unshared left right node leftInside rightInside
      ((tables left leftInside).symm.trans leftReaches)
      ((tables right rightInside).symm.trans rightReaches)
  · intro path table inside reaches
    exact owns.tree.allocated path table inside ((tables path inside).symm.trans reaches)
  · intro path table i inside reaches
    have pathInside := inside_closed low path i inside
    rw [tables path pathInside] at reaches
    rw [memory_fill_table notTable content pathInside reaches]
    exact owns.tree.directory path table i inside reaches
  · intro va leaf inScope found isUser path i table begins reaches
    have pathInside := inside_closed low path i (inside_of_begins (inside_dirs inScope) begins)
    rw [same.leaves va inScope] at found
    rw [tables path pathInside] at reaches
    rw [memory_fill_table notTable content pathInside reaches]
    exact owns.userOk va leaf inScope found isUser path i table begins reaches

end Contents

theorem tableFrame_of_grows (grows : Grows low root before after)
    (isTable : TableFrame root before frame) : TableFrame root after frame := by
  obtain ⟨path, inside, reaches⟩ := isTable
  exact ⟨path, inside, grows.keeps path frame inside reaches⟩

theorem Owns.grows (owns : Owns others root before) (grows : Grows low root before after) :
    Owns others root after := by
  have leaves := fun frame => @leafFrame_congr root frame before after fun _ => grows.leafOf_eq
  have tables : ∀ frame, TableFrame root after frame →
      TableFrame root before frame ∨ before.allocated frame = false ∧ frame ≠ 0 := by
    rintro frame ⟨path, inside, reaches⟩
    rcases grows.fresh path frame inside reaches with older | ⟨free, frameNe, _⟩
    · exact .inl ⟨path, inside, older⟩
    · exact .inr ⟨free, frameNe⟩
  refine ⟨grows.ok, ?_, ?_, ?_, ?_, ?_, grows.userOk owns.userOk⟩
  · intro frame
    rw [grows.allocated, owns.allocated]
    constructor
    · rintro ((isOther | isTable | isLeaf) | isTable)
      · exact .inl isOther
      · exact .inr (.inl (tableFrame_of_grows grows isTable))
      · exact .inr (.inr ((leaves frame).mpr isLeaf))
      · exact .inr (.inl isTable)
    · rintro (isOther | isTable | isLeaf)
      · exact .inl (.inl isOther)
      · exact .inr isTable
      · exact .inl (.inr (.inr ((leaves frame).mp isLeaf)))
  · rintro frame (isTable | isLeaf) isOther
    · rcases tables frame isTable with older | ⟨free, _⟩
      · exact owns.apart frame (.inl older) isOther
      · cases free.symm.trans ((owns.allocated frame).mpr (.inl isOther))
    · exact owns.apart frame (.inr ((leaves frame).mp isLeaf)) isOther
  · intro frame isLeaf isTable
    have olderLeaf := (leaves frame).mp isLeaf
    rcases tables frame isTable with older | ⟨free, _⟩
    · exact owns.leafNotTable frame olderLeaf older
    · cases free.symm.trans ((owns.allocated frame).mpr (.inr (.inr olderLeaf)))
  · intro first second leaf other firstLow secondLow firstLeaf secondLeaf
    rw [grows.leafOf_eq firstLow] at firstLeaf
    rw [grows.leafOf_eq secondLow] at secondLeaf
    exact owns.leafUnique first second leaf other firstLow secondLow firstLeaf secondLeaf
  · rintro (isTable | isLeaf)
    · rcases tables 0 isTable with older | ⟨_, zeroNe⟩
      · exact owns.nonzero (.inl older)
      · exact zeroNe rfl
    · exact owns.nonzero (.inr ((leaves 0).mp isLeaf))

theorem tableFrame_write (ok : TreeOk low root m) (inScope : low (pml4Idx va))
    (reaches : tableAt m root (dirs va) = some table) {word : Word} :
    TableFrame root (m.write table (ptIdx va) word) frame ↔
      TableFrame root m frame := by
  refine exists_congr fun path => and_congr_right fun inside => ?_
  rw [tableAt_writeLeaf ok inScope reaches inside]

section Leaves

variable (owns : Owns others root m) (inScope : low (pml4Idx va))
  (reaches : tableAt m root (dirs va) = some table)

include owns inScope reaches

theorem Owns.clearLeaf (found : leafOf m root va = some leaf) :
    Owns (fun other => others other ∨ other = frameOf leaf) root
      (m.write table (ptIdx va) 0) := by
  have leafEq : ∀ other, low (pml4Idx other) →
      leafOf (m.write table (ptIdx va) 0) root other =
        if pageOf other = pageOf va then none else leafOf m root other := fun other isLow =>
    leafOf_writeLeaf owns.tree inScope reaches isLow
  have isLeafFrame : LeafFrame root m (frameOf leaf) := ⟨va, leaf, inScope, found, rfl⟩
  have leaves : ∀ frame, LeafFrame root (m.write table (ptIdx va) 0) frame ↔
      LeafFrame root m frame ∧ frame ≠ frameOf leaf := by
    intro frame
    constructor
    · rintro ⟨other, otherLeaf, isLow, otherFound, isFrame⟩
      rw [leafEq other isLow] at otherFound
      obtain ⟨pageNe, otherFound⟩ := ite_none_left_eq_some.mp otherFound
      refine ⟨⟨other, otherLeaf, isLow, otherFound, isFrame⟩, fun same => pageNe ?_⟩
      exact owns.leafUnique other va otherLeaf leaf isLow inScope otherFound found
        (isFrame.trans same)
    rintro ⟨⟨other, otherLeaf, isLow, otherFound, isFrame⟩, frameNe⟩
    refine ⟨other, otherLeaf, isLow, ?_, isFrame⟩
    rw [leafEq other isLow, if_neg]
    · exact otherFound
    intro samePage
    rw [leafOf_eq_of_pageOf samePage, found] at otherFound
    cases otherFound
    exact frameNe isFrame.symm
  have tables : ∀ frame, TableFrame root (m.write table (ptIdx va) 0) frame ↔
      TableFrame root m frame := fun frame =>
    tableFrame_write owns.tree inScope reaches
  refine ⟨treeOk_writeLeaf owns.tree inScope reaches, ?_, ?_, ?_, ?_, ?_,
    userOk_writeLeaf owns.tree inScope reaches owns.userOk nofun⟩
  · intro frame
    change m.allocated frame = true ↔ _
    rw [owns.allocated, Held, Held, tables, leaves]
    by_cases same : frame = frameOf leaf
    · subst same
      simp [isLeafFrame]
    · simp [same]
  · rintro frame (isTable | isLeaf) (isOther | rfl)
    · exact owns.apart frame (.inl ((tables frame).mp isTable)) isOther
    · exact owns.leafNotTable _ isLeafFrame ((tables _).mp isTable)
    · exact owns.apart frame (.inr ((leaves frame).mp isLeaf).1) isOther
    · exact ((leaves _).mp isLeaf).2 rfl
  · intro frame isLeaf isTable
    exact owns.leafNotTable frame ((leaves frame).mp isLeaf).1 ((tables frame).mp isTable)
  · intro first second firstLeaf secondLeaf firstLow secondLow firstFound secondFound
    rw [leafEq first firstLow] at firstFound
    rw [leafEq second secondLow] at secondFound
    obtain ⟨-, firstFound⟩ := ite_none_left_eq_some.mp firstFound
    obtain ⟨-, secondFound⟩ := ite_none_left_eq_some.mp secondFound
    exact owns.leafUnique first second firstLeaf secondLeaf firstLow secondLow firstFound
      secondFound
  · rintro (isTable | isLeaf)
    · exact owns.nonzero (.inl ((tables 0).mp isTable))
    · exact owns.nonzero (.inr ((leaves 0).mp isLeaf).1)

theorem Owns.clearAbsent (vacant : leafOf m root va = none) :
    Owns others root (m.write table (ptIdx va) 0) := by
  refine owns.of_same (treeOk_writeLeaf owns.tree inScope reaches) ⟨?_, ?_⟩ owns.allocated
    owns.apart (userOk_writeLeaf owns.tree inScope reaches owns.userOk nofun)
  · intro path inside
    exact tableAt_writeLeaf owns.tree inScope reaches inside
  intro other isLow
  rw [leafOf_writeLeaf owns.tree inScope reaches isLow]
  split
  · next samePage =>
    rw [leafOf_eq_of_pageOf samePage, vacant]
    rfl
  · rfl

end Leaves

theorem Owns.setLeaf (owns : Owns (fun other => others other ∨ other = phys) root m)
    (inScope : low (pml4Idx va)) (reaches : tableAt m root (dirs va) = some table)
    (notOther : ¬ others phys) (physNe : phys ≠ 0) (vacant : leafOf m root va = none)
    (flagsOk : MapsPage flags) (pathUser : user flags = true → PathUser m root va) :
    Owns others root (m.write table (ptIdx va) (pageEntry phys flags)) := by
  have leafEq := fun other isLow =>
    @leafOf_setLeaf root phys m va flags low table other owns.tree inScope reaches flagsOk
      isLow
  have notHeld : ¬ Held root m phys := fun held => owns.apart phys held (.inr rfl)
  have leaves : ∀ frame,
      LeafFrame root (m.write table (ptIdx va) (pageEntry phys flags)) frame ↔
        LeafFrame root m frame ∨ frame = phys := by
    intro frame
    constructor
    · rintro ⟨other, leaf, isLow, found, isFrame⟩
      rw [leafEq other isLow] at found
      split at found
      · cases found
        exact .inr (isFrame.symm.trans (frameOf_pageEntry flagsOk))
      · exact .inl ⟨other, leaf, isLow, found, isFrame⟩
    rintro (⟨other, leaf, isLow, found, isFrame⟩ | rfl)
    · refine ⟨other, leaf, isLow, ?_, isFrame⟩
      rw [leafEq other isLow, if_neg]
      · exact found
      · intro samePage
        rw [leafOf_eq_of_pageOf samePage, vacant] at found
        cases found
    · refine ⟨va, _, inScope, ?_, frameOf_pageEntry flagsOk⟩
      rw [leafEq va inScope, if_pos rfl]
  have tables : ∀ frame,
      TableFrame root (m.write table (ptIdx va) (pageEntry phys flags)) frame ↔
        TableFrame root m frame := fun frame =>
    tableFrame_write owns.tree inScope reaches
  refine ⟨treeOk_writeLeaf owns.tree inScope reaches, ?_, ?_, ?_, ?_, ?_,
    userOk_writeLeaf owns.tree inScope reaches owns.userOk fun _ _ => pathUser flagsOk.user⟩
  · intro frame
    change m.allocated frame = true ↔ _
    rw [owns.allocated, Held, Held, tables, leaves]
    tauto
  · rintro frame (isTable | isLeaf) isOther
    · exact owns.apart frame (.inl ((tables frame).mp isTable)) (.inl isOther)
    · rcases (leaves frame).mp isLeaf with older | rfl
      · exact owns.apart frame (.inr older) (.inl isOther)
      · exact notOther isOther
  · intro frame isLeaf isTable
    have olderTable := (tables frame).mp isTable
    rcases (leaves frame).mp isLeaf with older | rfl
    · exact owns.leafNotTable frame older olderTable
    · exact notHeld (.inl olderTable)
  · intro first second firstLeaf secondLeaf firstLow secondLow firstFound secondFound same
    have notPhys : ∀ other leaf, low (pml4Idx other) → leafOf m root other = some leaf →
        frameOf leaf ≠ phys := by
      rintro other leaf isLow found rfl
      exact notHeld (.inr ⟨other, leaf, isLow, found, rfl⟩)
    rw [leafEq first firstLow] at firstFound
    rw [leafEq second secondLow] at secondFound
    split at firstFound
    · next firstPage =>
      cases firstFound
      rw [frameOf_pageEntry flagsOk] at same
      split at secondFound
      · next secondPage => rw [firstPage, secondPage]
      · exact absurd same.symm (notPhys second secondLeaf secondLow secondFound)
    · split at secondFound
      · cases secondFound
        rw [frameOf_pageEntry flagsOk] at same
        exact absurd same (notPhys first firstLeaf firstLow firstFound)
      · exact owns.leafUnique first second firstLeaf secondLeaf firstLow secondLow firstFound
          secondFound same
  · rintro (isTable | isLeaf)
    · exact owns.nonzero (.inl ((tables 0).mp isTable))
    · rcases (leaves 0).mp isLeaf with older | isPhys
      · exact owns.nonzero (.inr older)
      · exact physNe isPhys.symm

end LaOS.UserSpace
