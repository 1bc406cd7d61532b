import LaOS.VmmEntries

/-!
# Trees of page tables without large pages

In a tree that `__vmm_map` builds from an empty root no table is shared and every table
is allocated.  `scope` selects the entries of the root that belong to the tree; the
others may be shared with other address spaces.
-/

namespace LaOS.Vmm

open Option List Function RadixTree

/-- The table that an entry of a directory points to. -/
def child (entry : Word) : Option Frame :=
  if present entry && !huge entry then some (frameOf entry) else none

/-- Paths of at most three indices lead to tables. -/
def Inside (scope : Index → Prop) (path : List Index) : Prop :=
  path.length ≤ 3 ∧ ∀ first ∈ path.head?, scope first

theorem inside_closed (scope : Index → Prop) : PrefixClosed (Inside scope) := by
  rintro path i ⟨lengthLe, headIn⟩
  refine ⟨by simp only [length_append, length_singleton] at lengthLe; omega, ?_⟩
  intro first isHead
  refine headIn first ?_
  cases path with
  | nil => cases isHead
  | cons head rest => exact isHead

abbrev tableAt (m : Machine) (root : Frame) (path : List Index) : Option Frame :=
  descend child m.memory root path

structure Directory (entry : Word) : Prop where
  notHuge : huge entry = false
  writable : writable entry = true
  executable : noExecute entry = false

structure TreeOk (scope : Index → Prop) (root : Frame) (m : Machine) : Prop where
  unshared : Unshared child (Inside scope) m.memory root
  allocated : ∀ path table, Inside scope path → tableAt m root path = some table →
    m.allocated table = true
  directory : ∀ path table i, Inside scope (path ++ [i]) →
    tableAt m root path = some table → present (m.memory table i) = true →
    Directory (m.memory table i)

variable {scope : Index → Prop} {root table : Frame} {m before mid after : Machine}
  {path : List Index} {i : Index}

@[simp]
theorem present_zero : present 0#64 = false := rfl

variable {entry : Word} {frame : Frame}

theorem child_eq_some (points : child entry = some frame) :
    present entry = true ∧ huge entry = false ∧ frameOf entry = frame := by
  obtain ⟨both, points⟩ := ite_none_right_eq_some.mp points
  simp only [Bool.and_eq_true, Bool.not_eq_true'] at both
  exact ⟨both.1, both.2, some.inj points⟩

theorem child_of_absent (absent : present entry = false) : child entry = none := by
  simp [child, absent]

theorem child_tableEntry (frame : Frame) (flags : Word) :
    child (tableEntry frame flags) = some frame := by
  simp [child]

theorem child_widen (entry flags : Word) : child (widen entry flags) = child entry := by
  simp [child]

/-- Tables were added and rights widened: the old tables are where they were, with the same
leaves, and the new ones were not allocated and have no leaves. -/
structure Grows (scope : Index → Prop) (root : Frame) (before after : Machine) : Prop where
  ok : TreeOk scope root after
  keeps : ∀ path table, Inside scope path → tableAt before root path = some table →
    tableAt after root path = some table
  user : ∀ path table i next, Inside scope (path ++ [i]) →
    tableAt before root path = some table → tableAt before root (path ++ [i]) = some next →
    user (before.memory table i) = true → user (after.memory table i) = true
  leaves : ∀ path table, Inside scope path → path.length = 3 →
    tableAt before root path = some table → after.memory table = before.memory table
  fresh : ∀ path table, Inside scope path → tableAt after root path = some table →
    tableAt before root path = some table ∨ (before.allocated table = false ∧ table ≠ 0 ∧
      (path.length = 3 → ∀ i, after.memory table i = 0))
  allocated : ∀ frame, after.allocated frame = true ↔ before.allocated frame = true ∨
    ∃ path, Inside scope path ∧ tableAt after root path = some frame
  outside : ∀ frame, (∀ path, Inside scope path → tableAt after root path ≠ some frame) →
    after.memory frame = before.memory frame
  unscoped : ∀ i, ¬ scope i → after.memory root i = before.memory root i

theorem TreeOk.grows_of_same (ok : TreeOk scope root before)
    (memory : after.memory = before.memory) (allocated : after.allocated = before.allocated) :
    Grows scope root before after := by
  have sameTable : ∀ path, tableAt after root path = tableAt before root path := fun path => by
    simp only [tableAt, memory]
  refine ⟨⟨?_, ?_, ?_⟩, ?_, ?_, ?_, ?_, ?_, ?_, ?_⟩
  · rw [memory]
    exact ok.unshared
  · intro path table inside reaches
    rw [allocated]
    exact ok.allocated path table inside (sameTable path ▸ reaches)
  · intro path table i inside reaches
    rw [memory]
    exact ok.directory path table i inside (sameTable path ▸ reaches)
  · intro path table _ reaches
    rw [sameTable, reaches]
  · intro path table i _ _ _ _
    rw [memory]
    exact id
  · intro path table _ _ _
    rw [memory]
  · intro path table _ reaches
    exact .inl (sameTable path ▸ reaches)
  · intro frame
    rw [allocated]
    refine ⟨.inl, fun either => either.elim id ?_⟩
    rintro ⟨path, inside, reaches⟩
    exact ok.allocated path frame inside (sameTable path ▸ reaches)
  · intro frame _
    rw [memory]
  · intro i _
    rw [memory]

theorem Grows.trans (first : Grows scope root before mid) (second : Grows scope root mid after) :
    Grows scope root before after where
  ok := second.ok
  keeps := fun path table inside reaches =>
    second.keeps path table inside (first.keeps path table inside reaches)
  user := by
    intro path table i next inside reaches continues granted
    have pathInside := inside_closed scope path i inside
    exact second.user path table i next inside (first.keeps path table pathInside reaches)
      (first.keeps _ next inside continues)
      (first.user path table i next inside reaches continues granted)
  leaves := by
    intro path table inside isLeaf reaches
    rw [second.leaves path table inside isLeaf (first.keeps path table inside reaches),
      first.leaves path table inside isLeaf reaches]
  fresh := by
    intro path table inside reaches
    rcases second.fresh path table inside reaches with older | ⟨free, blank⟩
    · rcases first.fresh path table inside older with oldest | ⟨free, tableNe, blank⟩
      · exact .inl oldest
      · refine .inr ⟨free, tableNe, fun isLeaf i => ?_⟩
        rw [second.leaves path table inside isLeaf older]
        exact blank isLeaf i
    · refine .inr ⟨Bool.eq_false_iff.mpr fun allocated => ?_, blank⟩
      rw [(first.allocated table).mpr (.inl allocated)] at free
      cases free
  allocated := by
    intro frame
    rw [second.allocated, first.allocated]
    constructor
    · rintro ((older | ⟨path, inside, reaches⟩) | new)
      · exact .inl older
      · exact .inr ⟨path, inside, second.keeps path frame inside reaches⟩
      · exact .inr new
    · rintro (older | new)
      · exact .inl (.inl older)
      · exact .inr new
  outside := by
    intro frame absent
    rw [second.outside frame absent]
    exact first.outside frame fun path inside reaches =>
      absent path inside (second.keeps path frame inside reaches)
  unscoped := fun i out => (second.unscoped i out).trans (first.unscoped i out)

section Steps

@[simp]
theorem write_memory_self (frame : Frame) (pos : Index) (word : Word) :
    (m.write frame pos word).memory frame pos = word := by
  simp [Machine.write]

variable {pos : Index}

theorem write_memory_of_ne {other : Frame} {slot : Index} {word : Word}
    (ne : ¬ (other = frame ∧ slot = pos)) :
    (m.write frame pos word).memory other slot = m.memory other slot := by
  by_cases sameFrame : other = frame
  · subst sameFrame
    have slotNe : slot ≠ pos := fun sameSlot => ne ⟨rfl, sameSlot⟩
    simp [Machine.write, slotNe]
  · simp [Machine.write, sameFrame]

/-- The machine after a frame was allocated, filled and put behind an entry. -/
def Machine.putTable (m : Machine) (new : Frame) (answers : List Frame)
    (content : Index → Word) (table : Frame) (i : Index) (entry : Word) : Machine :=
  (({ m with allocated := Function.update m.allocated new true, answers } :
    Machine).fill new content).write table i entry

theorem putTable_memory_self (new : Frame) (answers : List Frame) (content : Index → Word)
    (entry : Word) : (m.putTable new answers content table i entry).memory table i =
      entry :=
  write_memory_self table i entry

variable {new : Frame}

theorem putTable_memory_new (answers : List Frame) (content : Index → Word)
    (entry : Word) (ne : new ≠ table) :
    (m.putTable new answers content table i entry).memory new = content := by
  funext pos
  rw [Machine.putTable, write_memory_of_ne fun same => ne same.1]
  simp [Machine.fill]

theorem putTable_memory_of_ne {slot : Index} (answers : List Frame)
    (content : Index → Word) (entry : Word) (ne : frame ≠ new)
    (slotNe : ¬ (frame = table ∧ slot = i)) :
    (m.putTable new answers content table i entry).memory frame slot =
      m.memory frame slot := by
  rw [Machine.putTable, write_memory_of_ne slotNe]
  simp [Machine.fill, ne]

theorem TreeOk.slot_unique (ok : TreeOk scope root m)
    (inside : Inside scope path) (reaches : tableAt m root path = some table)
    {other : List Index} {node : Frame} (otherInside : Inside scope other)
    (otherReaches : tableAt m root other = some node)
    (ne : other ++ [pos] ≠ path ++ [i]) : ¬ (node = table ∧ pos = i) := by
  rintro ⟨rfl, rfl⟩
  exact ne (by rw [ok.unshared other path node otherInside inside otherReaches reaches])

theorem TreeOk.grows_widen (ok : TreeOk scope root m) (flags : Word)
    (inside : Inside scope (path ++ [i])) (reaches : tableAt m root path = some table)
    (isPresent : present (m.memory table i) = true) : Grows scope root m
      (m.write table i (widen (m.memory table i) flags)) := by
  have pathInside := inside_closed scope path i inside
  have sameTable : ∀ other, tableAt
      (m.write table i (widen (m.memory table i) flags)) root other =
        tableAt m root other := by
    refine fun other => descend_congr fun node pos => ?_
    by_cases same : node = table ∧ pos = i
    · obtain ⟨rfl, rfl⟩ := same
      rw [write_memory_self, child_widen]
    · rw [write_memory_of_ne same]
  refine ⟨⟨?_, ?_, ?_⟩, ?_, ?_, ?_, ?_, ?_, ?_, ?_⟩
  · intro left right node leftInside rightInside leftReaches rightReaches
    exact ok.unshared left right node leftInside rightInside
      ((sameTable left).symm.trans leftReaches) ((sameTable right).symm.trans rightReaches)
  · intro other node otherInside otherReaches
    exact ok.allocated other node otherInside (sameTable other ▸ otherReaches)
  · intro other node pos otherInside otherReaches
    rw [sameTable] at otherReaches
    by_cases same : node = table ∧ pos = i
    · obtain ⟨rfl, rfl⟩ := same
      have directory := ok.directory path node pos inside reaches isPresent
      exact fun _ => ⟨by simp [directory.notHuge], by simp, by simp [directory.executable]⟩
    · rw [write_memory_of_ne same]
      exact ok.directory other node pos otherInside otherReaches
  · intro other node _ otherReaches
    rw [sameTable, otherReaches]
  · intro other node pos _ _ _ _ granted
    by_cases same : node = table ∧ pos = i
    · obtain ⟨rfl, rfl⟩ := same
      simp [granted]
    · rw [write_memory_of_ne same, granted]
  · intro other node otherInside isLeaf otherReaches
    have nodeNe : node ≠ table := by
      rintro rfl
      have sameLength := congrArg length
        (ok.unshared other path node otherInside pathInside otherReaches reaches)
      have lengthLe := inside.1
      simp only [length_append, length_singleton] at lengthLe
      omega
    funext pos
    exact write_memory_of_ne fun same => nodeNe same.1
  · intro other node _ otherReaches
    exact .inl (sameTable other ▸ otherReaches)
  · intro frame
    refine ⟨.inl, fun either => either.elim id ?_⟩
    rintro ⟨other, otherInside, otherReaches⟩
    exact ok.allocated other frame otherInside (sameTable other ▸ otherReaches)
  · intro frame absent
    funext pos
    refine write_memory_of_ne fun same => absent path pathInside ?_
    rw [sameTable, same.1, reaches]
  · intro pos out
    refine write_memory_of_ne ?_
    rintro ⟨rfl, rfl⟩
    have emptyPath := ok.unshared path [] root pathInside ⟨by simp, by simp⟩ reaches rfl
    subst emptyPath
    exact out (inside.2 pos rfl)

theorem TreeOk.grows_attach (ok : TreeOk scope root m) (flags : Word) (answers : List Frame)
    (inside : Inside scope (path ++ [i])) (reaches : tableAt m root path = some table)
    (isAbsent : present (m.memory table i) = false)
    (newNe : new ≠ 0) (free : m.allocated new = false) :
    let after := m.putTable new answers (fun _ => 0) table i (tableEntry new flags)
    Grows scope root m after ∧ tableAt after root (path ++ [i]) = some new := by
  intro after
  have pathInside := inside_closed scope path i inside
  have notTable : ∀ other, Inside scope other → tableAt m root other ≠ some new := by
    intro other otherInside otherReaches
    rw [ok.allocated other new otherInside otherReaches] at free
    cases free
  have tableNe : table ≠ new := fun same => notTable path pathInside (same ▸ reaches)
  have atSlot : after.memory table i = tableEntry new flags := putTable_memory_self _ _ _ _
  have atNew : after.memory new = fun _ => 0 := putTable_memory_new _ _ _ tableNe.symm
  have elsewhere : ∀ node pos, node ≠ new → ¬ (node = table ∧ pos = i) →
      after.memory node pos = m.memory node pos :=
    fun _ _ nodeNe slotNe => putTable_memory_of_ne _ _ _ nodeNe slotNe
  have allocated : after.allocated = update m.allocated new true := rfl
  have change : Attached (Inside scope) child m.memory after.memory root
      (path ++ [i]) new := by
    refine attached_of_agree (inside_closed scope) ?_ pathInside reaches
      (child_of_absent isAbsent) (by rw [atSlot, child_tableEntry]) fun pos => ?_
    · intro other node pos otherInside otherReaches ne
      have prefixInside := inside_closed scope other pos otherInside
      have nodeNe : node ≠ new := fun same => notTable other prefixInside (same ▸ otherReaches)
      rw [elsewhere node pos nodeNe
        (ok.slot_unique pathInside reaches prefixInside otherReaches ne)]
    · rw [atNew]
      exact child_of_absent present_zero
  have tables : ∀ other node, Inside scope other → tableAt after root other = some node →
      tableAt m root other = some node ∨ (other = path ++ [i] ∧ node = new) := by
    intro other node otherInside otherReaches
    by_cases same : other = path ++ [i]
    · refine .inr ⟨same, ?_⟩
      rw [same] at otherReaches
      exact some.inj (otherReaches.symm.trans change.attached)
    · exact .inl ((change.elsewhere other otherInside same).symm.trans otherReaches)
  have keeps : ∀ other node, Inside scope other → tableAt m root other = some node →
      tableAt after root other = some node := by
    intro other node otherInside otherReaches
    have ne : other ≠ path ++ [i] := by
      rintro rfl
      cases otherReaches.symm.trans change.vacant
    exact (change.elsewhere other otherInside ne).trans otherReaches
  refine ⟨⟨⟨change.unshared ok.unshared notTable, ?_, ?_⟩, keeps, ?_, ?_, ?_, ?_, ?_, ?_⟩,
    change.attached⟩
  · intro other node otherInside otherReaches
    rw [allocated]
    rcases tables other node otherInside otherReaches with older | ⟨_, rfl⟩
    · by_cases same : node = new
      · simp [same]
      · simp [same, ok.allocated other node otherInside older]
    · simp
  · intro other node pos otherInside otherReaches isPresent
    have prefixInside := inside_closed scope other pos otherInside
    rcases tables other node prefixInside otherReaches with older | ⟨_, rfl⟩
    · have nodeNe : node ≠ new := fun same => notTable other prefixInside (same ▸ older)
      by_cases same : node = table ∧ pos = i
      · obtain ⟨rfl, rfl⟩ := same
        rw [atSlot]
        exact ⟨by simp, by simp, by simp⟩
      · rw [elsewhere node pos nodeNe same] at isPresent ⊢
        exact ok.directory other node pos otherInside older isPresent
    · rw [atNew] at isPresent
      cases isPresent.symm.trans present_zero
  · intro other node pos next otherInside otherReaches continues granted
    have prefixInside := inside_closed scope other pos otherInside
    have nodeNe : node ≠ new := fun same => notTable other prefixInside (same ▸ otherReaches)
    have slotNe : other ++ [pos] ≠ path ++ [i] := by
      intro same
      rw [same] at continues
      cases continues.symm.trans change.vacant
    rw [elsewhere node pos nodeNe
      (ok.slot_unique pathInside reaches prefixInside otherReaches slotNe), granted]
  · intro other node otherInside isLeaf otherReaches
    have nodeNe : node ≠ new := fun same => notTable other otherInside (same ▸ otherReaches)
    have notParent : node ≠ table := by
      rintro rfl
      have sameLength := congrArg length
        (ok.unshared other path node otherInside pathInside otherReaches reaches)
      have lengthLe := inside.1
      simp only [length_append, length_singleton] at lengthLe
      omega
    funext pos
    exact elsewhere node pos nodeNe fun same => notParent same.1
  · intro other node otherInside otherReaches
    rcases tables other node otherInside otherReaches with older | ⟨_, rfl⟩
    · exact .inl older
    · exact .inr ⟨free, newNe, fun _ pos => by rw [atNew]⟩
  · intro frame
    rw [allocated]
    by_cases same : frame = new
    · subst same
      simp only [update_self, true_iff]
      exact .inr ⟨path ++ [i], inside, change.attached⟩
    simp only [update_of_ne same]
    refine ⟨.inl, fun either => either.elim id ?_⟩
    rintro ⟨other, otherInside, otherReaches⟩
    rcases tables other frame otherInside otherReaches with older | ⟨_, isNew⟩
    · exact ok.allocated other frame otherInside older
    · exact absurd isNew same
  · intro frame absent
    have frameNe : frame ≠ new := fun same =>
      absent (path ++ [i]) inside (same ▸ change.attached)
    funext pos
    refine elsewhere frame pos frameNe fun same => absent path pathInside ?_
    rw [same.1]
    exact keeps path table pathInside reaches
  · intro pos out
    have rootNe : root ≠ new := fun same =>
      notTable [] ⟨by simp, by simp⟩ (same ▸ rfl)
    refine elsewhere root pos rootNe ?_
    rintro ⟨rfl, rfl⟩
    have emptyPath := ok.unshared path [] root pathInside ⟨by simp, by simp⟩ reaches rfl
    subst emptyPath
    exact out (inside.2 pos rfl)

theorem pmmAlloc_cases (m : Machine) :
    (∃ answers, pmmAlloc m = (0, { m with answers })) ∨
      ∃ frame answers, frame ≠ 0 ∧ m.allocated frame = false ∧
        pmmAlloc m = (frame, { m with
          allocated := update m.allocated frame true, answers }) := by
  simp only [pmmAlloc]
  split
  · next noAnswer => exact .inl ⟨[], by rw [← noAnswer]⟩
  next frame answers _ =>
  split
  · exact .inl ⟨answers, rfl⟩
  · next usable =>
    simp only [not_or, Bool.not_eq_true] at usable
    exact .inr ⟨frame, answers, usable.1, usable.2, rfl⟩

def Allocates (m : Machine) (content : Index → Word) (table : Frame) (i : Index)
    (entry : Frame → Word) (result : Option Frame × Machine) : Prop :=
  (∃ answers, result = (none, { m with answers })) ∨
    ∃ new answers, new ≠ 0 ∧ m.allocated new = false ∧
      result = (some new, m.putTable new answers content table i (entry new))

theorem ensureTable_present {stride : Option Word} {flags : Word}
    (isPresent : present (m.memory table i) = true)
    (notLeaf : stride = none ∨ huge (m.memory table i) = false) :
    ensureTable stride table i flags m = (some (frameOf (m.memory table i)),
        m.write table i (widen (m.memory table i) flags)) := by
  cases stride with
  | none => simp [ensureTable, isPresent]
  | some stride =>
    have notHuge := notLeaf.resolve_left nofun
    simp [ensureTable, isPresent, pteIsLeaf, notHuge]

theorem ensureTable_absent (stride : Option Word) (flags : Word)
    (isAbsent : present (m.memory table i) = false) :
    Allocates m (fun _ => 0) table i (tableEntry · flags)
      (ensureTable stride table i flags m) := by
  rcases pmmAlloc_cases m with ⟨answers, failed⟩ | ⟨new, answers, newNe, free, granted⟩
  · exact .inl ⟨answers, by simp [ensureTable, isAbsent, failed]⟩
  · refine .inr ⟨new, answers, newNe, free, ?_⟩
    simp only [ensureTable, isAbsent, granted, if_neg newNe, Bool.false_eq_true, ite_false,
      write_memory_self, frameOf_tableEntry, Machine.putTable]

theorem ensureTable_leaf (stride flags : Word)
    (isPresent : present (m.memory table i) = true)
    (isHuge : huge (m.memory table i) = true) :
    Allocates m (splitEntry stride (m.memory table i)) table i
      (fun new => widen (tableEntry new flags) flags)
      (ensureTable (some stride) table i flags m) := by
  rcases pmmAlloc_cases m with ⟨answers, failed⟩ | ⟨new, answers, newNe, free, granted⟩
  · exact .inl ⟨answers, by simp [ensureTable, isPresent, pteIsLeaf, isHuge, failed]⟩
  · refine .inr ⟨new, answers, newNe, free, ?_⟩
    simp only [ensureTable, isPresent, pteIsLeaf, isHuge, Bool.and_self, granted, if_neg newNe,
      ite_true, write_memory_self, frameOf_widen, frameOf_tableEntry, Machine.putTable]

theorem ensureTable_spec (ok : TreeOk scope root m) (stride : Option Word) (flags : Word)
    (inside : Inside scope (path ++ [i])) (reaches : tableAt m root path = some table) :
    let result := ensureTable stride table i flags m
    Grows scope root m result.2 ∧
      ∀ next, result.1 = some next → tableAt result.2 root (path ++ [i]) = some next ∧
        (user flags = true → user (result.2.memory table i) = true) := by
  have pathInside := inside_closed scope path i inside
  by_cases isPresent : present (m.memory table i) = true
  · have notHuge := (ok.directory path table i inside reaches isPresent).notHuge
    have grows := ok.grows_widen flags inside reaches isPresent
    rw [ensureTable_present isPresent (.inr notHuge)]
    refine ⟨grows, ?_⟩
    rintro next ⟨⟩
    refine ⟨?_, fun granted => by simp [granted]⟩
    rw [tableAt, descend_concat_of (grows.keeps path table pathInside reaches), write_memory_self,
      child_widen, child, isPresent, notHuge]
    rfl
  have isAbsent := Bool.eq_false_iff.mpr isPresent
  rcases ensureTable_absent stride flags isAbsent with ⟨answers, refused⟩ |
    ⟨new, answers, newNe, free, created⟩
  · rw [refused]
    exact ⟨ok.grows_of_same rfl rfl, nofun⟩
  rw [created]
  obtain ⟨grows, attached⟩ := ok.grows_attach flags answers inside reaches isAbsent newNe free
  refine ⟨grows, ?_⟩
  rintro next ⟨⟩
  refine ⟨attached, fun allowed => ?_⟩
  rw [putTable_memory_self, user_tableEntry, allowed]

end Steps

/-- The indices of the directories that translate an address. -/
def dirs (vaddr : Word) : List Index := [pml4Idx vaddr, pdptIdx vaddr, pdIdx vaddr]

/-- The page table entry of an address, when it is present. -/
def leafOf (m : Machine) (root : Frame) (vaddr : Word) : Option Word :=
  (tableAt m root (dirs vaddr)).bind fun table =>
    if present (m.memory table (ptIdx vaddr)) then some (m.memory table (ptIdx vaddr))
    else none

/-- All directories on the way to an address grant user access. -/
def PathUser (m : Machine) (root : Frame) (vaddr : Word) : Prop :=
  ∀ path i table, path ++ [i] <+: dirs vaddr → tableAt m root path = some table →
    user (m.memory table i) = true

/-- User access to a page is never stopped by a directory. -/
def UserOk (scope : Index → Prop) (root : Frame) (m : Machine) : Prop :=
  ∀ vaddr leaf, scope (pml4Idx vaddr) → leafOf m root vaddr = some leaf →
    user leaf = true → PathUser m root vaddr

variable {va other : Word}

theorem inside_dirs (inScope : scope (pml4Idx va)) : Inside scope (dirs va) :=
  ⟨le_rfl, by rintro first ⟨⟩; exact inScope⟩

variable {longer : List Index}

theorem inside_of_begins (inside : Inside scope longer)
    (begins : path <+: longer) : Inside scope path := by
  refine ⟨begins.length_le.trans inside.1, fun first isHead => inside.2 first ?_⟩
  obtain ⟨rest, rfl⟩ := begins
  cases path with
  | nil => cases isHead
  | cons head tail => exact isHead

theorem tableAt_of_shared (begins : path <+: longer)
    (reaches : (tableAt m root longer).isSome = true) :
    (tableAt m root path).isSome = true := by
  obtain ⟨rest, rfl⟩ := begins
  simp only [tableAt, descend, foldlM_append] at reaches ⊢
  cases found : foldlM (fun node i => child (m.memory node i)) root path with
  | none => simp [found] at reaches
  | some table => rfl

theorem Grows.leafOf_eq (grows : Grows scope root before after)
    (inScope : scope (pml4Idx va)) : leafOf after root va = leafOf before root va := by
  have inside := inside_dirs inScope
  simp only [leafOf]
  cases afterTable : tableAt after root (dirs va) with
  | none =>
    cases beforeTable : tableAt before root (dirs va) with
    | none => rfl
    | some table =>
      cases afterTable.symm.trans (grows.keeps _ _ inside beforeTable)
  | some table =>
    rcases grows.fresh _ table inside afterTable with older | ⟨_, _, blank⟩
    · rw [older]
      simp only [bind_some, grows.leaves _ table inside rfl older]
    cases beforeTable : tableAt before root (dirs va) with
    | none => simp [blank rfl]
    | some older =>
      have kept := grows.keeps _ _ inside beforeTable
      obtain rfl := some.inj (afterTable.symm.trans kept)
      simp only [bind_some, grows.leaves _ table inside rfl beforeTable]

theorem Grows.pathUser (grows : Grows scope root before after) (inScope : scope (pml4Idx va))
    (reachesTable : (tableAt before root (dirs va)).isSome = true)
    (granted : PathUser before root va) : PathUser after root va := by
  intro path i table begins reaches
  have inside := inside_of_begins (inside_dirs inScope) begins
  obtain ⟨next, continues⟩ := isSome_iff_exists.mp (tableAt_of_shared begins reachesTable)
  obtain ⟨older, olderReaches⟩ := isSome_iff_exists.mp
    (tableAt_of_shared ((prefix_append path [i]).trans begins) reachesTable)
  have kept := grows.keeps path older (inside_closed scope path i inside) olderReaches
  obtain rfl := some.inj (reaches.symm.trans kept)
  exact grows.user path table i next inside olderReaches continues
    (granted path i table begins olderReaches)

theorem leafOf_isSome {leaf : Word} (found : leafOf m root va = some leaf) :
    (tableAt m root (dirs va)).isSome = true := by
  simp only [leafOf, bind_eq_some_iff] at found
  obtain ⟨table, reaches, _⟩ := found
  rw [reaches]
  rfl

theorem Grows.userOk (grows : Grows scope root before after) (ok : UserOk scope root before) :
    UserOk scope root after := by
  intro va leaf inScope found granted
  rw [grows.leafOf_eq inScope] at found
  exact grows.pathUser inScope (leafOf_isSome found) (ok va leaf inScope found granted)

end LaOS.Vmm
