import LaOS.VmmMap

/-!
# Trees with large pages

The processor's walk may end early, at an entry that describes a large page.
-/

namespace LaOS.Vmm

open Option RadixTree

variable {root frame : Frame} {m after : Machine} {va other : Word}

section Shape

variable (root m va)

/-- The walk of an address leads to a page directory pointer table. -/
structure ReachesPdpt : Prop where
  pml4Present : present (pml4Entry root m va) = true
  pml4Table : huge (pml4Entry root m va) = false

/-- The walk of an address leads to a page directory. -/
structure ReachesPd : Prop extends ReachesPdpt root m va where
  pdptPresent : present (pdptEntry root m va) = true
  pdptTable : huge (pdptEntry root m va) = false

structure ReachesPt : Prop extends ReachesPd root m va where
  pdPresent : present (pdEntry root m va) = true
  pdTable : huge (pdEntry root m va) = false

structure GigabytePage : Prop extends ReachesPdpt root m va where
  pdptPresent : present (pdptEntry root m va) = true
  leaf : huge (pdptEntry root m va) = true

structure MegabytesPage : Prop extends ReachesPd root m va where
  pdPresent : present (pdEntry root m va) = true
  leaf : huge (pdEntry root m va) = true

def LargePage : Prop := GigabytePage root m va ∨ MegabytesPage root m va

structure FormatOk : Prop where
  pml4 : present (pml4Entry root m va) = true → huge (pml4Entry root m va) = false
  gigabyte : GigabytePage root m va →
    (pdptEntry root m va).extractLsb' 13 17 = 0#17
  megabytes : MegabytesPage root m va → (pdEntry root m va).extractLsb' 13 8 = 0#8

inductive Shape : Prop
  | noPdpt (absent : present (pml4Entry root m va) = false)
  | noPd (pdpt : ReachesPdpt root m va)
      (absent : present (pdptEntry root m va) = false)
  | gigabyte (large : GigabytePage root m va)
      (format : (pdptEntry root m va).extractLsb' 13 17 = 0#17)
  | noPt (pd : ReachesPd root m va)
      (absent : present (pdEntry root m va) = false)
  | megabytes (large : MegabytesPage root m va)
      (format : (pdEntry root m va).extractLsb' 13 8 = 0#8)
  | page (pt : ReachesPt root m va)

variable {root m va}

theorem FormatOk.shape (format : FormatOk root m va) : Shape root m va := by
  cases pml4Present : present (pml4Entry root m va) with
  | false => exact .noPdpt pml4Present
  | true =>
    have pdpt : ReachesPdpt root m va := ⟨pml4Present, format.pml4 pml4Present⟩
    cases pdptPresent : present (pdptEntry root m va) with
    | false => exact .noPd pdpt pdptPresent
    | true =>
      cases pdptTable : huge (pdptEntry root m va) with
      | true =>
        have large : GigabytePage root m va := ⟨pdpt, pdptPresent, pdptTable⟩
        exact .gigabyte large (format.gigabyte large)
      | false =>
        have pd : ReachesPd root m va := ⟨pdpt, pdptPresent, pdptTable⟩
        cases pdPresent : present (pdEntry root m va) with
        | false => exact .noPt pd pdPresent
        | true =>
          cases pdTable : huge (pdEntry root m va) with
          | true =>
            have large : MegabytesPage root m va := ⟨pd, pdPresent, pdTable⟩
            exact .megabytes large (format.megabytes large)
          | false => exact .page ⟨pd, pdPresent, pdTable⟩

theorem ReachesPt.not_largePage (pt : ReachesPt root m va) :
    ¬ LargePage root m va := by
  rintro (large | large)
  · cases pt.pdptTable.symm.trans large.leaf
  · cases pt.pdTable.symm.trans large.leaf

theorem translate_noPdpt (absent : present (pml4Entry root m va) = false) :
    translate m.memory root va = none := by
  simp [translate, absent]

theorem translate_noPd (pdpt : ReachesPdpt root m va)
    (absent : present (pdptEntry root m va) = false) :
    translate m.memory root va = none := by
  simp [translate, pdpt.pml4Present, pdpt.pml4Table, absent]

theorem translate_gigabyte (large : GigabytePage root m va)
    (format : (pdptEntry root m va).extractLsb' 13 17 = 0#17) :
    translate m.memory root va =
      some (leafTranslation [pml4Entry root m va, pdptEntry root m va]
        (pdptEntry root m va)
        (((pdptEntry root m va).extractLsb' 30 22 ++ pdIdx va) ++ ptIdx va)
        ((pdptEntry root m va).getLsbD 12)) := by
  simp [translate, large.pml4Present, large.pml4Table, large.pdptPresent, large.leaf, format]

theorem translate_noPt (pd : ReachesPd root m va)
    (absent : present (pdEntry root m va) = false) :
    translate m.memory root va = none := by
  simp [translate, pd.pml4Present, pd.pml4Table, pd.pdptPresent, pd.pdptTable, absent]

theorem translate_megabytes (large : MegabytesPage root m va)
    (format : (pdEntry root m va).extractLsb' 13 8 = 0#8) :
    translate m.memory root va = some (leafTranslation
        [pml4Entry root m va, pdptEntry root m va, pdEntry root m va]
        (pdEntry root m va) ((pdEntry root m va).extractLsb' 21 31 ++ ptIdx va)
        ((pdEntry root m va).getLsbD 12)) := by
  simp [translate, large.pml4Present, large.pml4Table, large.pdptPresent, large.pdptTable,
    large.pdPresent, large.leaf, format]

theorem translate_page (pt : ReachesPt root m va) : translate m.memory root va =
      if present (ptEntry root m va) then some (leafTranslation
          [pml4Entry root m va, pdptEntry root m va, pdEntry root m va,
            ptEntry root m va]
          (ptEntry root m va) (frameOf (ptEntry root m va))
          ((ptEntry root m va).getLsbD 7)) else none := by
  simp only [translate, pt.pml4Present, pt.pml4Table, pt.pdptPresent, pt.pdptTable, pt.pdPresent,
    pt.pdTable, Bool.not_true, Bool.or_self, Bool.false_eq_true, ite_false]
  cases present (ptEntry root m va) <;> rfl

end Shape

abbrev anywhere : List Index → Prop := Inside fun _ => True

/-- No table is shared, every table is allocated, and reserved bits are clear. Leaves may have
any size and attributes, and map the tables. -/
structure WellFormed (root : Frame) (m : Machine) : Prop where
  unshared : Unshared child anywhere m.memory root
  allocated : ∀ path table, anywhere path → tableAt m root path = some table →
    m.allocated table = true
  format : ∀ va, FormatOk root m va

theorem anywhere_of_length {path : List Index} (lengthLe : path.length ≤ 3) : anywhere path :=
  ⟨lengthLe, fun _ _ => trivial⟩

theorem ReachesPdpt.tableAt_eq (pdpt : ReachesPdpt root m va) :
    tableAt m root [pml4Idx va] = some (frameOf (pml4Entry root m va)) := by
  simp [tableAt, descend, child, pdpt.pml4Present, pdpt.pml4Table]

theorem ReachesPd.tableAt_eq (pd : ReachesPd root m va) :
    tableAt m root [pml4Idx va, pdptIdx va] =
      some (frameOf (pdptEntry root m va)) := by
  simp [tableAt, descend, child, pd.pml4Present, pd.pml4Table, pd.pdptPresent, pd.pdptTable]

theorem ReachesPt.tableAt_eq (pt : ReachesPt root m va) :
    tableAt m root (dirs va) = some (frameOf (pdEntry root m va)) := by
  simp [tableAt, descend, child, dirs, pt.pml4Present, pt.pml4Table, pt.pdptPresent, pt.pdptTable,
    pt.pdPresent, pt.pdTable]

/-- The leaf that maps an address maps another one, too. -/
inductive Covers (root : Frame) (m : Machine) (va other : Word) : Prop
  | page (same : pageOf other = pageOf va)
  | gigabyte (large : GigabytePage root m va) (samePml4 : pml4Idx other = pml4Idx va)
      (samePdpt : pdptIdx other = pdptIdx va)
  | megabytes (large : MegabytesPage root m va)
      (samePml4 : pml4Idx other = pml4Idx va) (samePdpt : pdptIdx other = pdptIdx va)
      (samePd : pdIdx other = pdIdx va)

/-- A tree with a single path, from the root at frame 1 through frame 2 to the page directory at
frame 3, with the given first entry. Other frames are filled with ones. -/
def onePath (pde : Word) (answers : List Frame) : Machine where
  memory frame i :=
    if i ≠ 0 ∧ frame ∈ [1, 2, 3] then 0
    else if frame = 1 then tableEntry 2 0
    else if frame = 2 then tableEntry 3 0
    else if frame = 3 then pde
    else BitVec.allOnes 64
  allocated frame := frame ∈ [1, 2, 3]
  answers := answers

variable {pde : Word} {answers : List Frame} {path : List Index} {table : Frame} {i : Index}

theorem onePath_other (isTable : frame ∈ [1, 2, 3]) (notFirst : i ≠ 0) :
    (onePath pde answers).memory frame i = 0#64 :=
  if_pos ⟨notFirst, isTable⟩

theorem child_onePath (leaf : child pde = none) {next : Frame} (isTable : frame ∈ [1, 2, 3])
    (points : child ((onePath pde answers).memory frame i) = some next) :
    i = 0 ∧ (frame = 1 ∧ next = 2 ∨ frame = 2 ∧ next = 3) := by
  by_cases first : i = 0
  · subst first
    simp only [List.mem_cons, List.not_mem_nil, or_false] at isTable
    rcases isTable with rfl | rfl | rfl
    · exact ⟨rfl, .inl ⟨rfl, some.inj (points.symm.trans (child_tableEntry 2 0))⟩⟩
    · exact ⟨rfl, .inr ⟨rfl, some.inj (points.symm.trans (child_tableEntry 3 0))⟩⟩
    · cases leaf.symm.trans points
  · rw [onePath_other isTable first] at points
    cases points

theorem tableAt_onePath (leaf : child pde = none)
    (reaches : tableAt (onePath pde answers) 1 path = some table) :
    (path = [] ∧ table = 1) ∨ (path = [0] ∧ table = 2) ∨ (path = [0, 0] ∧ table = 3) := by
  cases path with
  | nil => exact .inl ⟨rfl, (some.inj reaches).symm⟩
  | cons first path =>
    obtain ⟨pdpt, toPdpt, reaches⟩ := bind_eq_some_iff.mp reaches
    obtain ⟨rfl, which⟩ := child_onePath leaf (by decide) toPdpt
    obtain rfl : pdpt = 2 := by simpa using which
    cases path with
    | nil => exact .inr (.inl ⟨rfl, (some.inj reaches).symm⟩)
    | cons second path =>
      obtain ⟨pd, toPd, reaches⟩ := bind_eq_some_iff.mp reaches
      obtain ⟨rfl, which⟩ := child_onePath leaf (by decide) toPd
      obtain rfl : pd = 3 := by simpa using which
      cases path with
      | nil => exact .inr (.inr ⟨rfl, (some.inj reaches).symm⟩)
      | cons third path =>
        obtain ⟨pt, toPt, _⟩ := bind_eq_some_iff.mp reaches
        have := (child_onePath leaf (by decide) toPt).2
        simp at this

theorem wellFormed_onePath (leaf : child pde = none) (reserved : pde.extractLsb' 13 8 = 0#8) :
    WellFormed 1 (onePath pde answers) where
  unshared := by
    intro left right node _ _ leftReaches rightReaches
    rcases tableAt_onePath leaf leftReaches with ⟨rfl, rfl⟩ | ⟨rfl, rfl⟩ | ⟨rfl, rfl⟩ <;>
      rcases tableAt_onePath leaf rightReaches with ⟨rfl, same⟩ | ⟨rfl, same⟩ | ⟨rfl, same⟩ <;>
      first | rfl | simp at same
  allocated := by
    intro path table _ reaches
    rcases tableAt_onePath leaf reaches with ⟨_, rfl⟩ | ⟨_, rfl⟩ | ⟨_, rfl⟩ <;> rfl
  format := by
    intro va
    have pdpt : ReachesPdpt 1 (onePath pde answers) va →
        frameOf (pml4Entry 1 (onePath pde answers) va) = 2 := fun reaches => by
      have := tableAt_onePath leaf reaches.tableAt_eq
      simp at this
      exact this.2
    have pd : ReachesPd 1 (onePath pde answers) va →
        frameOf (pdptEntry 1 (onePath pde answers) va) = 3 := fun reaches => by
      have := tableAt_onePath leaf reaches.tableAt_eq
      simp at this
      exact this.2
    refine ⟨fun isPresent => ?_, fun large => ?_, fun large => ?_⟩
    · by_cases first : pml4Idx va = 0
      · rw [pml4Entry, first]
        exact huge_tableEntry
      · rw [pml4Entry, onePath_other (by decide) first] at isPresent
        cases isPresent
    · have isPresent := large.pdptPresent
      have isLeaf := large.leaf
      rw [pdptEntry, pdpt large.toReachesPdpt] at isPresent isLeaf
      by_cases first : pdptIdx va = 0
      · rw [first] at isLeaf
        cases huge_tableEntry.symm.trans isLeaf
      · rw [onePath_other (by decide) first] at isPresent
        cases isPresent
    · have isPresent := large.pdPresent
      rw [pdEntry, pd large.toReachesPd] at isPresent ⊢
      by_cases first : pdIdx va = 0
      · rw [first]
        exact reserved
      · rw [onePath_other (by decide) first] at isPresent
        cases isPresent

def largeEntry : Word := 0x40000000 ||| ptePresent ||| pteWritable ||| pteHuge

theorem wellFormed_largeEntry (answers : List Frame) : WellFormed 1 (onePath largeEntry answers) :=
  wellFormed_onePath (by decide) (by decide)

end LaOS.Vmm
