import LaOS.VmmTree

/-!
# Mapping and unmapping in a tree without large pages

A successful call of `__vmm_map` or `__vmm_unmap` sets or clears the leaf of one page
and leaves all other pages alone, and a call that fails changes no leaf.
-/

namespace LaOS.Vmm

open List RadixTree

variable {scope : Index → Prop} {root table : Frame} {m mid after : Machine}
  {path : List Index} {i : Index} {va other paddr flags word : Word}

/-- The number of the page of an address, without the copies of bit 47. -/
def pageOf (va : Word) : BitVec 36 := va.extractLsb' 12 36

theorem pageOf_eq_iff :
    pageOf va = pageOf other ↔ dirs va = dirs other ∧ ptIdx va = ptIdx other := by
  constructor
  · intro same
    have bits : ∀ bit < 36, va.getLsbD (12 + bit) = other.getLsbD (12 + bit) := by
      intro bit bitLt
      have := congrArg (BitVec.getLsbD · bit) same
      simpa [pageOf, bitLt] using this
    have pieces : ∀ start, start ≤ 27 →
        va.extractLsb' (12 + start) 9 = other.extractLsb' (12 + start) 9 := by
      intro start startLe
      refine BitVec.eq_of_getLsbD_eq fun bit bitLt => ?_
      simp only [BitVec.getLsbD_extractLsb', bitLt, decide_true, Bool.true_and]
      rw [Nat.add_assoc]
      exact bits (start + bit) (by omega)
    refine ⟨?_, pieces 0 (by omega)⟩
    simp only [dirs, pml4Idx, pdptIdx, pdIdx, pieces 27 (by omega), pieces 18 (by omega),
      pieces 9 (by omega)]
  rintro ⟨sameDirs, samePt⟩
  simp only [dirs, cons.injEq, and_true] at sameDirs
  obtain ⟨samePml4, samePdpt, samePd⟩ := sameDirs
  have piece : ∀ start, va.extractLsb' start 9 = other.extractLsb' start 9 →
      ∀ bit < 9, va.getLsbD (start + bit) = other.getLsbD (start + bit) := by
    intro start same bit bitLt
    have := congrArg (BitVec.getLsbD · bit) same
    simpa [bitLt] using this
  refine BitVec.eq_of_getLsbD_eq fun bit bitLt => ?_
  simp only [pageOf, BitVec.getLsbD_extractLsb', bitLt, decide_true, Bool.true_and]
  have parts : bit < 9 ∨ (9 ≤ bit ∧ bit < 18) ∨ (18 ≤ bit ∧ bit < 27) ∨ 27 ≤ bit := by omega
  rcases parts with low | low | high | high
  · exact piece 12 samePt bit low
  · have := piece 21 samePd (bit - 9) (by omega)
    rwa [show 21 + (bit - 9) = 12 + bit by omega] at this
  · have := piece 30 samePdpt (bit - 18) (by omega)
    rwa [show 30 + (bit - 18) = 12 + bit by omega] at this
  · have := piece 39 samePml4 (bit - 27) (by omega)
    rwa [show 39 + (bit - 27) = 12 + bit by omega] at this

theorem leafOf_eq_of_pageOf (same : pageOf va = pageOf other) :
    leafOf m root va = leafOf m root other := by
  obtain ⟨sameDirs, samePt⟩ := pageOf_eq_iff.mp same
  simp only [leafOf, sameDirs, samePt]

section Leaf

variable (ok : TreeOk scope root m) (inScope : scope (pml4Idx va))
  (reaches : tableAt m root (dirs va) = some table)

include ok inScope reaches

theorem not_leaf_slot (isInside : Inside scope (path ++ [i])) {node : Frame}
    (pathReaches : tableAt m root path = some node) : node ≠ table := by
  rintro rfl
  have samePath := ok.unshared path (dirs va) node (inside_closed scope path i isInside)
    (inside_dirs inScope) pathReaches reaches
  have lengthLe := isInside.1
  rw [samePath] at lengthLe
  simp [dirs] at lengthLe

theorem memory_writeLeaf (isInside : Inside scope (path ++ [i])) {node : Frame}
    (pathReaches : tableAt m root path = some node) :
    (m.write table (ptIdx va) word).memory node i = m.memory node i :=
  write_memory_of_ne fun same => not_leaf_slot ok inScope reaches isInside pathReaches same.1

theorem tableAt_writeLeaf (isInside : Inside scope path) :
    tableAt (m.write table (ptIdx va) word) root path = tableAt m root path := by
  refine descend_of_agree (inside_closed scope) (dirs va ++ [ptIdx va]) ?_ isInside ?_
  · intro path node i inside pathReaches _
    rw [memory_writeLeaf ok inScope reaches inside pathReaches]
  · intro tooLong
    have := tooLong.length_le.trans isInside.1
    simp [dirs] at this

theorem treeOk_writeLeaf : TreeOk scope root (m.write table (ptIdx va) word) where
  unshared := by
    intro left right node leftInside rightInside leftReaches rightReaches
    exact ok.unshared left right node leftInside rightInside
      ((tableAt_writeLeaf ok inScope reaches leftInside).symm.trans leftReaches)
      ((tableAt_writeLeaf ok inScope reaches rightInside).symm.trans rightReaches)
  allocated := by
    intro path node isInside pathReaches
    rw [tableAt_writeLeaf ok inScope reaches isInside] at pathReaches
    exact ok.allocated path node isInside pathReaches
  directory := by
    intro path node i isInside pathReaches
    rw [tableAt_writeLeaf ok inScope reaches (inside_closed scope path i isInside)]
      at pathReaches
    rw [memory_writeLeaf ok inScope reaches isInside pathReaches]
    exact ok.directory path node i isInside pathReaches

theorem leafOf_writeLeaf (otherInScope : scope (pml4Idx other)) :
    leafOf (m.write table (ptIdx va) word) root other =
      if pageOf other = pageOf va then (if present word then some word else none)
      else leafOf m root other := by
  simp only [leafOf, tableAt_writeLeaf ok inScope reaches (inside_dirs otherInScope)]
  split
  · next same =>
    obtain ⟨sameDirs, samePt⟩ := pageOf_eq_iff.mp same
    rw [sameDirs, reaches, samePt]
    simp
  next differs =>
  cases otherReaches : tableAt m root (dirs other) with
  | none => rfl
  | some node =>
    have slotNe : ¬ (node = table ∧ ptIdx other = ptIdx va) := by
      rintro ⟨rfl, samePt⟩
      refine differs (pageOf_eq_iff.mpr ⟨?_, samePt⟩)
      exact ok.unshared _ _ node (inside_dirs otherInScope) (inside_dirs inScope)
        otherReaches reaches
    simp only [Option.bind_some, write_memory_of_ne slotNe]

theorem pathUser_writeLeaf (otherInScope : scope (pml4Idx other))
    (granted : PathUser m root other) :
    PathUser (m.write table (ptIdx va) word) root other := by
  intro path i node begins pathReaches
  have isInside := inside_of_begins (inside_dirs otherInScope) begins
  rw [tableAt_writeLeaf ok inScope reaches (inside_closed scope path i isInside)]
    at pathReaches
  rw [memory_writeLeaf ok inScope reaches isInside pathReaches]
  exact granted path i node begins pathReaches

theorem userOk_writeLeaf (userOk : UserOk scope root m)
    (granted : present word = true → user word = true → PathUser m root va) :
    UserOk scope root (m.write table (ptIdx va) word) := by
  intro other leaf otherInScope found leafUser
  refine pathUser_writeLeaf ok inScope reaches otherInScope ?_
  rw [leafOf_writeLeaf ok inScope reaches otherInScope] at found
  split at found
  · next same =>
    obtain ⟨isPresent, ⟨⟩⟩ := Option.ite_none_right_eq_some.mp found
    have pathUser := granted isPresent leafUser
    simp only [PathUser, (pageOf_eq_iff.mp same).1] at pathUser ⊢
    exact pathUser
  · exact userOk other leaf otherInScope found leafUser

end Leaf

/-- What `__vmm_map` may do in a tree without large pages. -/
inductive MapEffect (scope : Index → Prop) (root : Frame) (va paddr flags : Word)
    (overwriteOk : Bool) (m : Machine) : Except Panic (Bool × Machine) → Prop
  | failed {after : Machine} (grows : Grows scope root m after)
      (vacant : leafOf m root va = none) :
      MapEffect scope root va paddr flags overwriteOk m (.ok (false, after))
  | mapped {mid : Machine} {table : Frame} (grows : Grows scope root m mid)
      (reaches : tableAt mid root (dirs va) = some table)
      (pathUser : user flags = true → PathUser mid root va)
      (vacant : overwriteOk = false → leafOf m root va = none) :
      MapEffect scope root va paddr flags overwriteOk m
        (.ok (true, mid.write table (ptIdx va) ((paddr &&& pteAddrMask) ||| flags)))
  | panicked (refused : overwriteOk = false)
      (taken : (leafOf m root va).isSome = true) :
      MapEffect scope root va paddr flags overwriteOk m (.error .overwritingMapping)

theorem pathUser_of_entries {pdpt pd : Frame}
    (atPdpt : tableAt m root [pml4Idx va] = some pdpt)
    (atPd : tableAt m root [pml4Idx va, pdptIdx va] = some pd)
    (pml4User : user (m.memory root (pml4Idx va)) = true)
    (pdptUser : user (m.memory pdpt (pdptIdx va)) = true)
    (pdUser : user (m.memory pd (pdIdx va)) = true) : PathUser m root va := by
  intro path i table begins reaches
  have lengthLe := begins.length_le
  obtain ⟨rest, split⟩ := begins
  match path, rest with
  | [], _ =>
    simp only [dirs, nil_append, singleton_append, cons.injEq] at split
    cases reaches
    rw [split.1]
    exact pml4User
  | [first], _ =>
    obtain ⟨rfl, rfl, _⟩ := split
    obtain rfl := Option.some.inj (reaches.symm.trans atPdpt)
    exact pdptUser
  | [first, second], _ =>
    obtain ⟨rfl, rfl, rfl, _⟩ := split
    obtain rfl := Option.some.inj (reaches.symm.trans atPd)
    exact pdUser
  | first :: second :: third :: more, _ =>
    simp only [dirs, length_append, length_cons, length_nil] at lengthLe
    omega

theorem inside_levels (inScope : scope (pml4Idx va)) :
    Inside scope ([] ++ [pml4Idx va]) ∧ Inside scope ([pml4Idx va] ++ [pdptIdx va]) ∧
      Inside scope (dirs va) :=
  have dirsInside := inside_dirs inScope
  ⟨inside_of_begins dirsInside ⟨[pdptIdx va, pdIdx va], rfl⟩,
    inside_of_begins dirsInside ⟨[pdIdx va], rfl⟩, dirsInside⟩

theorem leafOf_of_absent {path : List Index} (absent : tableAt m root path = none)
    (begins : path <+: dirs va) : leafOf m root va = none := by
  obtain ⟨rest, split⟩ := begins
  have below : tableAt m root (path ++ rest) = (tableAt m root path).bind _ := List.foldlM_append
  rw [leafOf, ← split, below, absent]
  rfl

/-- Only a table that is missing can be refused. -/
theorem absent_of_ensureTable {stride : Option Word} {path : List Index} {i : Index}
    {table : Frame} (ok : TreeOk scope root m) (isInside : Inside scope (path ++ [i]))
    (reaches : tableAt m root path = some table)
    (refused : (ensureTable stride table i flags m).1 = none) :
    tableAt m root (path ++ [i]) = none := by
  by_cases isPresent : present (m.memory table i) = true
  · have notHuge := (ok.directory path table i isInside reaches isPresent).notHuge
    rw [ensureTable_present isPresent (.inr notHuge)] at refused
    cases refused
  · rw [tableAt, descend_concat_of reaches, child_of_absent (Bool.eq_false_iff.mpr isPresent)]

theorem vmmMapLocked_effect (ok : TreeOk scope root m) (inScope : scope (pml4Idx va))
    (overwriteOk : Bool) : MapEffect scope root va paddr flags overwriteOk m
      (vmmMapLocked root va paddr flags overwriteOk m) := by
  obtain ⟨firstInside, secondInside, thirdInside⟩ := inside_levels inScope
  simp only [vmmMapLocked, pml4Idx_page, pdptIdx_page, pdIdx_page, ptIdx_page]
  obtain ⟨growsFirst, firstSome⟩ := ensureTable_spec ok none flags firstInside rfl
  rcases firstEq : ensureTable none root (pml4Idx va) flags m with ⟨_ | pdpt, first⟩
  · have absent := absent_of_ensureTable ok firstInside rfl (congrArg Prod.fst firstEq)
    rw [firstEq] at growsFirst
    exact .failed growsFirst (leafOf_of_absent absent ⟨_, rfl⟩)
  rw [firstEq] at growsFirst firstSome
  obtain ⟨atPdpt, pml4User⟩ := firstSome pdpt rfl
  obtain ⟨growsSecond, secondSome⟩ :=
    ensureTable_spec growsFirst.ok (some 0x200000) flags secondInside atPdpt
  simp only
  rcases secondEq : ensureTable (some 0x200000) pdpt (pdptIdx va) flags first with
    ⟨_ | pd, second⟩
  · have absent :=
      absent_of_ensureTable growsFirst.ok secondInside atPdpt (congrArg Prod.fst secondEq)
    rw [secondEq] at growsSecond
    refine .failed (growsFirst.trans growsSecond) ?_
    rw [← growsFirst.leafOf_eq inScope, leafOf_of_absent absent ⟨_, rfl⟩]
  rw [secondEq] at growsSecond secondSome
  obtain ⟨atPd, pdptUser⟩ := secondSome pd rfl
  obtain ⟨growsThird, thirdSome⟩ :=
    ensureTable_spec growsSecond.ok (some 0x1000) flags thirdInside atPd
  simp only
  rcases thirdEq : ensureTable (some 0x1000) pd (pdIdx va) flags second with ⟨_ | pt, third⟩
  · have absent :=
      absent_of_ensureTable growsSecond.ok thirdInside atPd (congrArg Prod.fst thirdEq)
    rw [thirdEq] at growsThird
    refine .failed ((growsFirst.trans growsSecond).trans growsThird) ?_
    rw [← (growsFirst.trans growsSecond).leafOf_eq inScope, leafOf_of_absent absent ⟨_, rfl⟩]
  rw [thirdEq] at growsThird thirdSome
  obtain ⟨atPt, pdUser⟩ := thirdSome pt rfl
  have grows := (growsFirst.trans growsSecond).trans growsThird
  have leafEq : leafOf m root va =
      if present (third.memory pt (ptIdx va)) then some (third.memory pt (ptIdx va))
      else none := by
    rw [← grows.leafOf_eq inScope]
    exact congrArg (Option.bind · _) atPt
  simp only
  split
  · next taken =>
    simp only [Bool.and_eq_true, Bool.not_eq_true'] at taken
    refine .panicked taken.2 ?_
    rw [leafEq, if_pos taken.1]
    rfl
  next notTaken =>
  refine .mapped grows atPt (fun allowed => ?_) fun refused => ?_
  · have pdptSecond := growsSecond.keeps _ pdpt firstInside atPdpt
    have pdptThird := growsThird.keeps _ pdpt firstInside pdptSecond
    have pdThird := growsThird.keeps _ pd secondInside atPd
    refine pathUser_of_entries pdptThird pdThird ?_ ?_ (pdUser allowed)
    · exact growsThird.user [] root _ pdpt firstInside rfl pdptSecond
        (growsSecond.user [] root _ pdpt firstInside rfl atPdpt (pml4User allowed))
    · exact growsThird.user [pml4Idx va] pdpt _ pd secondInside pdptSecond atPd
        (pdptUser allowed)
  · rw [leafEq, if_neg fun isPresent => notTaken (by simp [isPresent, refused])]

section Walk

variable (m root va)

/-- The entries that the walk of an address reads, as long as they are entries
for tables. -/
abbrev pml4Entry : Word := m.memory root (pml4Idx va)

abbrev pdptEntry : Word :=
  m.memory (frameOf (pml4Entry root m va)) (pdptIdx va)

abbrev pdEntry : Word := m.memory (frameOf (pdptEntry root m va)) (pdIdx va)

abbrev ptEntry : Word := m.memory (frameOf (pdEntry root m va)) (ptIdx va)

inductive Walk : Prop
  | noPdpt (absent : present (pml4Entry root m va) = false)
  | noPd (pml4Present : present (pml4Entry root m va) = true)
      (pml4Directory : Directory (pml4Entry root m va))
      (absent : present (pdptEntry root m va) = false)
  | noPt (pml4Present : present (pml4Entry root m va) = true)
      (pml4Directory : Directory (pml4Entry root m va))
      (pdptPresent : present (pdptEntry root m va) = true)
      (pdptDirectory : Directory (pdptEntry root m va))
      (absent : present (pdEntry root m va) = false)
  | complete (pml4Present : present (pml4Entry root m va) = true)
      (pml4Directory : Directory (pml4Entry root m va))
      (pdptPresent : present (pdptEntry root m va) = true)
      (pdptDirectory : Directory (pdptEntry root m va))
      (pdPresent : present (pdEntry root m va) = true)
      (pdDirectory : Directory (pdEntry root m va))

variable {m root va}

theorem tableAt_dirs : tableAt m root (dirs va) =
      (child (pml4Entry root m va)).bind fun pdpt =>
        (child (m.memory pdpt (pdptIdx va))).bind fun pd =>
          child (m.memory pd (pdIdx va)) := by
  simp [tableAt, descend, dirs]

theorem child_of_directory {entry : Word} (isPresent : present entry = true)
    (directory : Directory entry) : child entry = some (frameOf entry) := by
  simp [child, isPresent, directory.notHuge]

theorem TreeOk.walk (ok : TreeOk scope root m) (inScope : scope (pml4Idx va)) :
    Walk root m va := by
  obtain ⟨firstInside, secondInside, thirdInside⟩ := inside_levels inScope
  cases pml4Present : present (pml4Entry root m va) with
  | false => exact .noPdpt pml4Present
  | true =>
    have pml4Directory := ok.directory [] root _ firstInside rfl pml4Present
    have atPdpt : tableAt m root ([] ++ [pml4Idx va]) =
        some (frameOf (pml4Entry root m va)) :=
      (descend_concat_of rfl).trans (child_of_directory pml4Present pml4Directory)
    cases pdptPresent : present (pdptEntry root m va) with
    | false => exact .noPd pml4Present pml4Directory pdptPresent
    | true =>
      have pdptDirectory := ok.directory _ _ _ secondInside atPdpt pdptPresent
      have atPd := (descend_concat_of atPdpt).trans (child_of_directory pdptPresent pdptDirectory)
      cases pdPresent : present (pdEntry root m va) with
      | false => exact .noPt pml4Present pml4Directory pdptPresent pdptDirectory pdPresent
      | true =>
        exact .complete pml4Present pml4Directory pdptPresent pdptDirectory pdPresent
          (ok.directory _ _ _ thirdInside atPd pdPresent)

theorem Walk.tableAt_eq (walk : Walk root m va) : tableAt m root (dirs va) =
      if present (pml4Entry root m va) && present (pdptEntry root m va) &&
        present (pdEntry root m va) then some (frameOf (pdEntry root m va))
      else none := by
  rw [tableAt_dirs]
  cases walk with
  | noPdpt absent => simp [child_of_absent absent, absent]
  | noPd pml4Present pml4Directory absent =>
    simp [child_of_directory pml4Present pml4Directory, child_of_absent absent, absent]
  | noPt pml4Present pml4Directory pdptPresent pdptDirectory absent =>
    simp [child_of_directory pml4Present pml4Directory,
      child_of_directory pdptPresent pdptDirectory, child_of_absent absent, absent]
  | complete pml4Present pml4Directory pdptPresent pdptDirectory pdPresent pdDirectory =>
    simp [child_of_directory pml4Present pml4Directory,
      child_of_directory pdptPresent pdptDirectory, child_of_directory pdPresent pdDirectory,
      pml4Present, pdptPresent, pdPresent]

theorem vmmUnmap_effect (ok : TreeOk scope root m) (va : Word)
    (inScope : scope (pml4Idx va)) :
    (leafOf m root va = none ∧ vmmUnmap root va m = (false, m)) ∨
      ∃ table, tableAt m root (dirs va) = some table ∧
        vmmUnmap root va m = (true, m.write table (ptIdx va) 0) := by
  have walk := ok.walk inScope
  have table := walk.tableAt_eq
  simp only [vmmUnmap, pml4Idx_page, pdptIdx_page, pdIdx_page, ptIdx_page, leafOf, table]
  cases walk with
  | noPdpt absent => exact .inl (by simp [absent])
  | noPd pml4Present _ absent => exact .inl (by simp [pml4Present, absent])
  | noPt pml4Present _ pdptPresent _ absent =>
    exact .inl (by simp [pml4Present, pdptPresent, absent])
  | complete pml4Present _ pdptPresent _ pdPresent _ =>
    all_goals simp [pml4Present, pdptPresent, pdPresent]

theorem PathUser.entries (granted : PathUser m root va)
    (pml4Present : present (pml4Entry root m va) = true)
    (pml4Directory : Directory (pml4Entry root m va))
    (pdptPresent : present (pdptEntry root m va) = true)
    (pdptDirectory : Directory (pdptEntry root m va)) :
    user (pml4Entry root m va) = true ∧ user (pdptEntry root m va) = true ∧
      user (pdEntry root m va) = true := by
  have atPdpt : tableAt m root ([] ++ [pml4Idx va]) =
      some (frameOf (pml4Entry root m va)) :=
    (descend_concat_of rfl).trans (child_of_directory pml4Present pml4Directory)
  have atPd := (descend_concat_of atPdpt).trans (child_of_directory pdptPresent pdptDirectory)
  exact ⟨granted [] _ root ⟨[pdptIdx va, pdIdx va], rfl⟩ rfl,
    granted [pml4Idx va] _ _ ⟨[pdIdx va], rfl⟩ atPdpt,
    granted [pml4Idx va, pdptIdx va] _ _ prefix_rfl atPd⟩

/-- The translation of a page whose directories do not restrict it. -/
def leafOnly (leaf : Word) : Translation :=
  leafTranslation [leaf] leaf (frameOf leaf) (leaf.getLsbD 7)

theorem translate_eq (ok : TreeOk scope root m) (userOk : UserOk scope root m)
    (inScope : scope (pml4Idx va)) :
    translate m.memory root va = (leafOf m root va).map leafOnly := by
  have walk := ok.walk inScope
  have table := walk.tableAt_eq
  have pathUser := fun leaf found => userOk va leaf inScope found
  simp only [leafOf, table] at pathUser ⊢
  cases walk with
  | noPdpt absent => simp [translate, absent]
  | noPd pml4Present pml4Directory absent =>
    simp [translate, pml4Present, pml4Directory.notHuge, absent]
  | noPt pml4Present pml4Directory pdptPresent pdptDirectory absent =>
    simp [translate, pml4Present, pml4Directory.notHuge, pdptPresent, pdptDirectory.notHuge, absent]
  | complete pml4Present pml4Directory pdptPresent pdptDirectory pdPresent pdDirectory =>
    simp only [translate, pml4Present, pml4Directory.notHuge, pdptPresent,
      pdptDirectory.notHuge, pdPresent, pdDirectory.notHuge, Bool.not_true, Bool.or_self,
      Bool.false_eq_true, ite_false, Bool.and_self, ite_true, Option.bind_some] at pathUser ⊢
    cases leafPresent : present (ptEntry root m va) with
    | false => simp
    | true =>
      simp only [leafPresent, ite_true, Option.some.injEq, forall_eq'] at pathUser
      have sameUser : (user (pml4Entry root m va) &&
          (user (pdptEntry root m va) && (user (pdEntry root m va) &&
            user (ptEntry root m va)))) = user (ptEntry root m va) := by
        cases leafUser : user (ptEntry root m va) with
        | false => simp
        | true =>
          obtain ⟨pml4User, pdptUser, pdUser⟩ := (pathUser leafUser).entries pml4Present
            pml4Directory pdptPresent pdptDirectory
          rw [pml4User, pdptUser, pdUser]
          rfl
      simp only [Bool.not_true, Bool.false_eq_true, ite_false, ite_true, Option.map_some,
        leafOnly, leafTranslation, all_cons, any_cons,
        all_nil, any_nil, Bool.and_true, Bool.or_false, pml4Directory.writable,
        pdptDirectory.writable, pdDirectory.writable, pml4Directory.executable,
        pdptDirectory.executable, pdDirectory.executable, Bool.true_and, Bool.false_or,
        sameUser]

end Walk

end LaOS.Vmm
