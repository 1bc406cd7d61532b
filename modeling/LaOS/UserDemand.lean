import LaOS.UserLoading

/-!
# The frames that loading asks for

A page that is not mapped yet takes a frame, and so does each table on its way that no
earlier page needed.
-/

namespace LaOS.UserSpace

open List Function Vmm RadixTree WordBytes

variable {root phys : Frame} {m before after : Machine} {va flags : Word}
  {lost : List Frame} {image : List Byte} {ph : Phdr}

/-- How many calls of `pmm_alloc` succeed before one fails. -/
def supplyOf : (Frame → Bool) → List Frame → Nat
  | _, [] => 0
  | allocated, frame :: answers =>
    if frame = 0 ∨ allocated frame = true then 0
    else supplyOf (update allocated frame true) answers + 1

def supply (m : Machine) : Nat := supplyOf m.allocated m.answers

inductive Request
  | page
  | table
  deriving DecidableEq

/-- The tables on the way to an address. -/
def tablePaths (vaddr : Word) : List (List Index) :=
  [[pml4Idx vaddr]] ++ [[pml4Idx vaddr, pdptIdx vaddr]] ++ [dirs vaddr]

/-- The tables on the way to a page that no earlier page needs. -/
def newTables (earlier : List Word) (vaddr : Word) : Nat :=
  (tablePaths vaddr).countP fun path => !earlier.any fun other => path <+: dirs other

def pageRequests (earlier : List Word) (vaddr : Word) : List Request :=
  if earlier.any fun other => pageOf other = pageOf vaddr then []
  else .page :: replicate (newTables earlier vaddr) .table

/-- The requests for a list of pages, when earlier ones are mapped and none is refused. -/
def requests : List Word → List Word → List Request
  | _, [] => []
  | earlier, vaddr :: later => pageRequests earlier vaddr ++ requests (vaddr :: earlier) later

def Phdr.pageList (ph : Phdr) : List Word :=
  (List.range ph.pages).map fun i => BitVec.ofNat 64 (ph.pageVaddr i)

/-- The root gets a frame, and the first request of the loader that is refused, if there is one,
is not for a table. -/
def LoadsCleanly (image : List Byte) (m : Machine) : Prop :=
  supply m ≠ 0 ∧
    (requests [] ((loads image).flatMap Phdr.pageList))[supply m - 1]? ≠ some .table

instance (image : List Byte) (m : Machine) : Decidable (LoadsCleanly image m) :=
  inferInstanceAs (Decidable (_ ∧ _))

theorem requests_append {old first second : List Word} :
    requests old (first ++ second) =
      requests old first ++ requests (first.reverse ++ old) second := by
  induction first generalizing old with
  | nil => rfl
  | cons va first ih => simp [requests, ih]

theorem requests_lead {old first second : List Word} {index : Nat} {kind : Request}
    (found : (requests old first)[index]? = some kind) :
    (requests old (first ++ second))[index]? = some kind := by
  obtain ⟨inside, -⟩ := List.getElem?_eq_some_iff.mp found
  rw [requests_append, getElem?_append_left inside, found]

theorem pmmAlloc_of_supply {left : Nat} (enough : supply m = left + 1) :
    ∃ phys answers, phys ≠ 0 ∧ m.allocated phys = false ∧
      pmmAlloc m = (phys, granted m phys answers) ∧
      supply (granted m phys answers) = left := by
  rw [supply] at enough
  cases answersEq : m.answers with
  | nil =>
    rw [answersEq] at enough
    cases enough
  | cons frame answers =>
    rw [answersEq, supplyOf] at enough
    split at enough
    next => cases enough
    next usable =>
      simp only [not_or, Bool.not_eq_true] at usable
      refine ⟨frame, answers, usable.1, usable.2, ?_, Nat.succ.inj enough⟩
      simp only [pmmAlloc, answersEq]
      exact if_neg fun unusable => unusable.elim usable.1 fun inUse => by
        rw [usable.2] at inUse
        cases inUse

theorem pmmAlloc_of_exhausted (exhausted : supply m = 0) :
    ∃ answers, pmmAlloc m = (0, { m with answers }) := by
  rw [supply] at exhausted
  cases answersEq : m.answers with
  | nil =>
    refine ⟨[], ?_⟩
    simp only [pmmAlloc, answersEq]
    rw [← answersEq]
  | cons frame answers =>
    rw [answersEq, supplyOf] at exhausted
    split at exhausted
    next refused =>
      refine ⟨answers, ?_⟩
      simp only [pmmAlloc, answersEq]
      exact if_pos refused
    next => cases exhausted

/-- Some calls ask for a number of frames: all are granted, or the supply does not suffice. -/
inductive Draw (root : Frame) (m : Machine) (paths : List (List Index)) :
    Bool → Machine → Prop
  | served {after : Machine}
      (supplied : supply after + paths.countP (fun path => (tableAt m root path).isNone) =
        supply m)
      (tables : ∀ path, Inside low path → ((tableAt after root path).isSome = true ↔
        path ∈ paths ∨ (tableAt m root path).isSome = true)) :
      Draw root m paths true after
  | refused {after : Machine} (short : supply m <
      paths.countP fun path => (tableAt m root path).isNone) :
      Draw root m paths false after

theorem Draw.attached {slot : List Index} {new : Frame} (grows : Grows low root m after)
    (isInside : Inside low slot) (vacant : tableAt m root slot = none)
    (attached : tableAt after root slot = some new)
    (allocated : after.allocated = update m.allocated new true)
    (supplied : supply after + 1 = supply m) : Draw root m [slot] true after := by
  refine .served (by simpa [vacant] using supplied) fun path pathInside => ?_
  rw [mem_singleton]
  constructor
  · intro found
    obtain ⟨node, reaches⟩ := Option.isSome_iff_exists.mp found
    rcases grows.fresh path node pathInside reaches with older | ⟨isFree, -, -⟩
    · exact .inr (by rw [older]; rfl)
    · -- the only frame that was not allocated before is the new one
      have inUse := grows.ok.allocated path node pathInside reaches
      have isNew : node = new := by
        by_contra differs
        rw [allocated, update_of_ne differs, isFree] at inUse
        cases inUse
      rw [isNew] at reaches
      exact .inl (grows.ok.unshared path slot new pathInside isInside reaches attached)
  · rintro (rfl | older)
    · rw [attached]
      rfl
    · obtain ⟨node, reaches⟩ := Option.isSome_iff_exists.mp older
      rw [grows.keeps path node pathInside reaches]
      rfl

theorem ensureTable_draw {path : List Index} {index : Index} {table : Frame} {stride : Option Word}
    (ok : TreeOk low root m) (isInside : Inside low (path ++ [index]))
    (reaches : tableAt m root path = some table) :
    Draw root m [path ++ [index]]
      (ensureTable stride table index flags m).1.isSome
      (ensureTable stride table index flags m).2 := by
  by_cases isPresent : present (m.memory table index) = true
  · have notHuge := (ok.directory path table index isInside reaches isPresent).notHuge
    have same : ∀ other, tableAt
        (m.write table index (widen (m.memory table index) flags)) root other =
          tableAt m root other := by
      refine fun other => descend_congr fun node pos => ?_
      by_cases same : node = table ∧ pos = index
      · obtain ⟨rfl, rfl⟩ := same
        rw [write_memory_self, child_widen]
      · rw [write_memory_of_ne same]
    have atSlot : tableAt m root (path ++ [index]) =
        some (frameOf (m.memory table index)) := by
      rw [tableAt, descend_concat_of reaches, child, isPresent, notHuge]
      rfl
    rw [ensureTable_present isPresent (.inr notHuge)]
    refine .served ?_ fun other _ => ?_
    · simp [atSlot, supply, Machine.write]
    · rw [same, mem_singleton]
      exact ⟨.inr, fun either => either.elim (fun isSlot => by rw [isSlot, atSlot]; rfl) id⟩
  · have isAbsent := Bool.eq_false_iff.mpr isPresent
    have vacant : tableAt m root (path ++ [index]) = none := by
      rw [tableAt, descend_concat_of reaches, child_of_absent isAbsent]
    cases left : supply m with
    | zero =>
      obtain ⟨answers, refused⟩ := pmmAlloc_of_exhausted left
      simp only [ensureTable, isAbsent, refused, Bool.false_eq_true, if_false, if_true]
      exact .refused (by simp [left, vacant])
    | succ rest =>
      obtain ⟨new, answers, newNe, free, granting, supplied⟩ := pmmAlloc_of_supply left
      obtain ⟨grows, attached⟩ := ok.grows_attach flags answers isInside reaches isAbsent newNe free
      have created : ensureTable stride table index flags m = (some new,
          m.putTable new answers (fun _ => 0) table index (tableEntry new flags)) := by
        simp only [ensureTable, isAbsent, granting, if_neg newNe, Bool.false_eq_true, ite_false,
          write_memory_self, frameOf_tableEntry, Machine.putTable, granted]
      rw [created]
      exact .attached grows isInside vacant attached rfl (left ▸ congrArg Nat.succ supplied)

theorem Draw.trans {left right : List (List Index)} {mid : Machine} {served : Bool}
    (first : Draw root m left true mid) (inside : ∀ path ∈ right, Inside low path)
    (apart : ∀ path ∈ right, path ∉ left) (second : Draw root mid right served after) :
    Draw root m (left ++ right) served after := by
  cases first with
  | served supplied tables =>
    have sameCount : right.countP (fun path => (tableAt m root path).isNone) =
        right.countP fun path => (tableAt mid root path).isNone := by
      refine countP_congr fun path isIn => ?_
      have same := tables path (inside path isIn)
      rw [or_iff_right (apart path isIn)] at same
      rw [← Option.not_isSome, ← Option.not_isSome, Bool.not_eq_true', Bool.not_eq_true',
        ← Bool.not_eq_true, ← Bool.not_eq_true, same]
    cases second with
    | served suppliedToo tablesToo =>
      refine .served (by rw [countP_append, sameCount]; omega) fun path pathInside => ?_
      rw [tablesToo path pathInside, tables path pathInside, mem_append]
      tauto
    | refused short => exact .refused (by rw [countP_append, sameCount]; omega)

theorem Draw.stopped {left right : List (List Index)}
    (first : Draw root m left false after) :
    Draw root m (left ++ right) false after := by
  cases first with
  | refused short => exact .refused (by rw [countP_append]; omega)

theorem Draw.writeLeaf {paths : List (List Index)} {table : Frame} {word : Word}
    (draw : Draw root m paths true after) (ok : TreeOk low root after)
    (inScope : low (pml4Idx va)) (reaches : tableAt after root (dirs va) = some table) :
    Draw root m paths true (after.write table (ptIdx va) word) := by
  cases draw with
  | served supplied tables =>
    refine .served supplied fun path pathInside => ?_
    rw [tableAt_writeLeaf ok inScope reaches pathInside]
    exact tables path pathInside

/-- `vmm_map` for a vacant page takes a frame for each table that is missing on the way. -/
theorem vmmMap_draw (ok : TreeOk low root m) (inScope : low (pml4Idx va))
    (vacant : leafOf m root va = none) :
    ∃ mapped after, vmmMap root va (frameAddr phys) flags m = .ok (mapped, after) ∧
      Draw root m (tablePaths va) mapped after := by
  obtain ⟨firstInside, secondInside, thirdInside⟩ := inside_levels inScope
  have effect := @vmmMap_fresh root phys m va flags ok inScope
  simp only [vmmMap, vmmMapLocked, pml4Idx_page, pdptIdx_page, pdIdx_page, ptIdx_page] at effect ⊢
  obtain ⟨growsFirst, firstSome⟩ := ensureTable_spec ok none flags firstInside rfl
  have first := @ensureTable_draw root m flags _ _ root none ok firstInside rfl
  rcases firstEq : ensureTable none root (pml4Idx va) flags m with ⟨_ | pdpt, one⟩
  · rw [firstEq] at first
    exact ⟨false, one, rfl, first.stopped.stopped⟩
  rw [firstEq] at first firstSome growsFirst
  obtain ⟨atPdpt, -⟩ := firstSome pdpt rfl
  obtain ⟨growsSecond, secondSome⟩ :=
    ensureTable_spec growsFirst.ok (some 0x200000) flags secondInside atPdpt
  have second := first.trans (forall_mem_singleton.mpr secondInside) (by simp)
    (@ensureTable_draw root one flags _ _ pdpt (some 0x200000) growsFirst.ok secondInside atPdpt)
  simp only [firstEq] at effect ⊢
  rcases secondEq : ensureTable (some 0x200000) pdpt (pdptIdx va) flags one with ⟨_ | pd, two⟩
  · rw [secondEq] at second
    exact ⟨false, two, rfl, second.stopped⟩
  rw [secondEq] at second secondSome growsSecond
  obtain ⟨atPd, -⟩ := secondSome pd rfl
  obtain ⟨growsThird, thirdSome⟩ :=
    ensureTable_spec growsSecond.ok (some 0x1000) flags thirdInside atPd
  have third := second.trans (forall_mem_singleton.mpr thirdInside) (by simp [dirs])
    (@ensureTable_draw root two flags _ _ pd (some 0x1000) growsSecond.ok thirdInside atPd)
  simp only [secondEq] at effect ⊢
  rcases thirdEq : ensureTable (some 0x1000) pd (pdIdx va) flags two with ⟨_ | pt, three⟩
  · rw [thirdEq] at third
    exact ⟨false, three, rfl, third⟩
  rw [thirdEq] at third thirdSome growsThird
  simp only [thirdEq] at effect ⊢
  split at effect
  next =>
    cases effect with
    | panicked ran =>
      rw [vacant] at ran
      cases ran
  next isFree =>
    rw [if_neg isFree]
    exact ⟨true, _, rfl, third.writeLeaf growsThird.ok inScope (thirdSome pt rfl).1⟩

/-- The tree has the leaves of some pages and the tables on the way to them, and no others. -/
structure Lays (root : Frame) (earlier : List Word) (m : Machine) : Prop where
  leaves : ∀ vaddr, low (pml4Idx vaddr) → ((leafOf m root vaddr).isSome = true ↔
    ∃ other ∈ earlier, pageOf other = pageOf vaddr)
  tables : ∀ path, Inside low path → path ≠ [] →
    ((tableAt m root path).isSome = true ↔ ∃ other ∈ earlier, path <+: dirs other)

theorem mem_tablePaths {path : List Index} (nonempty : path ≠ []) :
    path ∈ tablePaths va ↔ path <+: dirs va := by
  rcases path with _ | ⟨first, _ | ⟨second, _ | ⟨third, rest⟩⟩⟩
  · exact absurd rfl nonempty
  all_goals simp [tablePaths, dirs]

theorem Lays.newTables_eq {old : List Word} (lays : Lays root old m)
    (inScope : low (pml4Idx va)) :
    (tablePaths va).countP (fun path => (tableAt m root path).isNone) =
      newTables old va := by
  refine countP_congr fun path isIn => ?_
  have nonempty : path ≠ [] := by
    rintro rfl
    simp [tablePaths, dirs] at isIn
  have found := lays.tables path
    (inside_of_begins (inside_dirs inScope) ((mem_tablePaths nonempty).mp isIn)) nonempty
  rw [← Option.not_isSome, Bool.not_eq_true', ← Bool.not_eq_true, found]
  simp

theorem Lays.again {old : List Word} (lays : Lays root old m)
    (mapped : ∃ other ∈ old, pageOf other = pageOf va) :
    Lays root (va :: old) m := by
  obtain ⟨same, isIn, samePage⟩ := mapped
  refine ⟨fun other inScope => ?_, fun path isInside nonempty => ?_⟩
  · rw [lays.leaves other inScope, exists_mem_cons_iff]
    refine ⟨.inr, fun either => either.elim (fun isPage => ?_) id⟩
    exact ⟨same, isIn, samePage.trans isPage⟩
  · rw [lays.tables path isInside nonempty, exists_mem_cons_iff]
    refine ⟨.inr, fun either => either.elim (fun begins => ?_) id⟩
    exact ⟨same, isIn, (pageOf_eq_iff.mp samePage).1 ▸ begins⟩

theorem Lays.sameTree {old : List Word} (lays : Lays root old m)
    (same : SameTree root m after) : Lays root old after where
  leaves va inScope := by rw [same.leaves va inScope, lays.leaves va inScope]
  tables path isInside nonempty := by rw [same.tables path isInside, lays.tables path isInside nonempty]

/-- How loading a list of pages ends. -/
inductive LoadsPages (root : Frame) (earlier : List Word) (m : Machine) (vaddrs : List Word)
    (attempts : List (Word × Bool)) : Bool → Machine → Prop
  | stopped {after : Machine}
      (refused : (requests earlier vaddrs)[supply m]? = some .page)
      (clean : ∀ attempt ∈ attempts, attempt.2 = true) :
      LoadsPages root earlier m vaddrs attempts false after
  | lost {success : Bool} {after : Machine}
      (refused : (requests earlier vaddrs)[supply m]? = some .table)
      {attempt : Word × Bool} (isIn : attempt ∈ attempts) (failed : attempt.2 = false) :
      LoadsPages root earlier m vaddrs attempts success after
  | done {after : Machine} (clean : ∀ attempt ∈ attempts, attempt.2 = true)
      (lays : Lays root (vaddrs.reverse ++ earlier) after)
      (supplied : supply after + (requests earlier vaddrs).length = supply m) :
      LoadsPages root earlier m vaddrs attempts true after

theorem LoadsPages.clean_iff {old vaddrs : List Word} {attempts : List (Word × Bool)}
    {success : Bool} (served : LoadsPages root old m vaddrs attempts success after) :
    (∀ attempt ∈ attempts, attempt.2 = true) ↔
      (requests old vaddrs)[supply m]? ≠ some .table := by
  cases served with
  | stopped refused clean => exact iff_of_true clean (by rw [refused]; nofun)
  | lost refused isIn failed =>
    refine iff_of_false (fun clean => ?_) (not_not.mpr refused)
    rw [clean _ isIn] at failed
    cases failed
  | done clean _ supplied =>
    refine iff_of_true clean ?_
    rw [getElem?_eq_none (by omega)]
    nofun

theorem LoadsPages.trans {old vaddrs later : List Word} {first second : List (Word × Bool)}
    {success : Bool} {mid : Machine}
    (served : LoadsPages root old m vaddrs first true mid)
    (rest : Lays root (vaddrs.reverse ++ old) mid →
      LoadsPages root (vaddrs.reverse ++ old) mid later second success after) :
    LoadsPages root old m (vaddrs ++ later) (first ++ second) success after := by
  cases served with
  | lost refused isIn failed =>
    exact .lost (requests_lead refused) (mem_append_left _ isIn) failed
  | done clean lays supplied =>
    have index : (requests old (vaddrs ++ later))[supply m]? =
        (requests (vaddrs.reverse ++ old) later)[supply mid]? := by
      rw [requests_append, ← supplied, Nat.add_comm, getElem?_append_right (Nat.le_add_right _ _),
        Nat.add_sub_cancel_left]
    cases rest lays with
    | stopped refused cleanToo =>
      exact .stopped (index.trans refused) (forall_mem_append.mpr ⟨clean, cleanToo⟩)
    | lost refused isIn failed =>
      exact .lost (index.trans refused) (mem_append_right _ isIn) failed
    | done cleanToo laysToo suppliedToo =>
      refine .done (forall_mem_append.mpr ⟨clean, cleanToo⟩) ?_ ?_
      · rwa [reverse_append, append_assoc]
      · rw [requests_append, length_append]
        omega

theorem LoadsPages.stop {old vaddrs later : List Word} {attempts : List (Word × Bool)}
    (served : LoadsPages root old m vaddrs attempts false after) :
    LoadsPages root old m (vaddrs ++ later) attempts false after := by
  cases served with
  | stopped refused clean => exact .stopped (requests_lead refused) clean
  | lost refused isIn failed => exact .lost (requests_lead refused) isIn failed

theorem requests_singleton {old : List Word} :
    requests old [va] = pageRequests old va := append_nil _

theorem supply_of_overwritten (change : Overwritten phys m after) :
    supply after = supply m := by
  obtain ⟨content, rfl⟩ := change
  rfl

/-- A page that is mapped already, one whose frame is refused, one that is lost, and one that is
mapped now. -/
theorem Building.loadsPage {old : List Word} {mid copied : Machine}
    (building : Building before lost root m) (lays : Lays root old m)
    (inScope : low (pml4Idx va)) (flagsOk : MapsPage flags)
    (found : UserSpace.segmentFrame root va flags m = .ok (phys, mid)) :
    if phys = 0 then (requests old [va])[supply m]? = some .page
    else Overwritten phys mid copied → LoadsPages root old m [va]
      [(va, !mapSpecificFails root va flags m)] true copied := by
  have step := building.segmentFrame inScope flagsOk found
  have leafIff := lays.leaves va inScope
  rw [UserSpace.segmentFrame] at found
  simp only [mapSpecificFails] at step ⊢
  cases getPhys : vmmGetPhys root va m with
  | error reason =>
    rw [getPhys] at found
    cases found
  | ok raw =>
    simp only [getPhys, frame_of_getPhys building.owns.tree inScope getPhys] at found step ⊢
    cases leafEq : leafOf m root va with
    | some leaf =>
      have isMapped := leafIff.mp (by rw [leafEq]; rfl)
      have frameNe := (building.owns.inUse inScope leafEq).1
      simp only [leafEq, Option.map_some, Option.getD_some, if_neg frameNe] at found step ⊢
      cases found
      obtain ⟨isZero, -⟩ | ⟨-, step⟩ := step
      · exact absurd isZero frameNe
      rw [if_neg frameNe]
      intro copies
      refine .done (by simp) ((lays.again isMapped).sameTree (step.copied copies).2) ?_
      rw [supply_of_overwritten copies, requests_singleton, pageRequests,
        if_pos (by simpa using isMapped)]
      rfl
    | none =>
      have isNew : ¬ ∃ other ∈ old, pageOf other = pageOf va := by
        rw [← leafIff, leafEq]
        exact Bool.false_ne_true
      simp only [leafEq, Option.map_none, Option.getD_none, if_true] at found step ⊢
      have asked : requests old [va] =
          .page :: replicate (newTables old va) .table := by
        rw [requests_singleton, pageRequests, if_neg (by simpa using isNew)]
      cases left : supply m with
      | zero =>
        obtain ⟨answers, refused⟩ := pmmAlloc_of_exhausted left
        simp only [refused, if_true] at found
        cases found
        rw [if_pos rfl, asked]
        rfl
      | succ left' =>
        obtain ⟨new, answers, newNe, free, granting, supplied⟩ := pmmAlloc_of_supply left
        obtain ⟨mapped, after, called, draw⟩ := @vmmMap_draw root new
          (granted m new answers) va flags (treeOk_granted building.owns.tree) inScope leafEq
        simp only [granting, if_neg newNe, called] at found step ⊢
        cases found
        obtain ⟨isZero, -⟩ | ⟨-, step⟩ := step
        · exact absurd isZero newNe
        rw [if_neg newNe]
        intro copies
        cases draw with
        | refused short =>
          refine .lost ?_ mem_cons_self rfl
          have few : left' < newTables old va := by
            rw [← lays.newTables_eq inScope, ← supplied]
            exact short
          rw [asked, left, getElem?_cons_succ, getElem?_replicate, if_pos few]
        | served enough tables =>
          have ran : supply mid + newTables old va = left' := by
            rw [← lays.newTables_eq inScope, ← supplied]
            exact enough
          refine .done (by simp) (.sameTree ⟨fun other isLow => ?_, fun path isInside nonempty => ?_⟩
            (step.copied copies).2) ?_
          · rw [step.leaves other isLow, lays.leaves other isLow]
            simp [eq_comm, or_comm]
          · rw [tables path isInside, mem_tablePaths nonempty]
            change _ ↔ ∃ other ∈ va :: old, path <+: dirs other
            rw [exists_mem_cons_iff, ← lays.tables path isInside nonempty]
            rfl
          · rw [supply_of_overwritten copies, asked, left, length_cons, length_replicate]
            omega

variable {success : Bool}

theorem Building.loadsPages {pages i : Nat} {old : List Word}
    (building : Building before lost root m) (lays : Lays root old m)
    (bound : ∀ page, page < i + pages → ph.pageVaddr page < 2 ^ 47)
    (called : UserSpace.loadPages root image ph pages i m = .ok (success, after)) :
    LoadsPages root old m
      ((range' i pages).map fun page => BitVec.ofNat 64 (ph.pageVaddr page))
      (pageAttempts root image ph pages i m) success after := by
  induction pages generalizing i m lost old with
  | zero =>
    cases called
    exact .done (forall_mem_nil _) lays rfl
  | succ pages ih =>
    rw [UserSpace.loadPages] at called
    rw [range'_succ, map_cons, ← singleton_append]
    split at called
    · cases called
    next phys mid found =>
      have inScope := low_pageVaddr (bound i (by omega))
      have flagsOk := mapsPage_segment ph
      have page := @Building.loadsPage _ _ _ _ _ _ _ _ _ (copyPage image ph i phys mid) building
        lays inScope flagsOk found
      simp only [pageAttempts, found]
      by_cases isZero : phys = 0
      · simp only [if_pos isZero] at called page ⊢
        cases called
        exact .stopped (requests_lead page) (forall_mem_nil _)
      · simp only [if_neg isZero] at called page ⊢
        obtain ⟨refused, -⟩ | ⟨-, step⟩ := building.segmentFrame inScope flagsOk found
        · exact absurd refused isZero
        exact (page overwritten_copyPage).trans fun laysToo =>
          ih (step.copied overwritten_copyPage).1 laysToo (fun page pageLt => bound page (by omega))
            called

theorem Building.loadsSegments {phs : List Phdr} {size : Nat} {old : List Word}
    (building : Building before lost root m) (lays : Lays root old m)
    (accepted : ∀ ph ∈ phs, ph.accepted size = true)
    (called : UserSpace.loadSegments root image phs m = .ok (success, after)) :
    LoadsPages root old m (phs.flatMap Phdr.pageList)
      (segmentAttempts root image phs m) success after := by
  induction phs generalizing m lost old with
  | nil =>
    cases called
    exact .done (forall_mem_nil _) lays rfl
  | cons ph phs ih =>
    have bound : ∀ page, page < 0 + ph.pages → ph.pageVaddr page < 2 ^ 47 := fun page pageLt =>
      Phdr.pageVaddr_bound (accepted ph mem_cons_self) (by omega)
    have listed : ph.pageList =
        (range' 0 ph.pages).map fun page => BitVec.ofNat 64 (ph.pageVaddr page) := by
      rw [Phdr.pageList, range_eq_range']
    rw [UserSpace.loadSegments] at called
    rw [segmentAttempts, flatMap_cons, listed]
    split at called
    · cases called
    next mid found =>
      obtain ⟨others, loaded⟩ := building.loadPages bound found
      simp only [found]
      exact (building.loadsPages lays bound found).trans fun laysToo =>
        ih loaded.building laysToo (fun other isIn => accepted other (mem_cons_of_mem _ isIn)) called
    next mid found =>
      cases called
      simp only [found, append_nil]
      exact (building.loadsPages lays bound found).stop

theorem lays_createUserPml4 {kernelPml4 : Frame}
    (created : vmmCreateUserPml4 kernelPml4 m = (root, after)) (rootNe : root ≠ 0) :
    Lays root [] after ∧ supply m = supply after + 1 := by
  obtain ⟨blank, -⟩ := blank_createUserPml4 created rootNe
  refine ⟨⟨fun va inScope => ?_, fun path isInside nonempty => ?_⟩, ?_⟩
  · rw [leafOf_of_blank blank inScope]
    simp
  · refine iff_of_false (fun found => ?_) (by simp)
    obtain ⟨table, reaches⟩ := Option.isSome_iff_exists.mp found
    exact nonempty (tableAt_of_blank blank isInside reaches).1
  · cases left : supply m with
    | zero =>
      obtain ⟨answers, refused⟩ := pmmAlloc_of_exhausted left
      simp only [vmmCreateUserPml4, refused] at created
      exact absurd (congrArg Prod.fst created).symm rootNe
    | succ left' =>
      obtain ⟨new, answers, newNe, free, granting, supplied⟩ := pmmAlloc_of_supply left
      simp only [vmmCreateUserPml4, granting] at created
      cases created
      exact congrArg Nat.succ supplied.symm

end LaOS.UserSpace
