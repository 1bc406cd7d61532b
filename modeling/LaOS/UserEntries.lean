import LaOS.UserOwnership

/-!
# What the calls of a process do to its page entries

The loops of `do_mmap` and `do_munmap` give the pages of a range new entries, or
take their entries away.
-/

namespace LaOS.UserSpace

open Vmm RadixTree

variable {others : Frame → Prop} {root : Frame} {m before mid after : Machine}
  {va cursor flags : Word} {pages : Nat} {range rest : Nat → Prop} {clear : Prop}

def pageNumber (vaddr : Word) : Nat := (pageOf vaddr).toNat

theorem pageNumber_eq (bound : va.toNat < 2 ^ 47) : pageNumber va = va.toNat / 4096 := by
  simp only [pageNumber, pageOf, BitVec.extractLsb'_toNat, Nat.shiftRight_eq_div_pow]
  omega

theorem pageNumber_page : pageNumber (va &&& ~~~4095) = pageNumber va :=
  congrArg BitVec.toNat (extractLsb'_page 12 36 le_rfl)

/-- A page is one of those from one address up to another. -/
def Between (start stop page : Nat) : Prop := start / 4096 ≤ page ∧ page < stop / 4096

def mappedEnd (cursor : Word) (pages : Nat) (stopped : Option Word) : Nat :=
  (stopped.map BitVec.toNat).getD (cursor.toNat + pages * 4096)

theorem pageNumber_range (bound : cursor.toNat + (pages + 1) * 4096 ≤ 2 ^ 47) :
    pageNumber cursor = cursor.toNat / 4096 ∧ (cursor + 0x1000).toNat = cursor.toNat + 4096 := by
  have small : cursor.toNat + 4096 < 2 ^ 64 := by omega
  exact ⟨pageNumber_eq (by omega), (BitVec.toNat_add _ _).trans (Nat.mod_eq_of_lt small)⟩

theorem mappedEnd_ge (bound : cursor.toNat + pages * 4096 ≤ 2 ^ 47) {stopped : Option Word}
    (filled : populate root flags pages cursor m = .ok (stopped, after)) :
    cursor.toNat ≤ mappedEnd cursor pages stopped := by
  cases stopped with
  | none => exact Nat.le_add_right _ _
  | some stop =>
    obtain ⟨done, _, stopEq⟩ := stopped_of_populate bound filled
    exact (Nat.le_add_right _ _).trans stopEq.ge

/-- The entry of a frame that was mapped with the given flags. -/
def Fresh (flags leaf : Word) : Prop := ∃ phys, leaf = pageEntry phys (flags ||| pteUser)

def KeepsTables (root : Frame) (before after : Machine) : Prop :=
  ∀ frame, TableFrame root before frame → TableFrame root after frame

/-- The pages of a range, which had no entries, have received them, and the others
have kept theirs. -/
structure Filled (range : Nat → Prop) (flags : Word) (root : Frame) (before after : Machine) :
    Prop where
  vacant : ∀ vaddr, low (pml4Idx vaddr) → range (pageNumber vaddr) → leafOf before root vaddr = none
  fresh : ∀ vaddr, low (pml4Idx vaddr) → range (pageNumber vaddr) →
    ∃ leaf, leafOf after root vaddr = some leaf ∧ Fresh flags leaf
  others : ∀ vaddr, low (pml4Idx vaddr) → ¬ range (pageNumber vaddr) →
    leafOf after root vaddr = leafOf before root vaddr
  tables : KeepsTables root before after

/-- The pages of a range have lost their entries, and the others have kept theirs. -/
structure Emptied (range : Nat → Prop) (root : Frame) (before after : Machine) : Prop where
  vacant : ∀ vaddr, low (pml4Idx vaddr) → range (pageNumber vaddr) → leafOf after root vaddr = none
  others : ∀ vaddr, low (pml4Idx vaddr) → ¬ range (pageNumber vaddr) →
    leafOf after root vaddr = leafOf before root vaddr
  tables : KeepsTables root before after

theorem filled_nothing (nothing : ∀ page, ¬ range page) (tables : KeepsTables root before after)
    (same : ∀ va, low (pml4Idx va) → leafOf after root va = leafOf before root va) :
    Filled range flags root before after :=
  ⟨fun _ _ inside => absurd inside (nothing _), fun _ _ inside => absurd inside (nothing _),
    fun va isLow _ => same va isLow, tables⟩

theorem Filled.congr (filled : Filled range flags root before after)
    (same : ∀ page, range page ↔ rest page) : Filled rest flags root before after := by
  have equal : range = rest := funext fun page => propext (same page)
  exact equal ▸ filled

theorem Filled.trans (first : Filled range flags root before mid)
    (second : Filled rest flags root mid after) :
    Filled (fun page => range page ∨ rest page) flags root before after := by
  constructor
  · intro va isLow inside
    by_cases inFirst : range (pageNumber va)
    · exact first.vacant va isLow inFirst
    · rw [← first.others va isLow inFirst]
      exact second.vacant va isLow (inside.resolve_left inFirst)
  · intro va isLow inside
    by_cases inRest : rest (pageNumber va)
    · exact second.fresh va isLow inRest
    · rw [second.others va isLow inRest]
      exact first.fresh va isLow (inside.resolve_right inRest)
  · intro va isLow outside
    rw [not_or] at outside
    rw [second.others va isLow outside.2, first.others va isLow outside.1]
  · exact fun frame isTable => second.tables frame (first.tables frame isTable)

theorem Emptied.trans (first : Emptied range root before mid)
    (second : Emptied rest root mid after) :
    Emptied (fun page => range page ∨ rest page) root before after := by
  constructor
  · intro va isLow inside
    by_cases inRest : rest (pageNumber va)
    · exact second.vacant va isLow inRest
    · rw [second.others va isLow inRest]
      exact first.vacant va isLow (inside.resolve_right inRest)
  · intro va isLow outside
    rw [not_or] at outside
    rw [second.others va isLow outside.2, first.others va isLow outside.1]
  · exact fun frame isTable => second.tables frame (first.tables frame isTable)

theorem Filled.emptied (filled : Filled range flags root before mid)
    (emptied : Emptied range root mid after) (isLow : low (pml4Idx va)) :
    leafOf after root va = leafOf before root va := by
  by_cases inside : range (pageNumber va)
  · rw [emptied.vacant va isLow inside, filled.vacant va isLow inside]
  · rw [emptied.others va isLow inside, filled.others va isLow inside]

/-- What a function returns is as stated, and under a condition it does not map a
page twice. -/
inductive Yields {Result : Type} (clear : Prop) (post : Result → Prop) :
    Except Panic Result → Prop
  | ok {result : Result} (holds : post result) : Yields clear post (.ok result)
  | error {reason : Panic} (isOther : clear → reason ≠ .overwritingMapping) :
      Yields clear post (.error reason)

section Yields

variable {Result : Type} {post : Result → Prop}

theorem Yields.ne {outcome : Except Panic Result} (yields : Yields clear post outcome)
    (isClear : clear) : outcome ≠ .error .overwritingMapping := by
  rintro rfl
  cases yields with
  | error isOther => exact isOther isClear rfl

theorem Yields.of_ok {result : Result} (yields : Yields clear post (.ok result)) : post result := by
  cases yields with
  | ok holds => exact holds

theorem Yields.mono {outcome : Except Panic Result} (yields : Yields clear post outcome)
    {other : Result → Prop} (weaker : ∀ result, post result → other result) :
    Yields clear other outcome := by
  cases yields with
  | ok holds => exact .ok (weaker _ holds)
  | error isOther => exact .error isOther

theorem Yields.of_error {Other : Type} {reason : Panic} {other : Other → Prop} {weaker : Prop}
    (yields : Yields clear post (.error reason)) (isClear : weaker → clear) :
    Yields weaker other (.error reason) := by
  cases yields with
  | error isOther => exact .error fun holds => isOther (isClear holds)

end Yields

theorem filled_mapFresh (ok : TreeOk low root m) (inScope : low (pml4Idx va))
    (flagsOk : MapsPage (flags ||| pteUser)) : Yields (leafOf m root va = none)
      (fun answer => Filled (fun page => answer.1 ≠ 0 ∧ page = pageNumber va) flags root m
        answer.2) (mapFresh root va flags m) := by
  have effect := @mapFresh_effect root m va flags ok inScope
  generalize mapFresh root va flags m = outcome at effect
  cases effect with
  | refused => exact .ok (filled_nothing (by simp) (fun _ => id) fun _ _ => rfl)
  | failed _ _ grows =>
    have tables := fun frame => @tableFrame_of_grows root frame _ _ grows
    exact .ok (filled_nothing (by simp) tables fun _ isLow => grows.leafOf_eq isLow)
  | @mapped phys answers mid table physNe _ grows reaches _ vacant =>
    have entries : ∀ other, low (pml4Idx other) →
        leafOf (mid.write table (ptIdx va) (pageEntry phys (flags ||| pteUser))) root other =
          if pageOf other = pageOf va then some (pageEntry phys (flags ||| pteUser))
          else leafOf m root other := by
      intro other isLow
      rw [leafOf_setLeaf grows.ok inScope reaches flagsOk isLow, grows.leafOf_eq isLow]
      rfl
    refine .ok ⟨fun other isLow inside => ?_, fun other isLow inside => ?_,
      fun other isLow outside => ?_, fun _ isTable =>
        (tableFrame_write grows.ok inScope reaches).mpr (tableFrame_of_grows grows isTable)⟩
    · rw [leafOf_eq_of_pageOf (BitVec.eq_of_toNat_eq inside.2), vacant]
    · refine ⟨_, ?_, phys, rfl⟩
      rw [entries other isLow, if_pos (BitVec.eq_of_toNat_eq inside.2)]
    · rw [entries other isLow, if_neg]
      exact fun samePage => outside ⟨physNe, congrArg BitVec.toNat samePage⟩
  | panicked isMapped =>
    refine .error fun isVacant => ?_
    rw [isVacant] at isMapped
    cases isMapped

theorem emptied_clearLeaf (ok : TreeOk low root m) (inScope : low (pml4Idx va))
    {table : Frame} (reaches : tableAt m root (dirs va) = some table) :
    Emptied (fun page => page = pageNumber va) root m
      (m.write table (ptIdx va) 0) := by
  constructor
  · intro other isLow samePage
    rw [leafOf_writeLeaf ok inScope reaches isLow, if_pos (BitVec.eq_of_toNat_eq samePage)]
    rfl
  · intro other isLow pageNe
    rw [leafOf_writeLeaf ok inScope reaches isLow, if_neg]
    exact fun samePage => pageNe (congrArg BitVec.toNat samePage)
  · exact fun _ => (tableFrame_write ok inScope reaches).mpr

theorem emptied_releasePage (owns : Owns others root m) (inScope : low (pml4Idx va)) :
    Yields clear (Emptied (fun page => page = pageNumber va) root m)
      (releasePage root va m) := by
  have effect := releasePage_effect owns.tree inScope fun leaf found => owns.inUse inScope found
  generalize releasePage root va m = outcome at effect
  cases effect with
  | absent vacant same =>
    rcases same with rfl | ⟨table, reaches, rfl⟩
    · refine .ok ⟨fun other isLow samePage => ?_, fun _ _ _ => rfl, fun _ => id⟩
      rw [leafOf_eq_of_pageOf (BitVec.eq_of_toNat_eq samePage), vacant]
    · exact .ok (emptied_clearLeaf owns.tree inScope reaches)
  | released found reaches =>
    have cleared := emptied_clearLeaf owns.tree inScope reaches
    exact .ok ⟨cleared.vacant, cleared.others, cleared.tables⟩
  | panicked isOther => exact .error fun _ => isOther

def Vacancy (root : Frame) (m : Machine) (start stop : Nat) : Prop :=
  ∀ vaddr, low (pml4Idx vaddr) → Between start stop (pageNumber vaddr) →
    leafOf m root vaddr = none

theorem filled_populate (owns : Owns others root m) (flagsOk : MapsPage (flags ||| pteUser))
    (bound : cursor.toNat + pages * 4096 ≤ 2 ^ 47) :
    Yields (Vacancy root m cursor.toNat (cursor.toNat + pages * 4096))
      (fun answer => Filled (Between cursor.toNat (mappedEnd cursor pages answer.1)) flags root
        m answer.2) (populate root flags pages cursor m) := by
  induction pages generalizing cursor m with
  | zero =>
    refine .ok (filled_nothing (fun page => ?_) (fun _ => id) fun _ _ => rfl)
    simp only [Between, mappedEnd, Option.map_none, Option.getD_none]
    omega
  | succ pages ih =>
    obtain ⟨inScope, restBound⟩ := low_of_range bound
    obtain ⟨pageEq, nextEq⟩ := pageNumber_range bound
    have first := filled_mapFresh owns.tree inScope flagsOk
    rw [populate]
    generalize fresh : mapFresh root cursor flags m = outcome at first
    cases first with
    | error isOther =>
      refine .error fun isVacant => isOther (isVacant cursor inScope ?_)
      simp only [Between, pageEq]
      omega
    | @ok answer filled =>
      obtain ⟨phys, mid⟩ := answer
      dsimp only at filled ⊢
      split
      · next isZero =>
        refine .ok (filled.congr fun page => ?_)
        simp only [Between, mappedEnd, Option.map_some, Option.getD_some, isZero, ne_eq,
          not_true_eq_false, false_and, false_iff]
        omega
      next physNe =>
      have rest := ih (owns.mapFresh inScope flagsOk fresh) restBound
      generalize populated : populate root flags pages _ mid = outcome at rest
      cases rest with
      | error isOther =>
        refine .error fun isVacant => isOther fun va isLow inRest => ?_
        simp only [Between, nextEq] at inRest
        rw [filled.others va isLow]
        · refine isVacant va isLow ?_
          simp only [Between]
          omega
        · rintro ⟨_, samePage⟩
          omega
      | @ok answer later =>
        have endGe := mappedEnd_ge restBound populated
        refine .ok ((filled.trans later).congr fun page => ?_)
        have sameEnd : mappedEnd (cursor + 0x1000) pages answer.1 =
            mappedEnd cursor (pages + 1) answer.1 := by
          cases answer.1 with
          | none =>
            simp only [mappedEnd, Option.map_none, Option.getD_none, nextEq]
            omega
          | some stop => simp only [mappedEnd, Option.map_some, Option.getD_some]
        simp only [Between, sameEnd, nextEq, pageEq, physNe, ne_eq, not_false_eq_true, true_and]
        omega

theorem emptied_release (owns : Owns others root m)
    (bound : cursor.toNat + pages * 4096 ≤ 2 ^ 47) :
    Yields clear (Emptied (Between cursor.toNat (cursor.toNat + pages * 4096)) root m)
      (release root pages cursor m) := by
  induction pages generalizing cursor m with
  | zero =>
    refine .ok ⟨fun _ _ inside => ?_, fun _ _ _ => rfl, fun _ => id⟩
    simp only [Between] at inside
    omega
  | succ pages ih =>
    obtain ⟨inScope, restBound⟩ := low_of_range bound
    obtain ⟨pageEq, nextEq⟩ := pageNumber_range bound
    have first := @emptied_releasePage _ _ _ _ clear owns inScope
    rw [release]
    generalize releasedPage : releasePage root cursor m = outcome at first
    cases first with
    | error isOther => exact .error isOther
    | ok emptied =>
      have later := ih (owns.releasePage inScope releasedPage) restBound
      refine later.mono fun last laterEmptied => ?_
      have both := emptied.trans laterEmptied
      have sameRange : (fun page => page = pageNumber cursor ∨
          Between (cursor + 0x1000).toNat ((cursor + 0x1000).toNat + pages * 4096) page) =
          Between cursor.toNat (cursor.toNat + (pages + 1) * 4096) := by
        funext page
        simp only [Between, pageEq, nextEq, eq_iff_iff]
        omega
      rwa [sameRange] at both

end LaOS.UserSpace
