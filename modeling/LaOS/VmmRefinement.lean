import LaOS.TransitionSystem
import LaOS.VmmMap

/-!
# Page tables as a finite map

The abstract behaviour of a page table is a finite map from pages to translations, which
a tree from an empty root refines through all calls.
-/

namespace LaOS.Vmm

namespace PageMap

open BitVec List

inductive Call
  | map (vaddr paddr flags : Word)
  | remap (vaddr paddr flags : Word)
  | unmap (vaddr : Word)
  deriving DecidableEq

def Call.vaddr : Call → Word
  | .map vaddr _ _ => vaddr
  | .remap vaddr _ _ => vaddr
  | .unmap vaddr => vaddr

/-- The attributes that a caller may combine with `PTE_PRESENT`. -/
def attributes : Word :=
  ptePresent ||| pteWritable ||| pteUser ||| pteWriteThrough ||| pteCacheDisable ||| pteNx

def MapFlags (flags : Word) : Prop :=
  present flags = true ∧ flags &&& ~~~attributes = 0#64

instance (flags : Word) : Decidable (MapFlags flags) :=
  inferInstanceAs (Decidable (_ ∧ _))

def Call.FlagsOk : Call → Prop
  | .map _ _ flags => MapFlags flags
  | .remap _ _ flags => MapFlags flags
  | .unmap _ => True

instance : (call : Call) → Decidable call.FlagsOk
  | .map _ _ flags => inferInstanceAs (Decidable (MapFlags flags))
  | .remap _ _ flags => inferInstanceAs (Decidable (MapFlags flags))
  | .unmap _ => isTrue trivial

def Call.perform (root : Frame) (m : Machine) : Call → Except Panic (Bool × Machine)
  | .map vaddr paddr flags => vmmMap root vaddr paddr flags m
  | .remap vaddr paddr flags => vmmRemap root vaddr paddr flags m
  | .unmap vaddr => .ok (vmmUnmap root vaddr m)

/-- The calls that have returned, the last one first, and whether they
returned 0. -/
structure State where
  machine : Machine
  log : List (Call × Bool)
  panicked : Bool

/-- A call together with what `pmm_alloc` will answer. -/
structure Action where
  call : Call
  answers : List Frame
  deriving DecidableEq

def step (root : Frame) (s : State) (action : Action) : Option State :=
  if s.panicked = false ∧ action.call.FlagsOk then
    match action.call.perform root { s.machine with answers := action.answers } with
    | .error _ => some { s with panicked := true }
    | .ok (succeeded, m) =>
      some { s with machine := m, log := (action.call, succeeded) :: s.log }
  else none

def system (root : Frame) : TransitionSystem State Action where
  initial s := (∀ i, s.machine.memory root i = 0) ∧
    s.machine.allocated root = true ∧ s.log = [] ∧ s.panicked = false
  step := step root

def requested (paddr flags : Word) : Translation where
  frame := frameOf paddr
  writable := writable flags
  user := user flags
  noExecute := noExecute flags
  writeThrough := writeThrough flags
  cacheDisable := cacheDisable flags
  pat := false

/-- The effect of a call on the translation of its page. -/
def Call.update (call : Call) (succeeded : Bool) (before : Option Translation) :
    Option Translation :=
  match call with
  | .map _ paddr flags => if succeeded then some (requested paddr flags) else before
  | .remap _ paddr flags => if succeeded then some (requested paddr flags) else before
  | .unmap _ => none

/-- The translation of a page by the last successful call after the last call
that unmapped it. -/
def lastMapping : List (Call × Bool) → BitVec 36 → Option Translation
  | [], _ => none
  | (call, succeeded) :: log, page =>
    if page = pageOf call.vaddr then call.update succeeded (lastMapping log page)
    else lastMapping log page

theorem getLsbD_attributes (bit : Nat) :
    attributes.getLsbD bit = decide (bit ∈ [0, 1, 2, 3, 4, 63]) := by
  by_cases small : bit < 64
  · revert bit
    decide
  rw [getLsbD_of_ge _ _ (by omega)]
  refine (decide_eq_false ?_).symm
  simp only [mem_cons, not_mem_nil, or_false]
  omega

variable {flags : Word}

theorem MapFlags.getLsbD_of_not_mem (ok : MapFlags flags) (bit : Nat)
    (bitLt : bit < 64) (other : bit ∉ [0, 1, 2, 3, 4, 63]) : flags.getLsbD bit = false := by
  have := congrArg (getLsbD · bit) ok.2
  simpa only [getLsbD_and, getLsbD_not, getLsbD_attributes, other, bitLt,
    decide_true, decide_false, Bool.not_false, Bool.and_true, getLsbD_zero] using this

theorem leafOnly_request (paddr : Word) (ok : MapFlags flags) :
    present ((paddr &&& pteAddrMask) ||| flags) = true ∧
      leafOnly ((paddr &&& pteAddrMask) ||| flags) = requested paddr flags := by
  have flagBit : ∀ bit, bit < 12 ∨ 52 ≤ bit →
      ((paddr &&& pteAddrMask) ||| flags).getLsbD bit = flags.getLsbD bit := by
    intro bit outside
    have mask : pteAddrMask.getLsbD bit = false := by
      rw [getLsbD_pteAddrMask]
      exact decide_eq_false (by omega)
    rw [getLsbD_or, getLsbD_and, mask, Bool.and_false, Bool.false_or]
  have frame : frameOf ((paddr &&& pteAddrMask) ||| flags) = frameOf paddr := by
    refine eq_of_getLsbD_eq fun bit bitLt => ?_
    have noFlag := ok.getLsbD_of_not_mem (12 + bit) (by omega) (by simp; omega)
    simp only [frameOf, getLsbD_extractLsb', getLsbD_or, getLsbD_and, getLsbD_pteAddrMask, noFlag]
    simp [bitLt]
    omega
  have noPat := ok.getLsbD_of_not_mem 7 (by decide) (by decide)
  constructor
  · rw [present, flagBit 0 (by omega)]
    exact ok.1
  simp only [leafOnly, leafTranslation, requested, frame, writable, user, noExecute,
    writeThrough, cacheDisable, flagBit 1 (by omega), flagBit 2 (by omega),
    flagBit 3 (by omega), flagBit 4 (by omega), flagBit 7 (by omega),
    flagBit 63 (by omega), noPat, all_cons, all_nil, any_cons, any_nil,
    Bool.and_true, Bool.or_false]

variable {root : Frame} {s after : State} {m : Machine}

abbrev everywhere : Index → Prop := fun _ => True

structure TreeInv (root : Frame) (m : Machine) : Prop where
  tree : TreeOk everywhere root m
  user : UserOk everywhere root m

theorem TreeInv.translate_eq (inv : TreeInv root m) (va : Word) :
    translate m.memory root va = (leafOf m root va).map leafOnly :=
  Vmm.translate_eq inv.tree inv.user trivial

theorem TreeInv.answers (inv : TreeInv root m) (answers : List Frame) :
    TreeInv root { m with answers } :=
  ⟨⟨inv.tree.unshared, inv.tree.allocated, inv.tree.directory⟩, inv.user⟩

theorem TreeInv.grows {grown : Machine} (inv : TreeInv root m)
    (grows : Grows everywhere root m grown) : TreeInv root grown ∧ ∀ va,
      translate grown.memory root va = translate m.memory root va := by
  have grownInv : TreeInv root grown := ⟨grows.ok, grows.userOk inv.user⟩
  refine ⟨grownInv, fun va => ?_⟩
  rw [grownInv.translate_eq, inv.translate_eq, grows.leafOf_eq trivial]

/-- What a call that returns does to the translations. -/
structure Performed (root : Frame) (m after : Machine) (call : Call) (succeeded : Bool) :
    Prop where
  inv : TreeInv root after
  translate : ∀ vaddr, translate after.memory root vaddr =
    if pageOf vaddr = pageOf call.vaddr then
      call.update succeeded (Vmm.translate m.memory root vaddr)
    else Vmm.translate m.memory root vaddr
  failed : succeeded = false → ∀ vaddr,
    Vmm.translate after.memory root vaddr = Vmm.translate m.memory root vaddr

variable {succeeded : Bool} {result : Machine}

theorem performed_map {call : Call} {va paddr : Word} {overwriteOk : Bool}
    (inv : TreeInv root m) (flagsOk : MapFlags flags) (sameVaddr : call.vaddr = va)
    (sameUpdate : ∀ succeeded before, call.update succeeded before =
      if succeeded then some (requested paddr flags) else before)
    (returned : vmmMapLocked root va paddr flags overwriteOk m = .ok (succeeded, result)) :
    Performed root m result call succeeded := by
  have effect : MapEffect everywhere root va paddr flags overwriteOk m _ :=
    vmmMapLocked_effect inv.tree trivial overwriteOk
  rw [returned] at effect
  cases effect with
  | failed grows =>
    obtain ⟨resultInv, same⟩ := inv.grows grows
    exact ⟨resultInv, fun other => by simp [sameUpdate, same], fun _ => same⟩
  | mapped grows reaches pathUser vacant =>
    obtain ⟨middleInv, same⟩ := inv.grows grows
    obtain ⟨isPresent, leafEq⟩ := leafOnly_request paddr flagsOk
    have leafUser : user ((paddr &&& pteAddrMask) ||| flags) = user flags := by
      have := congrArg Translation.user leafEq
      simpa [leafOnly, leafTranslation, requested] using this
    have resultInv : TreeInv root _ :=
      ⟨treeOk_writeLeaf middleInv.tree trivial reaches,
        userOk_writeLeaf middleInv.tree trivial reaches middleInv.user
          fun _ granted => pathUser (leafUser ▸ granted)⟩
    refine ⟨resultInv, fun other => ?_, by rintro ⟨⟩⟩
    rw [resultInv.translate_eq, leafOf_writeLeaf middleInv.tree trivial reaches trivial,
      sameVaddr, sameUpdate, ← same other, middleInv.translate_eq]
    by_cases same : pageOf other = pageOf va
    · rw [if_pos same, if_pos same, if_pos isPresent, Option.map_some, leafEq]
      rfl
    · rw [if_neg same, if_neg same]

theorem performed_unmap (inv : TreeInv root m) (va : Word) :
    Performed root m (vmmUnmap root va m).2 (.unmap va)
      (vmmUnmap root va m).1 := by
  rcases vmmUnmap_effect inv.tree va trivial with
    ⟨noLeaf, unmapped⟩ | ⟨table, reaches, unmapped⟩
  · rw [unmapped]
    refine ⟨inv, fun other => ?_, fun _ _ => rfl⟩
    split
    · next same =>
      rw [inv.translate_eq, leafOf_eq_of_pageOf same]
      simp only [Call.vaddr, noLeaf]
      rfl
    · rfl
  rw [unmapped]
  have resultInv : TreeInv root (m.write table (ptIdx va) 0) :=
    ⟨treeOk_writeLeaf inv.tree trivial reaches, userOk_writeLeaf inv.tree trivial reaches inv.user
        fun isPresent => absurd isPresent (by decide)⟩
  refine ⟨resultInv, fun other => ?_, nofun⟩
  rw [resultInv.translate_eq, leafOf_writeLeaf inv.tree trivial reaches trivial, inv.translate_eq]
  by_cases same : pageOf other = pageOf va
  · exact (congrArg _ (if_pos same)).trans (if_pos same).symm
  · exact (congrArg _ (if_neg same)).trans (if_neg same).symm

theorem performed {call : Call} (inv : TreeInv root m) (flagsOk : call.FlagsOk)
    (returned : call.perform root m = .ok (succeeded, result)) :
    Performed root m result call succeeded := by
  cases call with
  | map va paddr flags | remap va paddr flags =>
    exact performed_map inv flagsOk rfl (fun _ _ => rfl) returned
  | unmap va =>
    simp only [Call.perform, Except.ok.injEq] at returned
    have unmapped := performed_unmap inv va
    rw [returned] at unmapped
    exact unmapped

structure Refines (root : Frame) (s : State) : Prop where
  inv : TreeInv root s.machine
  translate : ∀ vaddr,
    translate s.machine.memory root vaddr = lastMapping s.log (pageOf vaddr)

theorem refines_initial (starts : (system root).initial s) : Refines root s := by
  obtain ⟨zeroed, rootAllocated, noLog, _⟩ := starts
  have noTable : ∀ path table, tableAt s.machine root path = some table →
      path = [] ∧ table = root := by
    intro path table reaches
    cases path with
    | nil => exact ⟨rfl, (Option.some.inj reaches).symm⟩
    | cons i path =>
      simp only [tableAt, RadixTree.descend, foldlM_cons, zeroed] at reaches
      cases reaches
  have noLeaf : ∀ va, leafOf s.machine root va = none := by
    intro va
    simp only [leafOf]
    cases reaches : tableAt s.machine root (dirs va) with
    | none => rfl
    | some table => cases (noTable _ table reaches).1
  have inv : TreeInv root s.machine := by
    refine ⟨⟨?_, ?_, ?_⟩, ?_⟩
    · intro left right node _ _ leftReaches rightReaches
      rw [(noTable left node leftReaches).1, (noTable right node rightReaches).1]
    · intro path table _ reaches
      rw [(noTable path table reaches).2]
      exact rootAllocated
    · intro path table i _ reaches isPresent
      rw [(noTable path table reaches).2, zeroed] at isPresent
      cases isPresent
    · intro va leaf _ found
      cases (noLeaf va).symm.trans found
  refine ⟨inv, fun va => ?_⟩
  rw [inv.translate_eq, noLeaf, noLog]
  rfl

theorem refines_step (refines : Refines root s) {action : Action}
    (ran : step root s action = some after) : Refines root after := by
  obtain ⟨enabled, ran⟩ := Option.ite_none_right_eq_some.mp ran
  split at ran <;> cases ran
  next => exact ⟨refines.inv, refines.translate⟩
  next succeeded m returned =>
    obtain ⟨inv, translated, _⟩ := performed (refines.inv.answers action.answers) enabled.2 returned
    refine ⟨inv, fun va => ?_⟩
    rw [translated va, refines.translate]
    rfl

/-- The processor translates every address as the last successful call for its page asked for,
and a further call that returns -1 changes no translation. -/
theorem walk_refines_lastMapping (reached : (system root).Reachable s) :
    (∀ va, translate s.machine.memory root va = lastMapping s.log (pageOf va)) ∧
      ∀ (call : Call) answers result, call.FlagsOk →
        call.perform root { s.machine with answers } = .ok (false, result) →
        ∀ va, translate result.memory root va =
          translate s.machine.memory root va := by
  have refines :=
    reached.invariant (fun _ => refines_initial) fun _ _ _ _ holds => refines_step holds
  refine ⟨refines.translate, fun call answers result flagsOk returned => ?_⟩
  exact (performed (refines.inv.answers answers) flagsOk returned).failed rfl

def emptyState : State where
  machine := ⟨fun _ _ => 0, fun frame => frame = 1, []⟩
  log := []
  panicked := false

theorem initial_emptyState : (system 1).initial emptyState := ⟨fun _ => rfl, rfl, rfl, rfl⟩

/-- A page is mapped, mapped again with other rights, and another call runs out
of frames. -/
def busyState : State :=
  ((system 1).run emptyState
    [⟨.map 0x12345000 0x7000 (ptePresent ||| pteUser ||| pteNx), [2, 3, 4]⟩,
      ⟨.remap 0x12345000 0x9000 (ptePresent ||| pteWritable), []⟩,
      ⟨.map 0x8000000000 0x5000 ptePresent, [5, 0]⟩]).getD emptyState

theorem reachable_busyState : (system 1).Reachable busyState :=
  TransitionSystem.Reachable.getD_run (.start initial_emptyState) _

theorem walk_refines_lastMapping_busyState : busyState.log.map Prod.snd = [false, true, true] ∧
      translate busyState.machine.memory 1 0x12345abc =
        lastMapping busyState.log (pageOf 0x12345abc) :=
  ⟨by decide +kernel, (walk_refines_lastMapping reachable_busyState).1 _⟩

end PageMap

end LaOS.Vmm
