import LaOS.UserPanic

/-!
# What a failed `do_mmap` leaves behind

`do_mmap` once more, with the heap blocks of the nodes in the list of regions.  When it
returns 0, the only frames added are tables of the process.
-/

namespace LaOS.UserSpace

open Vmm WordBytes BlockLedger

/-- A region with the block that `vma_alloc` obtained for it. -/
structure VmaNode where
  block : Nat
  vma : Vma

structure NodeSpace where
  machine : Machine
  nodes : List VmaNode
  heap : Ledger

def NodeSpace.space (t : NodeSpace) : Space := ⟨t.machine, t.nodes.map VmaNode.vma⟩

def vmaFreeNode (start length : Word) (nodes : List VmaNode) (heap : Ledger) :
    Except Failure (List VmaNode × Ledger) :=
  match nodes.find? fun node => node.vma.isExactly start length with
  | none => .ok (nodes, heap)
  | some node => do
    let heap ← kfree node.block heap
    .ok (nodes.eraseP fun node => node.vma.isExactly start length, heap)

/-- The insertion into the list that `vma_alloc` performs. -/
def nodeInsert (node : VmaNode) (nodes : List VmaNode) : List VmaNode :=
  FirstFit.insertRegion (fun node => node.vma.start.toNat) node nodes

/-- `do_mmap`. -/
def doMmapNodes (root : Frame) (length prot flags : Word) (t : NodeSpace) :
    Except Failure (Word × NodeSpace) :=
  if root = 0 then .ok (0, t)
  else if length > maxWord - 4095 then .ok (0, t)
  else
    let length := roundUp length
    if length = 0 then .ok (0, t)
    else
      let vaddr := vmaFindFree length t.space.vmas
      if vaddr = 0 ∨ vaddr > maxWord - length then .ok (0, t)
      else
        match alloc t.heap with
        | (none, heap) => .ok (0, { t with heap })
        | (some block, heap) =>
          let nodes := nodeInsert ⟨block, mmapRegion vaddr length prot flags⟩ t.nodes
          if flags &&& mapLazy ≠ 0 then .ok (vaddr, { t with nodes, heap })
          else
            match populate root (pageFlags prot) (length.toNat / 4096) vaddr t.machine with
            | .error reason => .error (.panic reason)
            | .ok (none, m) => .ok (vaddr, { machine := m, nodes, heap })
            | .ok (some cursor, m) =>
              match release root ((cursor - vaddr).toNat / 4096) vaddr m with
              | .error reason => .error (.panic reason)
              | .ok m => do
                let (nodes, heap) ← vmaFreeNode vaddr length nodes heap
                .ok (0, { machine := m, nodes, heap })

variable {root : Frame} {length prot flags va : Word} {t after : NodeSpace}

theorem vmaFreeNode_insert {nodes : List VmaNode} {heap : Ledger} {block : Nat}
    (placed : Placed length va (nodes.map VmaNode.vma))
    (window : Window (nodes.map VmaNode.vma)) (isLive : block ∈ heap.live) :
    ∃ rest, vmaFreeNode va (roundUp length)
        (nodeInsert ⟨block, mmapRegion va (roundUp length) prot flags⟩ nodes) heap =
          .ok (nodes, rest) ∧ rest.live = heap.live.erase block := by
  have others : ∀ node ∈ nodes, ¬ node.vma.isExactly va (roundUp length) = true :=
    fun node mem => placed.not_exactly window (List.mem_map_of_mem mem)
  obtain ⟨rest, freed, live⟩ := free_of_mem isLive
  refine ⟨rest, ?_, live⟩
  rw [vmaFreeNode, nodeInsert, FirstFit.find?_insertRegion ?_ others,
    FirstFit.eraseP_insertRegion ?_ others]
  · simp only [kfree, freed]
    rfl
  all_goals exact isExactly_iff.mpr ⟨rfl, rfl⟩

inductive NodesEffect (root : Frame) (length prot flags : Word) (t : NodeSpace) :
    Except Failure (Word × NodeSpace) → Prop
  | refused {heap : Ledger} (live : heap.live = t.heap.live) :
      NodesEffect root length prot flags t (.ok (0, { t with heap }))
  | returned {result : Word} {after : NodeSpace} (nonzero : result ≠ 0) :
      NodesEffect root length prot flags t (.ok (result, after))
  | rolledBack {vaddr cursor : Word} {mid m : Machine} {heap : Ledger}
      (placed : Placed length vaddr t.space.vmas)
      (stopped : populate root (pageFlags prot) ((roundUp length).toNat / 4096) vaddr
        t.space.machine = .ok (some cursor, mid))
      (released : release root ((cursor - vaddr).toNat / 4096) vaddr mid = .ok m)
      (live : heap.live = t.heap.live) :
      NodesEffect root length prot flags t (.ok (0, { machine := m, nodes := t.nodes, heap }))
  | panicked {reason : Panic} : NodesEffect root length prot flags t (.error (.panic reason))

theorem doMmapNodes_effect (window : Window t.space.vmas) :
    NodesEffect root length prot flags t (doMmapNodes root length prot flags t) := by
  rw [doMmapNodes]
  split
  · exact .refused rfl
  split
  · exact .refused rfl
  next inRange =>
  dsimp only
  split
  · exact .refused rfl
  next nonempty =>
  split
  · exact .refused rfl
  next accepted =>
  have placed := placed_of_checks inRange nonempty accepted
  have effect := alloc_effect t.heap
  generalize alloc t.heap = answer at effect
  cases effect with
  | refused live => exact .refused live
  | @granted heap fresh live =>
    dsimp only
    split
    · exact .returned fun isZero => accepted (.inl isZero)
    split
    · exact .panicked
    · exact .returned fun isZero => accepted (.inl isZero)
    next stopped =>
    split
    · exact .panicked
    next released =>
    have isLive := live ▸ Finset.mem_insert_self _ _
    obtain ⟨rest, freed, restLive⟩ := vmaFreeNode_insert placed window isLive
    rw [freed]
    refine .rolledBack placed stopped released ?_
    rw [restLive, live, Finset.erase_insert fresh]

theorem space_nodeInsert {m : Machine} {nodes : List VmaNode} {node : VmaNode} {heap : Ledger} :
    NodeSpace.space ⟨m, nodeInsert node nodes, heap⟩ =
      ⟨m, vmaInsert node.vma (nodes.map VmaNode.vma)⟩ := by
  refine congrArg (Space.mk m) ?_
  induction nodes with
  | nil => rfl
  | cons first nodes ih =>
    simp only [nodeInsert, vmaInsert, FirstFit.insertRegion, List.map_cons] at ih ⊢
    split
    · rw [List.map_cons, ih]
    · rfl

/-- The nodes and their blocks do not matter to what `do_mmap` does to the address space. -/
theorem doMmap_of_nodes {result : Word} (window : Window t.space.vmas)
    (called : doMmapNodes root length prot flags t = .ok (result, after)) :
    doMmap root length prot flags (alloc t.heap).1.isSome t.space = .ok (result, after.space) := by
  have effect := alloc_effect t.heap
  rw [doMmapNodes] at called
  rw [doMmap]
  by_cases noRoot : root = 0
  · rw [if_pos noRoot] at called ⊢
    cases called
    rfl
  rw [if_neg noRoot] at called ⊢
  by_cases tooLong : length > maxWord - 4095
  · rw [if_pos tooLong] at called ⊢
    cases called
    rfl
  rw [if_neg tooLong] at called ⊢
  dsimp only at called ⊢
  by_cases empty : roundUp length = 0
  · rw [if_pos empty] at called ⊢
    cases called
    rfl
  rw [if_neg empty] at called ⊢
  split at called
  next noPlace =>
    rw [if_pos noPlace]
    cases called
    rfl
  next accepted =>
  rw [if_neg accepted]
  have placed := placed_of_checks tooLong empty accepted
  generalize alloc t.heap = answer at effect called ⊢
  cases effect with
  | refused live =>
    cases called
    rfl
  | @granted heap fresh live =>
    have isLive := live ▸ Finset.mem_insert_self _ _
    dsimp only at called
    rw [if_neg (by simp)]
    by_cases isLazy : flags &&& mapLazy ≠ 0
    · rw [if_pos isLazy] at called ⊢
      cases called
      rw [space_nodeInsert]
      rfl
    rw [if_neg isLazy] at called ⊢
    rw [show t.space.machine = t.machine from rfl]
    generalize populate _ _ _ _ t.machine = outcome at called ⊢
    rcases outcome with reason | ⟨_ | cursor, m⟩
    · cases called
    · cases called
      rw [space_nodeInsert]
      rfl
    · dsimp only at called ⊢
      generalize release _ _ _ m = outcome at called ⊢
      cases outcome with
      | error => cases called
      | ok =>
        obtain ⟨rest, freed, -⟩ := vmaFreeNode_insert placed window isLive
        rw [freed] at called
        cases called
        rw [placed.vmaFree_insert window]
        rfl

/-- When `do_mmap` returns 0, regions, live blocks, user translations and frames are as before,
except for new tables of the process. -/
theorem doMmap_failure_atomic {kernelPml4 : Frame} {image : List Byte} {argv : List (List Byte)}
    {grants : Grants} {before first : Machine} {process : Process}
    (created : createElfProcess kernelPml4 image argv grants before = .ok (some root, first))
    (reached : (processRuns root first).ReachableWhere (fun _ call => call.Low) process)
    (isThread : t.space = process.space) :
    doMmapNodes root length prot flags t ≠ .error .badFree ∧
      ∀ after, doMmapNodes root length prot flags t = .ok (0, after) →
        after.nodes = t.nodes ∧ after.heap.live = t.heap.live ∧
          (∀ va, va.toNat < 2 ^ 47 → Vmm.translate after.machine.memory root va =
            Vmm.translate t.machine.memory root va) ∧
          ∀ frame, after.machine.allocated frame = true ↔
            t.machine.allocated frame = true ∨ TableFrame root after.machine frame := by
  obtain ⟨others, firstOwns⟩ := owns_createElfProcess created
  obtain ⟨window, owns⟩ := owns_of_reachable firstOwns reached
  rw [← isThread] at window owns
  have effect := @doMmapNodes_effect root length prot flags t window
  generalize doMmapNodes root length prot flags t = outcome at effect
  cases effect with
  | panicked => exact ⟨nofun, nofun⟩
  | returned nonzero =>
    refine ⟨nofun, fun after ran => absurd ?_ nonzero⟩
    exact congrArg Prod.fst (Except.ok.inj ran)
  | refused live =>
    refine ⟨nofun, fun after ran => ?_⟩
    cases ran
    refine ⟨rfl, live, fun _ _ => rfl, fun frame => ⟨.inl, ?_⟩⟩
    rintro (isAllocated | isTable)
    · exact isAllocated
    · exact (owns.allocated frame).mpr (.inr (.inl isTable))
  | rolledBack placed stopped released live =>
    refine ⟨nofun, fun after ran => ?_⟩
    cases ran
    obtain ⟨_, _, releaseLe⟩ := placed.stopped window stopped
    have mid := owns.populate (mapsPage_pageFlags prot) (placed.range_le window) stopped
    have last := mid.release releaseLe released
    have restored := @restored_of_populate _ _ _ _ True _ _ owns window placed _ _ stopped
    rw [released] at restored
    obtain ⟨tables, leaves⟩ := restored.of_ok
    refine ⟨rfl, live, fun va bound => ?_, fun frame => ?_⟩
    · have isLow := low_of_lt bound
      rw [Vmm.translate_eq last.tree last.userOk isLow, leaves va isLow]
      exact (Vmm.translate_eq owns.tree owns.userOk isLow).symm
    · have keeps := tables frame
      have allocated := owns.allocated frame
      rw [last.allocated, Held, leafFrame_congr leaves]
      change _ ↔ t.space.machine.allocated frame = true ∨ _
      rw [allocated, Held]
      tauto

def scarceCreation : Except Panic (Option Frame × Machine) :=
  createElfProcess 1 smallImage [[0x61]] allGranted
    { bootMachine with answers := bootMachine.answers.take 10 }

def scarceMachine : Machine := (scarceCreation.toOption.map Prod.snd).getD bootMachine

def scarceThread : NodeSpace := ⟨scarceMachine, [], ∅, 0, fun _ => true, 0, BlockLedger.fresh_empty⟩

/-- The first of two pages is mapped, and there is no frame for the second. -/
theorem doMmap_failure_atomic_scarceThread :
    (doMmapNodes 2 0x2000 protWrite 0 scarceThread).toOption.map Prod.fst = some 0 ∧
      ∀ after, doMmapNodes 2 0x2000 protWrite 0 scarceThread = .ok (0, after) →
        after.nodes = [] ∧ after.heap.live = ∅ := by
  have created : scarceCreation = .ok (some 2, scarceMachine) := created_of_fst (by decide +kernel)
  refine ⟨by decide +kernel, fun after ran => ?_⟩
  have sameSpace : scarceThread.space = (createdProcess scarceMachine).space := by
    simp only [NodeSpace.space, scarceThread, createdProcess, List.map_nil]
  obtain ⟨sameNodes, sameLive, _⟩ :=
    (doMmap_failure_atomic created (.start rfl) sameSpace).2 after ran
  exact ⟨sameNodes, sameLive⟩

end LaOS.UserSpace
