import LaOS.HeapInvariant

/-!
# Runs of the kernel heap

The invariant holds after every sequence of `kmalloc` and `kfree`, and the blocks that
are not free are those whose payload a caller holds.
-/

namespace LaOS.Heap

open List

/-- The callers hold the payloads of the occupied blocks, each large enough for
what was requested. -/
structure LiveOk (nodes : List Node) (live : List (Nat × Nat)) : Prop where
  occupied : (live.map Prod.fst).Perm (occupied nodes)
  room : ∀ entry ∈ live, ∃ node ∈ nodes, node.isFree = false ∧ node.payload = entry.1 ∧
    entry.2 ≤ node.payloadSize

structure StateOk (arch : Arch) (s : State) : Prop where
  kheap : KheapOk arch s.heap
  live : LiveOk s.heap.nodes s.live
  noPanic : s.panicked = none

variable {arch : Arch} {s after : State} {nodes : List Node}

theorem LiveOk.ptr_ne_zero {live : List (Nat × Nat)} (ok : LiveOk nodes live)
    {entry : Nat × Nat} (mem : entry ∈ live) : entry.1 ≠ 0 := by
  obtain ⟨node, _, _, payload, _⟩ := ok.room entry mem
  rw [← payload]
  exact Nat.succ_ne_zero _

theorem kheapOk_init {mapped : Nat → Bool} {grant : Nat → Grant} {heap : Kheap}
    (started : kheapInit arch mapped grant = some heap) :
    KheapOk arch heap ∧ occupied heap.nodes = [] := by
  have pages : PagesOk arch.kheapVbase arch.kheapVbase mapped :=
    ⟨le_rfl, Nat.le_add_right _ _, vbase_aligned arch, fun page above below => by omega⟩
  let empty : Kheap := ⟨arch.kheapVbase, arch.kheapVbase, [], mapped⟩
  obtain ⟨change, reaches⟩ := @kheapExpandToAddr_spec grant empty arch
    (arch.kheapVbase + pageSize) rfl pages
  simp only [kheapInit] at started
  obtain ⟨expanded, ⟨⟩⟩ := Option.ite_none_right_eq_some.mp started
  have nodesEq := change.nodes
  have baseEq := change.base
  simp only [empty] at change reaches nodesEq baseEq
  refine ⟨⟨baseEq, by simp, change.pages, _, reaches expanded, ?_⟩, ?_⟩
  · simp only [nodesEq, baseEq, nil_append]
    refine ⟨⟨rfl, rfl⟩, isChain_singleton _, ?_⟩
    simp only [mem_singleton, forall_eq]
    refine ⟨?_, (by decide : kheapAlignment ∣ pageSize), (by decide : headerSize ≤ pageSize), rfl⟩
    exact Nat.dvd_trans (by decide) (vbase_aligned arch)
  · simp only [nodesEq]
    rfl

theorem stateOk_initial (starts : (system arch).initial s) : StateOk arch s := by
  obtain ⟨mapped, grant, heap, started, rfl⟩ := starts
  obtain ⟨ok, noneOccupied⟩ := kheapOk_init started
  exact ⟨ok, ⟨by simp [noneOccupied], nofun⟩, rfl⟩

theorem stateOk_malloc (ok : StateOk arch s) (size : Nat) (grant : Nat → Grant) :
    StateOk arch (receive s size (kmalloc grant s.heap size)) := by
  obtain ⟨okAfter, unchanged, allocated⟩ := @kmalloc_spec grant s.heap arch size ok.kheap
  rcases result : kmalloc grant s.heap size with ⟨answer, heap⟩
  simp only [result] at okAfter unchanged allocated
  cases answer with
  | none =>
    refine ⟨okAfter, ?_, ok.noPanic⟩
    simp only [receive, unchanged rfl]
    exact ok.live
  | some ptr =>
    obtain ⟨taken, occupiedPerm, keeps⟩ := allocated ptr rfl
    refine ⟨okAfter, ⟨?_, ?_⟩, ok.noPanic⟩
    · exact (ok.live.occupied.cons ptr).trans occupiedPerm.symm
    simp only [receive, mem_cons]
    rintro entry (rfl | older)
    · exact taken
    · obtain ⟨node, mem, notFree, payload, large⟩ := ok.live.room entry older
      exact ⟨node, keeps node mem notFree, notFree, payload, large⟩

theorem stateOk_free_null (ok : StateOk arch s) :
    StateOk arch (giveUp s 0 (kfree s.heap 0)) := by
  have liveEq := filter_eq_self.mpr fun entry mem => bne_iff_ne.mpr (ok.live.ptr_ne_zero mem)
  refine ⟨ok.kheap, ?_, ok.noPanic⟩
  simp only [kfree, ite_true, giveUp, liveEq]
  exact ok.live

theorem stateOk_free (ok : StateOk arch s) {ptr : Nat} (held : ptr ∈ s.live.map Prod.fst) :
    StateOk arch (giveUp s ptr (kfree s.heap ptr)) := by
  obtain ⟨entry, mem, rfl⟩ := mem_map.mp held
  obtain ⟨node, nodeMem, notFree, payload, _⟩ := ok.live.room entry mem
  obtain ⟨heap, freed, okAfter, occupiedEq, keeps⟩ := kfree_spec ok.kheap nodeMem notFree
  rw [payload] at freed occupiedEq
  simp only [freed, giveUp]
  refine ⟨okAfter, ⟨?_, ?_⟩, ok.noPanic⟩
  · have filtered := ok.live.occupied.filter (· != entry.1)
    rw [filter_map] at filtered
    rw [occupiedEq]
    exact filtered
  intro other otherMem
  obtain ⟨otherLive, ne⟩ := mem_filter.mp otherMem
  obtain ⟨block, blockMem, blockTaken, blockPayload, large⟩ := ok.live.room other otherLive
  refine ⟨block, keeps block blockMem blockTaken ?_, blockTaken, blockPayload, large⟩
  rintro rfl
  exact bne_iff_ne.mp ne (blockPayload.symm.trans payload)

theorem stateOk_step (ok : StateOk arch s) {action : Action}
    (taken : step s action = some after) : StateOk arch after := by
  simp only [step, ok.noPanic] at taken
  cases action with
  | malloc size grant =>
    cases taken
    exact stateOk_malloc ok size grant
  | free ptr =>
    obtain ⟨permitted, ⟨⟩⟩ := Option.ite_none_right_eq_some.mp taken
    rcases permitted with rfl | held
    · exact stateOk_free_null ok
    · exact stateOk_free ok held

theorem stateOk_of_reachable (reached : (system arch).Reachable s) : StateOk arch s :=
  reached.invariant (fun _ => stateOk_initial) fun _ _ _ _ ok => stateOk_step ok

/-- Two allocations, pointer and size, have no byte in common. -/
def Apart (left right : Nat × Nat) : Prop :=
  left.1 + left.2 ≤ right.1 ∨ right.1 + right.2 ≤ left.1

theorem live_apart (ok : StateOk arch s) : s.live.Pairwise Apart := by
  obtain ⟨high, _, nodesOk⟩ := ok.kheap.nodes
  have distinct := ok.live.occupied.nodup_iff.mpr (occupied_nodup nodesOk)
  refine (pairwise_map.mp distinct).imp_of_mem fun {left right} leftMem rightMem ne => ?_
  obtain ⟨leftNode, leftIn, _, leftAt, leftRoom⟩ := ok.live.room left leftMem
  obtain ⟨rightNode, rightIn, _, rightAt, rightRoom⟩ := ok.live.room right rightMem
  have nodesNe : leftNode ≠ rightNode := by
    rintro rfl
    exact ne (leftAt.symm.trans rightAt)
  have apart := nodesOk.tiles.apart leftIn rightIn nodesNe
  simp only [Node.payload, Node.payloadSize, headerSize] at *
  simp only [Apart]
  omega

def Kheap.top (heap : Kheap) : Nat :=
  match heap.nodes.getLast? with
  | none => heap.base
  | some last => last.addr + last.size

structure Consistent (s : State) : Prop where
  noPanic : s.panicked = none
  tiles : Tiling.Tiles Node.addr Node.size s.heap.base s.heap.nodes s.heap.top
  topLeMax : s.heap.top ≤ s.heap.max
  topLeLimit : s.heap.top ≤ s.heap.base + heapMaxSize
  mapped : ∀ page, s.heap.base ≤ page → page < s.heap.max → pageSize ∣ page →
    s.heap.mapped page = true
  aligned : ∀ node ∈ s.heap.nodes,
    kheapAlignment ∣ node.addr ∧ kheapAlignment ∣ node.size ∧ headerSize ≤ node.size
  sparse : Tiling.Sparse Node.isFree s.heap.nodes
  live : ∀ entry ∈ s.live, kheapAlignment ∣ entry.1 ∧
    ∃ node ∈ s.heap.nodes, node.isFree = false ∧ node.payload = entry.1 ∧
      entry.2 ≤ node.payloadSize
  occupied : (s.live.map Prod.fst).Perm (occupied s.heap.nodes)
  disjoint : s.live.Pairwise Apart

theorem top_eq {heap : Kheap} {high : Nat} (ok : NodesOk heap.base heap.nodes high) :
    heap.top = high := by
  have tiles := ok.tiles
  simp only [Kheap.top]
  split
  · next empty =>
    rw [getLast?_eq_none_iff.mp empty] at tiles
    exact tiles
  next last lastEq =>
  obtain ⟨front, nodesEq⟩ := getLast?_eq_some_iff.mp lastEq
  exact (nodesEq ▸ tiles).last

theorem StateOk.consistent (ok : StateOk arch s) : Consistent s := by
  obtain ⟨high, highLe, nodesOk⟩ := ok.kheap.nodes
  have topEq := top_eq nodesOk
  refine ⟨ok.noPanic, topEq ▸ nodesOk.tiles, topEq ▸ highLe,
    topEq ▸ highLe.trans ok.kheap.pages.maxLe, ok.kheap.pages.mapped, ?_, nodesOk.sparse, ?_,
    ok.live.occupied, live_apart ok⟩
  · intro node mem
    have sound := nodesOk.sound node mem
    exact ⟨sound.addrAligned, sound.sizeAligned, sound.headerFits⟩
  intro entry mem
  have room := ok.live.room entry mem
  refine ⟨?_, room⟩
  obtain ⟨node, nodeMem, _, payload, _⟩ := room
  rw [← payload]
  exact Nat.dvd_add (nodesOk.sound node nodeMem).addrAligned (by decide)

/-- After any calls the blocks tile the heap and live payloads are disjoint; a `kmalloc` that
fails changes no block, and others return blocks of sufficient size. -/
theorem blocks_tile_heap (reached : (system arch).Reachable s) : Consistent s ∧
      ∀ size grant, let result := kmalloc grant s.heap size
        (result.1 = none → result.2.nodes = s.heap.nodes) ∧
        ∀ ptr, result.1 = some ptr → kheapAlignment ∣ ptr ∧
          ∃ node ∈ result.2.nodes, node.isFree = false ∧ node.payload = ptr ∧
            size ≤ node.payloadSize := by
  have ok := stateOk_of_reachable reached
  refine ⟨ok.consistent, fun size grant => ?_⟩
  obtain ⟨okAfter, unchanged, allocated⟩ := @kmalloc_spec grant s.heap arch size ok.kheap
  refine ⟨unchanged, fun ptr returned => ?_⟩
  have taken := (allocated ptr returned).taken
  refine ⟨?_, taken⟩
  obtain ⟨_, _, nodesOk⟩ := okAfter.nodes
  obtain ⟨node, mem, _, payload, _⟩ := taken
  rw [← payload]
  exact Nat.dvd_add (nodesOk.sound node mem).addrAligned (by decide)

/-- The x86_64 heap after initialization on a machine that maps every page. -/
def firstHeap : Kheap where
  base := 0xffffa00000000000
  max := 0xffffa00000001000
  nodes := [⟨0xffffa00000000000, kheapMagic, true, 4096⟩]
  mapped := Function.update (fun _ => false) 0xffffa00000000000 true

theorem initial_firstHeap : (system .x86_64).initial ⟨firstHeap, [], none⟩ :=
  ⟨fun _ => false, fun _ => .granted, firstHeap, rfl, rfl⟩

/-- Three allocations, the last with further pages, and a release in between that merges with
the free block before it. -/
def busyState : State :=
  ((system .x86_64).run ⟨firstHeap, [], none⟩
    [.malloc 100 fun _ => .granted, .malloc 200 fun _ => .granted,
      .free 0xffffa00000000e90, .malloc 5000 fun _ => .granted]).getD ⟨firstHeap, [], none⟩

theorem reachable_busyState : (system .x86_64).Reachable busyState :=
  TransitionSystem.Reachable.getD_run (.start initial_firstHeap) _

theorem blocks_tile_heap_busyState : busyState.live.length = 2 ∧ Consistent busyState :=
  ⟨by decide +kernel, (blocks_tile_heap reachable_busyState).1⟩

/-- Freed blocks are merged: with `n` allocations there are at most `2 * n + 1` blocks, and without
any the heap is a single free block. -/
theorem bounded_fragmentation (reached : (system arch).Reachable s) :
    s.heap.nodes.length ≤ 2 * s.live.length + 1 ∧
      (s.live = [] → s.heap.nodes =
        [⟨s.heap.base, kheapMagic, true, s.heap.top - s.heap.base⟩]) := by
  have ok := stateOk_of_reachable reached
  obtain ⟨high, -, nodes⟩ := ok.kheap.nodes
  have few := nodes.sparse.length_le
  have counted := ok.live.occupied.length_eq
  rw [length_map, occupied, length_map] at counted
  refine ⟨counted ▸ few, fun nothing => ?_⟩
  rw [nothing, length_nil] at counted
  rw [← counted] at few
  obtain ⟨node, single⟩ := length_eq_one_iff.mp
    (le_antisymm few (length_pos_iff.mpr ok.kheap.nonempty))
  rw [top_eq nodes]
  rw [single] at nodes counted ⊢
  obtain ⟨addr, rfl⟩ := nodes.tiles
  have magic := (nodes.sound node mem_cons_self).magic
  cases isFree : node.isFree with
  | true => rw [← addr, ← magic, ← isFree, Nat.add_sub_cancel_left]
  | false => simp [isFree] at counted

theorem bounded_fragmentation_busyState :
    busyState.live.length = 2 ∧ busyState.heap.nodes.length ≤ 2 * busyState.live.length + 1 :=
  ⟨by decide +kernel, (bounded_fragmentation reachable_busyState).1⟩

end LaOS.Heap
