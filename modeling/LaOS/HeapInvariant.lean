import LaOS.HeapMachine
import LaOS.Tiling

/-!
# The heap keeps its blocks in order

The blocks tile the heap from its base in list order, no two neighbours are free,
and the pages below `max` are mapped.
-/

namespace LaOS.Heap

open List

namespace Node

def payload (node : Node) : Nat := node.addr + headerSize

def payloadSize (node : Node) : Nat := node.size - headerSize

structure Sound (node : Node) : Prop where
  addrAligned : kheapAlignment ∣ node.addr
  sizeAligned : kheapAlignment ∣ node.size
  headerFits : headerSize ≤ node.size
  magic : node.magic = kheapMagic

end Node

def inUse (nodes : List Node) : List Node := nodes.filter fun node => !node.isFree

/-- The payloads of the blocks that are handed out. -/
def occupied (nodes : List Node) : List Nat :=
  (nodes.filter fun node => !node.isFree).map Node.payload

structure NodesOk (base : Nat) (nodes : List Node) (high : Nat) : Prop where
  tiles : Tiling.Tiles Node.addr Node.size base nodes high
  sparse : Tiling.Sparse Node.isFree nodes
  sound : ∀ node ∈ nodes, node.Sound

structure PagesOk (base max : Nat) (mapped : Nat → Bool) : Prop where
  baseLe : base ≤ max
  maxLe : max ≤ base + heapMaxSize
  aligned : pageSize ∣ max
  mapped : ∀ page, base ≤ page → page < max → pageSize ∣ page → mapped page = true

structure KheapOk (arch : Arch) (heap : Kheap) : Prop where
  base : heap.base = arch.kheapVbase
  nonempty : heap.nodes ≠ []
  pages : PagesOk heap.base heap.max heap.mapped
  nodes : ∃ high ≤ heap.max, NodesOk heap.base heap.nodes high

theorem vbase_bound (arch : Arch) : arch.kheapVbase + heapMaxSize < wordLimit := by
  cases arch <;> decide

theorem vbase_aligned (arch : Arch) : pageSize ∣ arch.kheapVbase := by
  cases arch <;> decide

theorem add64_of_lt {left right : Nat} (fits : left + right < wordLimit) :
    add64 left right = left + right :=
  Nat.mod_eq_of_lt fits

theorem sub64_of_le {left right : Nat} (le : right ≤ left) (fits : left < wordLimit) :
    sub64 left right = left - right := by
  simp only [sub64, wordLimit] at fits ⊢
  omega

section Expansion

variable {grant : Nat → Grant} {heap : Kheap}

/-- What an expansion may change, whether or not it succeeds. -/
structure Expanded (heap after : Kheap) : Prop where
  base : after.base = heap.base
  nodes : after.nodes = heap.nodes
  maxLe : heap.max ≤ after.max
  pages : PagesOk after.base after.max after.mapped

theorem Expanded.refl (pages : PagesOk heap.base heap.max heap.mapped) : Expanded heap heap :=
  ⟨rfl, rfl, le_rfl, pages⟩

theorem PagesOk.extend {base max : Nat} {mapped afterMapped : Nat → Bool}
    (pages : PagesOk base max mapped) (room : pageSize ≤ base + heapMaxSize - max)
    (others : ∀ page, page ≠ max → afterMapped page = mapped page)
    (present : afterMapped max = true) : PagesOk base (max + pageSize) afterMapped where
  baseLe := pages.baseLe.trans (Nat.le_add_right _ _)
  maxLe := by
    have := pages.maxLe
    omega
  aligned := (Nat.dvd_add_right pages.aligned).mpr (Nat.dvd_refl _)
  mapped := by
    intro page above below aligned
    by_cases last : page = max
    · exact last ▸ present
    have pageLt : page < max := by
      obtain ⟨i, rfl⟩ := aligned
      obtain ⟨count, maxEq⟩ := pages.aligned
      simp only [pageSize] at below last maxEq ⊢
      omega
    exact (others page last).trans (pages.mapped page above pageLt aligned)

theorem expandPages_spec (pages : Nat) (ok : PagesOk heap.base heap.max heap.mapped) :
    let result := expandPages grant (heap.base + heapMaxSize) pages heap
    Expanded heap result.2 ∧ (result.1 = true → heap.max + pages * pageSize ≤ result.2.max) := by
  induction pages generalizing heap with
  | zero => exact ⟨.refl ok, fun _ => by simp [expandPages]⟩
  | succ pages ih =>
    have extended : ∀ mapped : Nat → Bool, pageSize ≤ heap.base + heapMaxSize - heap.max →
        (∀ page, page ≠ heap.max → mapped page = heap.mapped page) →
        mapped heap.max = true →
        let result := expandPages grant (heap.base + heapMaxSize) pages
          { heap with max := heap.max + pageSize, mapped }
        Expanded heap result.2 ∧
          (result.1 = true → heap.max + (pages + 1) * pageSize ≤ result.2.max) := by
      intro mapped room others present
      obtain ⟨expanded, reaches⟩ :=
        @ih { heap with max := heap.max + pageSize, mapped } (ok.extend room others present)
      refine ⟨⟨expanded.base, expanded.nodes, ?_, expanded.pages⟩, fun succeeded => ?_⟩
      · exact (Nat.le_add_right _ _).trans expanded.maxLe
      · have := reaches succeeded
        simp only [pageSize] at this ⊢
        omega
    simp only [expandPages]
    split
    · exact ⟨.refl ok, nofun⟩
    next room =>
    simp only [not_or, not_lt] at room
    split
    · next present => exact extended heap.mapped room.2 (fun _ _ => rfl) present
    split
    · exact ⟨.refl ok, nofun⟩
    · exact ⟨.refl ok, nofun⟩
    · exact extended _ room.2 (fun page ne => Function.update_of_ne ne _ _)
        (Function.update_self _ _ _)

theorem kheapGetLimit_of_base {arch : Arch} (base : heap.base = arch.kheapVbase) :
    kheapGetLimit heap = some (heap.base + heapMaxSize) := by
  have := vbase_bound arch
  simp only [kheapGetLimit, base, wordLimit, heapMaxSize] at this ⊢
  rw [if_neg (by omega)]

theorem kheapExpandToAddr_spec {arch : Arch} (target : Nat) (base : heap.base = arch.kheapVbase)
    (ok : PagesOk heap.base heap.max heap.mapped) :
    let result := kheapExpandToAddr grant heap target
    Expanded heap result.2 ∧ (result.1 = true → target ≤ result.2.max) := by
  simp only [kheapExpandToAddr, kheapGetLimit_of_base base]
  split
  · exact ⟨.refl ok, nofun⟩
  split
  · exact ⟨.refl ok, nofun⟩
  obtain ⟨expanded, reaches⟩ := expandPages_spec
    (((target + pageSize - 1) / pageSize * pageSize - heap.max + (pageSize - 1)) / pageSize)
    ok
  refine ⟨expanded, fun succeeded => ?_⟩
  have := reaches succeeded
  simp only [pageSize] at this ⊢
  omega

end Expansion

section Allocation

variable {grant : Nat → Grant} {heap : Kheap} {base high needed : Nat} {curr : Node}
  {nodes before after : List Node} {wanted : Node → Bool}

theorem splitAtFirst_some (found : splitAtFirst wanted nodes = some (before, curr, after)) :
    nodes = before ++ curr :: after ∧ wanted curr = true := by
  induction nodes generalizing before with
  | nil => cases found
  | cons node nodes ih =>
    simp only [splitAtFirst] at found
    split at found
    · next first =>
      cases found
      exact ⟨rfl, first⟩
    obtain ⟨⟨later, _, _⟩, foundLater, same⟩ := Option.map_eq_some_iff.mp found
    cases same
    obtain ⟨rfl, holds⟩ := ih foundLater
    exact ⟨rfl, holds⟩

theorem splitAtFirst_isSome (mem : curr ∈ nodes)
    (holds : wanted curr = true) : (splitAtFirst wanted nodes).isSome = true := by
  induction nodes with
  | nil => cases mem
  | cons node nodes ih =>
    simp only [splitAtFirst]
    split
    · rfl
    next notFirst =>
    rcases mem_cons.mp mem with rfl | later
    · exact absurd holds notFirst
    · simpa using ih later

theorem occupied_eq : occupied nodes = (inUse nodes).map Node.payload := rfl

theorem mem_inUse : curr ∈ inUse nodes ↔ curr ∈ nodes ∧ curr.isFree = false := by
  simp [inUse]

theorem inUse_append : inUse (before ++ after) = inUse before ++ inUse after := filter_append ..

theorem inUse_cons_free (free : curr.isFree = true) : inUse (curr :: after) = inUse after :=
  filter_cons_of_neg (by simp [free])

theorem inUse_cons (notFree : curr.isFree = false) : inUse (curr :: after) = curr :: inUse after :=
  filter_cons_of_pos (by simp [notFree])

theorem NodesOk.node_positive (ok : NodesOk base nodes high) (node : Node)
    (mem : node ∈ nodes) : 0 < node.size :=
  Nat.lt_of_lt_of_le (by decide) (ok.sound node mem).headerFits

theorem sound_middle : (∀ node ∈ before ++ curr :: after, node.Sound) ↔
      (∀ node ∈ before, node.Sound) ∧ curr.Sound ∧ ∀ node ∈ after, node.Sound := by
  simp only [forall_mem_append, forall_mem_cons]

theorem NodesOk.payload_spec (ok : NodesOk base nodes high) (highLt : high < wordLimit)
    (mem : curr ∈ nodes) : curr.payload ≠ 0 ∧ sub64 curr.payload headerSize = curr.addr ∧
      add64 curr.addr headerSize = curr.payload := by
  have bound := (ok.tiles.mem_bounds mem).2
  have headerFits := (ok.sound curr mem).headerFits
  have payloadLt : curr.addr + headerSize < wordLimit := by omega
  refine ⟨Nat.succ_ne_zero _, ?_, add64_of_lt payloadLt⟩
  rw [Node.payload, sub64_of_le (Nat.le_add_left _ _) payloadLt]
  exact Nat.add_sub_cancel _ _

theorem carve_spec (ok : NodesOk base (before ++ curr :: after) high) (highLt : high < wordLimit)
    (free : curr.isFree = true) (fits : needed ≤ curr.size) (aligned : kheapAlignment ∣ needed)
    (headerFits : headerSize ≤ needed) :
    NodesOk base (before ++ ((carve needed curr).1 ++ after)) high ∧
      needed ≤ (carve needed curr).2.size ∧
      inUse ((carve needed curr).1 ++ after) = (carve needed curr).2 :: inUse after := by
  have currMem : curr ∈ before ++ curr :: after := mem_append_right _ mem_cons_self
  have currBound := (ok.tiles.mem_bounds currMem).2
  obtain ⟨soundBefore, currSound, soundAfter⟩ := sound_middle.mp ok.sound
  obtain ⟨sparseBefore, sparseAfter, apart⟩ := Tiling.sparse_middle.mp ok.sparse
  by_cases split : curr.size - needed ≥ headerSize + kheapAlignment
  · rw [carve, if_pos split]
    have addrEq : add64 curr.addr (curr.size - needed) = curr.addr + (curr.size - needed) :=
      add64_of_lt (by omega)
    have restAligned := Nat.dvd_sub currSound.sizeAligned aligned
    refine ⟨⟨ok.tiles.replace fun first last
      (old : Tiling.Tiles Node.addr Node.size first [curr] last) => ?_, ?_,
      sound_middle.mpr ⟨soundBefore, ?_, forall_mem_cons.mpr ⟨?_, soundAfter⟩⟩⟩,
      le_rfl, inUse_cons_free free⟩
    · obtain ⟨rfl, rfl⟩ := old
      refine ⟨rfl, addrEq, ?_⟩
      simp only [Tiling.Tiles]
      omega
    · refine Tiling.sparse_middle.mpr ⟨sparseBefore, ?_, fun _ => ⟨(apart free).1, ?_⟩⟩
      · exact sparseAfter.cons rfl
      · rintro right ⟨⟩
        rfl
    · refine ⟨currSound.addrAligned, restAligned, ?_, currSound.magic⟩
      simp only [headerSize, kheapAlignment] at split ⊢
      omega
    · refine ⟨?_, aligned, headerFits, rfl⟩
      rw [addrEq]
      exact Nat.dvd_add currSound.addrAligned restAligned
  · rw [carve, if_neg split]
    refine ⟨⟨ok.tiles.replace fun first last
      (old : Tiling.Tiles Node.addr Node.size first [curr] last) => old, ?_, ?_⟩,
      fits, inUse_cons rfl⟩
    · exact Tiling.sparse_middle.mpr ⟨sparseBefore, sparseAfter, by rintro ⟨⟩⟩
    · exact sound_middle.mpr ⟨soundBefore, { currSound with magic := rfl }, soundAfter⟩

theorem totalNeeded_spec (size : Nat) :
    kheapAlignment ∣ totalNeeded size ∧ headerSize ≤ totalNeeded size ∧
      size + headerSize ≤ totalNeeded size := by
  simp only [totalNeeded, headerSize, kheapAlignment]
  omega

/-- What a successful allocation does to the list of blocks. -/
structure Allocated (heap after : Kheap) (size ptr : Nat) : Prop where
  taken : ∃ node ∈ after.nodes, node.isFree = false ∧ node.payload = ptr ∧ size ≤ node.payloadSize
  occupied : (occupied after.nodes).Perm (ptr :: occupied heap.nodes)
  keeps : ∀ node ∈ heap.nodes, node.isFree = false → node ∈ after.nodes

theorem Allocated.of_inUse {after : Kheap} {size : Nat} {left right : List Node} (curr : Node)
    (was : inUse heap.nodes = left ++ right) (isNow : inUse after.nodes = left ++ curr :: right)
    (large : size ≤ curr.payloadSize) : Allocated heap after size curr.payload where
  taken := by
    obtain ⟨mem, notFree⟩ := mem_inUse.mp (isNow ▸ by simp : curr ∈ inUse after.nodes)
    exact ⟨curr, mem, notFree, rfl, large⟩
  occupied := by
    rw [occupied_eq, occupied_eq, was, isNow]
    exact perm_middle.map _
  keeps := by
    intro node mem notFree
    have old := mem_inUse.mpr ⟨mem, notFree⟩
    rw [was, mem_append] at old
    exact (mem_inUse.mp (isNow ▸ mem_append.mpr (old.imp_right (mem_cons_of_mem _)))).1

structure MallocSpec (arch : Arch) (heap : Kheap) (size : Nat) (result : Option Nat × Kheap) :
    Prop where
  ok : KheapOk arch result.2
  unchanged : result.1 = none → result.2.nodes = heap.nodes
  allocated : ∀ ptr, result.1 = some ptr → Allocated heap result.2 size ptr

variable {arch : Arch} {size : Nat}

theorem MallocSpec.refused (ok : KheapOk arch heap) : MallocSpec arch heap size (none, heap) :=
  ⟨ok, fun _ => rfl, nofun⟩

theorem KheapOk.expanded {expanded : Kheap} (ok : KheapOk arch heap)
    (change : Expanded heap expanded) : KheapOk arch expanded := by
  obtain ⟨high, highLe, nodesOk⟩ := ok.nodes
  refine ⟨change.base.trans ok.base, change.nodes ▸ ok.nonempty, change.pages, high,
    highLe.trans change.maxLe, ?_⟩
  rw [change.base, change.nodes]
  exact nodesOk

theorem KheapOk.bound (ok : KheapOk arch heap) : heap.max < wordLimit := by
  have maxLe := ok.pages.maxLe
  have bound := vbase_bound arch
  rw [ok.base] at maxLe
  omega

theorem NodesOk.append (ok : NodesOk base nodes high) {node : Node} (atHigh : node.addr = high)
    (taken : node.isFree = false) (sound : node.Sound) :
    NodesOk base (nodes ++ [node]) (high + node.size) where
  tiles := Tiling.tiles_append.mpr ⟨high, ok.tiles, atHigh, rfl⟩
  sparse := by
    refine Tiling.sparse_middle.mpr ⟨ok.sparse, .nil, fun flagged => ?_⟩
    rw [taken] at flagged
    cases flagged
  sound := sound_middle.mpr ⟨ok.sound, sound, nofun⟩

theorem growBlock_spec (ok : KheapOk arch heap) (aligned : kheapAlignment ∣ needed)
    (headerFits : headerSize ≤ needed) (fits : size + headerSize ≤ needed) :
    MallocSpec arch heap size (growBlock grant heap needed) := by
  obtain ⟨high, highLe, nodesOk⟩ := ok.nodes
  have lastEq := getLast?_eq_some_getLast ok.nonempty
  generalize heap.nodes.getLast ok.nonempty = last at lastEq
  obtain ⟨front, nodesEq⟩ := getLast?_eq_some_iff.mp lastEq
  have atHigh := (nodesEq ▸ nodesOk.tiles).last
  have limit := kheapGetLimit_of_base ok.base
  simp only [growBlock, lastEq, limit]
  split
  · exact .refused ok
  split
  · exact .refused ok
  obtain ⟨change, reaches⟩ := kheapExpandToAddr_spec (last.addr + last.size + needed)
    ok.base ok.pages
  have okExpanded := ok.expanded change
  split
  · next expanded =>
    have highEnough := reaches expanded
    have lastSound := nodesOk.sound last (nodesEq ▸ by simp)
    have payload : add64 (last.addr + last.size) headerSize =
        last.addr + last.size + headerSize := by
      have := okExpanded.bound
      exact add64_of_lt (by omega)
    rw [payload]
    refine ⟨⟨okExpanded.base, by simp, okExpanded.pages, _, highEnough, ?_⟩, nofun, ?_⟩
    · simp only [change.base, change.nodes]
      rw [atHigh]
      exact nodesOk.append rfl rfl ⟨by
        rw [← atHigh]
        exact Nat.dvd_add lastSound.addrAligned lastSound.sizeAligned, aligned, headerFits,
        rfl⟩
    rintro ptr ⟨⟩
    refine .of_inUse ⟨_, kheapMagic, false, needed⟩ (append_nil _).symm ?_
      (Nat.le_sub_of_add_le fits)
    rw [inUse_append, change.nodes]
    rfl
  · exact ⟨okExpanded, fun _ => change.nodes, nofun⟩

theorem kmalloc_spec (ok : KheapOk arch heap) :
    MallocSpec arch heap size (kmalloc grant heap size) := by
  simp only [kmalloc]
  split
  · exact .refused ok
  obtain ⟨aligned, headerFits, fits⟩ := totalNeeded_spec size
  split
  · exact .refused ok
  split
  · next before curr after found =>
    obtain ⟨high, highLe, nodesOk⟩ := ok.nodes
    obtain ⟨nodesEq, wanted⟩ := splitAtFirst_some found
    simp only [Bool.and_eq_true, decide_eq_true_eq] at wanted
    rw [nodesEq] at nodesOk
    obtain ⟨carved, large, inUseEq⟩ := carve_spec nodesOk
      (highLe.trans_lt ok.bound) wanted.1 wanted.2 aligned headerFits
    have allocatedMem := mem_append_right before
      (mem_inUse.mp (inUseEq ▸ mem_cons_self)).1
    refine ⟨⟨ok.base, ne_nil_of_mem allocatedMem, ok.pages, high, highLe, carved⟩, nofun, ?_⟩
    rintro ptr ⟨⟩
    rw [(carved.payload_spec (highLe.trans_lt ok.bound) allocatedMem).2.2]
    have was : inUse heap.nodes = inUse before ++ inUse after := by
      rw [nodesEq, inUse_append, inUse_cons_free wanted.1]
    refine .of_inUse _ was ?_ ((Nat.le_sub_of_add_le fits).trans (Nat.sub_le_sub_right large _))
    rw [inUse_append, inUseEq]
  · exact growBlock_spec ok aligned headerFits fits

end Allocation

section Release

variable {heap : Kheap} {base high : Nat} {curr : Node} {before after : List Node}

/-- A list of blocks around the one that is being freed, whose neighbours may
still be free. -/
structure Merging (base high : Nat) (before : List Node) (curr : Node) (after : List Node) :
    Prop where
  tiles : Tiling.Tiles Node.addr Node.size base (before ++ curr :: after) high
  sparseBefore : Tiling.Sparse Node.isFree before
  sparseAfter : Tiling.Sparse Node.isFree after
  sound : ∀ node ∈ before ++ curr :: after, node.Sound

theorem NodesOk.merging (ok : NodesOk base (before ++ curr :: after) high) :
    Merging base high before curr after :=
  have ⟨sparseBefore, sparseAfter, _⟩ := Tiling.sparse_middle.mp ok.sparse
  ⟨ok.tiles, sparseBefore, sparseAfter, ok.sound⟩

theorem Merging.nodesOk (merging : Merging base high before curr after)
    (left : ∀ node ∈ before.getLast?, node.isFree = false)
    (right : ∀ node ∈ after.head?, node.isFree = false) :
    NodesOk base (before ++ { curr with isFree := true } :: after) high where
  tiles := by
    obtain ⟨mid, tilesBefore, tilesAfter⟩ := Tiling.tiles_append.mp merging.tiles
    exact Tiling.tiles_append.mpr ⟨mid, tilesBefore, tilesAfter⟩
  sparse := Tiling.sparse_middle.mpr
    ⟨merging.sparseBefore, merging.sparseAfter, fun _ => ⟨left, right⟩⟩
  sound :=
    have ⟨soundBefore, sound, soundAfter⟩ := sound_middle.mp merging.sound
    sound_middle.mpr ⟨soundBefore, { sound with }, soundAfter⟩

theorem Node.Sound.merge {left right : Node} (leftSound : left.Sound) (rightSound : right.Sound) :
    ({ left with size := left.size + right.size } : Node).Sound :=
  ⟨leftSound.addrAligned, Nat.dvd_add leftSound.sizeAligned rightSound.sizeAligned,
    leftSound.headerFits.trans (Nat.le_add_right _ _), leftSound.magic⟩

theorem mergePrev_spec (merging : Merging base high before curr after) (highLt : high < wordLimit) :
    let result := mergePrev before curr
    Merging base high result.1 result.2 after ∧
      (∀ node ∈ result.1.getLast?, node.isFree = false) ∧
      inUse result.1 = inUse before ∧
      result.2.addr + result.2.size = curr.addr + curr.size := by
  simp only [mergePrev]
  split
  · next isFirst =>
    exact ⟨merging, by simp [isFirst], rfl, rfl⟩
  next prev lastEq =>
  obtain ⟨front, rfl⟩ := getLast?_eq_some_iff.mp lastEq
  have currMem : curr ∈ front ++ [prev] ++ curr :: after := by simp
  obtain ⟨soundBefore, currSound, soundAfter⟩ := sound_middle.mp merging.sound
  obtain ⟨soundFront, prevSound, _⟩ := sound_middle.mp soundBefore
  have currBound := (merging.tiles.mem_bounds currMem).2
  obtain ⟨mid, tilesBefore, currAt, tilesAfter⟩ := Tiling.tiles_append.mp merging.tiles
  obtain ⟨first, tilesFront, prevAt, prevEnd⟩ := Tiling.tiles_append.mp tilesBefore
  simp only [Tiling.Tiles] at prevEnd
  have adjacent : add64 prev.addr prev.size = curr.addr := by
    rw [add64_of_lt (by omega)]
    omega
  by_cases free : prev.isFree = true
  · have sizeEq : add64 prev.size curr.size = prev.size + curr.size := add64_of_lt (by omega)
    obtain ⟨sparseFront, _, apart⟩ := Tiling.sparse_middle.mp merging.sparseBefore
    rw [if_pos ⟨free, adjacent⟩, sizeEq, dropLast_concat]
    refine ⟨⟨?_, sparseFront, merging.sparseAfter, ?_⟩, (apart free).1, ?_, ?_⟩
    · refine Tiling.tiles_append.mpr ⟨first, tilesFront, prevAt, ?_⟩
      rw [← Nat.add_assoc, prevEnd]
      exact tilesAfter
    · exact sound_middle.mpr ⟨soundFront, prevSound.merge currSound, soundAfter⟩
    · rw [inUse_append, inUse_cons_free free]
      exact (append_nil _).symm
    · simp only
      omega
  · rw [if_neg fun both => free both.1]
    refine ⟨merging, ?_, rfl, rfl⟩
    intro node mem
    rw [lastEq] at mem
    cases mem
    exact Bool.eq_false_iff.mpr free

theorem mergeNext_spec (merging : Merging base high before curr after) (highLt : high < wordLimit) :
    let result := mergeNext (curr.addr + curr.size) curr after
    Merging base high before result.1 result.2 ∧
      (∀ node ∈ result.2.head?, node.isFree = false) ∧
      inUse result.2 = inUse after := by
  simp only [mergeNext]
  split
  · exact ⟨merging, by simp, rfl⟩
  next next rest =>
  have nextMem : next ∈ before ++ curr :: next :: rest := by simp
  obtain ⟨soundBefore, currSound, soundAfter⟩ := sound_middle.mp merging.sound
  obtain ⟨nextSound, soundRest⟩ := forall_mem_cons.mp soundAfter
  have nextBound := (merging.tiles.mem_bounds nextMem).2
  obtain ⟨mid, tilesBefore, currAt, nextAt, tilesRest⟩ := Tiling.tiles_append.mp merging.tiles
  have adjacent : curr.addr + curr.size = next.addr := by omega
  by_cases free : next.isFree = true
  · have sizeEq : add64 curr.size next.size = curr.size + next.size := add64_of_lt (by omega)
    have sparse := isChain_cons.mp merging.sparseAfter
    rw [if_pos ⟨free, adjacent⟩, sizeEq]
    refine ⟨⟨?_, merging.sparseBefore, sparse.2, ?_⟩, ?_, (inUse_cons_free free).symm⟩
    · refine Tiling.tiles_append.mpr ⟨mid, tilesBefore, currAt, ?_⟩
      rw [← Nat.add_assoc]
      exact tilesRest
    · exact sound_middle.mpr ⟨soundBefore, currSound.merge nextSound, soundRest⟩
    · intro node mem
      exact Bool.eq_false_iff.mpr fun nodeFree => sparse.1 node mem ⟨free, nodeFree⟩
  · rw [if_neg fun both => free both.1]
    refine ⟨merging, ?_, rfl⟩
    rintro node ⟨⟩
    exact Bool.eq_false_iff.mpr free

structure Freed (heap after : Kheap) (node : Node) : Prop where
  occupied : occupied after.nodes = (occupied heap.nodes).filter (· != node.payload)
  keeps : ∀ other ∈ heap.nodes, other.isFree = false → other ≠ node → other ∈ after.nodes

theorem NodesOk.distinct {nodes : List Node} (ok : NodesOk base nodes high) :
    nodes.Pairwise (·.addr ≠ ·.addr) := by
  refine ok.tiles.pairwise.imp_of_mem fun {left right} leftMem _ follows same => ?_
  have positive := ok.node_positive left leftMem
  omega

theorem occupied_nodup {nodes : List Node} (ok : NodesOk base nodes high) :
    (occupied nodes).Nodup :=
  pairwise_map.mpr ((ok.distinct.filter _).imp fun ne same => ne (Nat.add_right_cancel same))

theorem Freed.of_inUse {afterwards : Kheap} (distinct : (Heap.occupied heap.nodes).Nodup)
    (was : inUse heap.nodes = before ++ curr :: after)
    (isNow : inUse afterwards.nodes = before ++ after) : Freed heap afterwards curr where
  occupied := by
    rw [occupied_eq, was, map_append] at distinct
    rw [occupied_eq, occupied_eq, was, isNow, map_append, map_append, map_cons]
    have notOther := (nodup_cons.mp (perm_middle.nodup_iff.mp distinct)).1
    rw [filter_append, filter_cons_of_neg (by simp), ← filter_append]
    refine (filter_eq_self.mpr fun ptr mem => bne_iff_ne.mpr ?_).symm
    rintro rfl
    exact notOther mem
  keeps := by
    intro other mem notFree ne
    have old := mem_inUse.mpr ⟨mem, notFree⟩
    rw [was, mem_append, mem_cons, or_iff_right ne, ← mem_append, ← isNow] at old
    exact (mem_inUse.mp old).1

/-- The list after `kfree` of the block between `before` and `after`. -/
def mergedNodes (before : List Node) (curr : Node) (after : List Node) : List Node :=
  (mergePrev before curr).1 ++
    { (mergeNext (add64 curr.addr curr.size) (mergePrev before curr).2 after).1 with
      isFree := true } :: (mergeNext (add64 curr.addr curr.size) (mergePrev before curr).2 after).2

theorem kfree_eq {arch : Arch} (ok : KheapOk arch heap) {node : Node} (mem : node ∈ heap.nodes)
    (notFree : node.isFree = false) : ∃ before after, heap.nodes = before ++ node :: after ∧
      kfree heap node.payload = .ok { heap with nodes := mergedNodes before node after } := by
  obtain ⟨high, highLe, nodesOk⟩ := ok.nodes
  obtain ⟨payloadNe, headerAt, payloadAt⟩ := nodesOk.payload_spec (highLe.trans_lt ok.bound) mem
  have isSome : (splitAtFirst (fun other => other.addr == sub64 node.payload headerSize)
      heap.nodes).isSome = true :=
    splitAtFirst_isSome mem (by simp [headerAt])
  obtain ⟨⟨before, found, after⟩, split⟩ := Option.isSome_iff_exists.mp isSome
  obtain ⟨nodesEq, foundAt⟩ := splitAtFirst_some split
  obtain rfl : found = node := nodesOk.tiles.eq_of_start_eq nodesOk.node_positive
    (nodesEq ▸ by simp) mem (by simpa [headerAt] using foundAt)
  refine ⟨before, after, nodesEq, ?_⟩
  simp only [kfree, if_neg payloadNe, split, notFree, (nodesOk.sound found mem).magic,
    Bool.false_eq_true,
    ite_false, ne_eq, not_true_eq_false, payloadAt,
    mergedNodes]

theorem kfree_spec {arch : Arch} (ok : KheapOk arch heap) {node : Node}
    (mem : node ∈ heap.nodes) (notFree : node.isFree = false) :
    ∃ after, kfree heap node.payload = .ok after ∧ KheapOk arch after ∧ Freed heap after node := by
  obtain ⟨before, after, nodesEq, freed⟩ := kfree_eq ok mem notFree
  obtain ⟨high, highLe, nodesOk⟩ := ok.nodes
  have highLt := highLe.trans_lt ok.bound
  have nodeBound := (nodesOk.tiles.mem_bounds mem).2
  have distinct := occupied_nodup nodesOk
  rw [nodesEq] at nodesOk
  obtain ⟨mergedPrev, leftTaken, inUseBefore, endEq⟩ := mergePrev_spec nodesOk.merging highLt
  obtain ⟨mergedNext, rightTaken, inUseAfter⟩ := mergeNext_spec mergedPrev highLt
  rw [endEq, ← add64_of_lt (by omega : node.addr + node.size < wordLimit)]
    at mergedNext rightTaken inUseAfter
  have was : inUse heap.nodes = inUse before ++ node :: inUse after := by
    rw [nodesEq, inUse_append, inUse_cons notFree]
  refine ⟨_, freed, ⟨ok.base, by simp [mergedNodes], ok.pages, high, highLe,
    mergedNext.nodesOk leftTaken rightTaken⟩, .of_inUse distinct was ?_⟩
  rw [mergedNodes, inUse_append, inUse_cons_free rfl, inUseBefore, inUseAfter]

end Release

end LaOS.Heap
