import LaOS.RcuListShape

/-!
# What a traversal visits

All nodes that have been linked since the first load are ordered by a key.  Every link of
such a node, also of a deleted one, leads to a larger key.
-/

namespace LaOS.RcuList

open List Function LinkRing

variable {Node : Type} [DecidableEq Node] {head node : Node} {nodes initial changed : List Node}
  {links : Links Node} {s after : State Node} {budget : Nat} {seen more : Finset Node}
  {key newKey : Node → Int}

omit [DecidableEq Node] in
theorem leads_of_ring (ring : Ring links.next head nodes)
    (sorted : nodes.Pairwise fun left right => key left < key right) (mem : node ∈ nodes) :
    links.next node = head ∨ links.next node ∈ nodes ∧ key node < key (links.next node) := by
  obtain ⟨before, later, rfl⟩ := append_of_mem mem
  have path := (path_append.mp ring.path).2
  cases later with
  | nil => exact .inl path
  | cons second later =>
    obtain ⟨rfl, -⟩ := path
    refine .inr ⟨by simp, ?_⟩
    exact rel_of_pairwise_cons (pairwise_append.mp sorted).2.1 mem_cons_self

omit [DecidableEq Node] in
theorem covers_of_ring (ring : Ring links.next head nodes)
    (sorted : nodes.Pairwise fun left right => key left < key right) (mem : node ∈ nodes)
    {target : Node} (targetMem : target ∈ nodes) (above : key node < key target) :
    links.next node = target ∨ links.next node ≠ head ∧ key (links.next node) < key target := by
  obtain ⟨before, later, rfl⟩ := append_of_mem mem
  have path := (path_append.mp ring.path).2
  obtain ⟨-, laterSorted, across⟩ := pairwise_append.mp sorted
  have inLater : target ∈ later := by
    rcases mem_append.mp targetMem with isBefore | isLater
    · exact absurd (across target isBefore node mem_cons_self) (by omega)
    · refine (mem_cons.mp isLater).resolve_left ?_
      rintro rfl
      exact lt_irrefl _ above
  cases later with
  | nil => exact absurd inLater not_mem_nil
  | cons second later =>
    obtain ⟨rfl, -⟩ := path
    rcases mem_cons.mp inLater with rfl | isLater
    · exact .inl rfl
    · refine .inr ⟨?_, rel_of_pairwise_cons (List.Pairwise.of_cons laterSorted) isLater⟩
      intro isHead
      exact (nodup_cons.mp ring.distinct).1 (isHead ▸ by simp)

/-- The nodes that have been linked since the first load, and a bound on the nodes that can
still be visited. -/
structure Traversing (head : Node) (initial : List Node) (budget : Nat) (s : State Node)
    (nodes : List Node) (seen : Finset Node) (key : Node → Int) : Prop where
  budget : seen.card + s.writer.pending.toList.length ≤ budget
  initialSeen : ∀ node ∈ initial, node ∈ seen
  linked : ∀ node ∈ nodes, node ∈ seen
  headNotSeen : head ∉ seen
  retired : ∀ node ∈ seen, node ∈ nodes ∨ node ∈ s.deleted
  pendingNew : ∀ newn, s.writer.pending = some newn → newn ∉ seen
  sorted : nodes.Pairwise fun left right => key left < key right
  leads : ∀ node ∈ seen, s.links.next node = head ∨
    s.links.next node ∈ seen ∧ key node < key (s.links.next node)
  covers : ∀ node ∈ seen, ∀ target ∈ initial, target ∈ nodes → key node < key target →
    s.links.next node = target ∨
      s.links.next node ≠ head ∧ key (s.links.next node) < key target
  visitedSeen : ∀ node ∈ s.visited, node ∈ seen
  visitedSorted : s.visited.Pairwise fun left right => key left < key right
  visiting : ∀ pos, s.reader = .visiting pos →
    (∃ before, s.visited = before ++ [pos]) ∧
      ∀ node ∈ initial, node ∈ nodes → node ∈ s.visited ∨ key pos < key node
  finished : s.reader = .finished → ∀ node ∈ initial, node ∈ nodes → node ∈ s.visited

namespace Traversing

variable (traversing : Traversing head initial budget s nodes seen key)

include traversing

theorem relink {writer : Writer Node} {deleted : List Node} {newBudget : Nat}
    (ring : Ring links.next head changed)
    (sorted : changed.Pairwise fun left right => newKey left < newKey right)
    (grows : ∀ node ∈ seen, node ∈ more) (sameKey : ∀ node ∈ seen, newKey node = key node)
    (linked : ∀ node ∈ changed, node ∈ more) (headNotSeen : head ∉ more)
    (old : ∀ node ∈ more, node ∉ changed → node ∈ seen ∧ links.next node = s.links.next node)
    (initialNodes : ∀ node ∈ initial, node ∈ changed → node ∈ nodes)
    (retired : ∀ node ∈ more, node ∈ changed ∨ node ∈ deleted)
    (pendingNew : ∀ newn, writer.pending = some newn → newn ∉ more)
    (withinBudget : more.card + writer.pending.toList.length ≤ newBudget) :
    Traversing head initial newBudget { s with links, writer, deleted } changed more newKey where
  budget := withinBudget
  initialSeen node mem := grows node (traversing.initialSeen node mem)
  linked := linked
  headNotSeen := headNotSeen
  retired := retired
  pendingNew := pendingNew
  sorted := sorted
  leads node mem := by
    by_cases isLinked : node ∈ changed
    · exact (leads_of_ring ring sorted isLinked).imp_right fun leads => ⟨linked _ leads.1, leads.2⟩
    obtain ⟨wasSeen, sameNext⟩ := old node mem isLinked
    simp only [sameNext]
    refine (traversing.leads node wasSeen).imp_right fun leads => ⟨grows _ leads.1, ?_⟩
    rw [sameKey _ wasSeen, sameKey _ leads.1]
    exact leads.2
  covers node mem target isInitial targetMem above := by
    by_cases isLinked : node ∈ changed
    · exact covers_of_ring ring sorted isLinked targetMem above
    obtain ⟨wasSeen, sameNext⟩ := old node mem isLinked
    have targetSeen := traversing.initialSeen target isInitial
    rw [sameKey _ wasSeen, sameKey _ targetSeen] at above
    simp only [sameNext]
    refine (traversing.covers node wasSeen target isInitial (initialNodes target isInitial targetMem)
      above).imp_right fun covers => ⟨covers.1, ?_⟩
    rw [sameKey _ ((traversing.leads node wasSeen).resolve_left covers.1).1, sameKey _ targetSeen]
    exact covers.2
  visitedSeen node mem := grows node (traversing.visitedSeen node mem)
  visitedSorted := traversing.visitedSorted.imp_of_mem fun leftMem rightMem below => by
    rw [sameKey _ (traversing.visitedSeen _ leftMem), sameKey _ (traversing.visitedSeen _ rightMem)]
    exact below
  visiting pos isAt := by
    obtain ⟨⟨before, visited⟩, kept⟩ := traversing.visiting pos isAt
    have posSeen := traversing.visitedSeen pos (by rw [visited]; simp)
    refine ⟨⟨before, visited⟩, fun node isInitial isLinked => ?_⟩
    rw [sameKey _ posSeen, sameKey _ (traversing.initialSeen node isInitial)]
    exact kept node isInitial (initialNodes node isInitial isLinked)
  finished isDone node isInitial isLinked :=
    traversing.finished isDone node isInitial (initialNodes node isInitial isLinked)

variable {pos : Node}

theorem arrive (isAt : s.reader = .visiting pos) (headNew : head ∉ nodes) :
    Traversing head initial budget (RcuList.arrive head (s.links.next pos) s) nodes seen
      key := by
  obtain ⟨⟨before, visited⟩, kept⟩ := traversing.visiting pos isAt
  have posSeen := traversing.visitedSeen pos (by rw [visited]; simp)
  have covers := traversing.covers pos posSeen
  rw [RcuList.arrive]
  split
  next isHead =>
    refine { traversing with
      visiting := (by rintro _ ⟨⟩)
      finished := fun _ node isInitial isLinked => ?_ }
    refine (kept node isInitial isLinked).resolve_right fun above => ?_
    rcases covers node isInitial isLinked above with isNode | ⟨notHead, -⟩
    · exact headNew (isHead ▸ isNode ▸ isLinked)
    · exact notHead isHead
  next notHead =>
    obtain ⟨nextSeen, nextAbove⟩ := (traversing.leads pos posSeen).resolve_left notHead
    refine { traversing with
      visitedSeen := ?_
      visitedSorted := ?_
      visiting := ?_
      finished := (by rintro ⟨⟩) }
    · intro node mem
      rcases mem_append.mp mem with wasVisited | isNext
      · exact traversing.visitedSeen node wasVisited
      · exact mem_singleton.mp isNext ▸ nextSeen
    · refine pairwise_append.mpr ⟨traversing.visitedSorted, pairwise_singleton _ _, ?_⟩
      intro left leftMem right rightMem
      obtain rfl := mem_singleton.mp rightMem
      have sorted := traversing.visitedSorted
      rw [visited] at sorted leftMem
      rcases mem_append.mp leftMem with isBefore | isPos
      · exact ((pairwise_append.mp sorted).2.2 left isBefore pos (mem_singleton.mpr rfl)).trans
          nextAbove
      · exact mem_singleton.mp isPos ▸ nextAbove
    · rintro next ⟨⟩
      refine ⟨⟨s.visited, rfl⟩, fun node isInitial isLinked => ?_⟩
      rcases kept node isInitial isLinked with wasVisited | above
      · exact .inl (mem_append_left _ wasVisited)
      · rcases covers node isInitial isLinked above with isNode | ⟨-, nextBelow⟩
        · exact .inl (isNode ▸ mem_append_right _ (mem_singleton.mpr rfl))
        · exact .inr nextBelow

omit [DecidableEq Node] in
theorem notMem_of_free (isAt : s.reader = .visiting pos)
    (isFree : Free head s nodes node) : node ∉ seen := by
  intro isSeen
  rcases traversing.retired node isSeen with isLinked | isDeleted
  · exact isFree.1 (mem_cons_of_mem _ isLinked)
  · exact isFree.2 ⟨⟨pos, isAt⟩, isDeleted⟩

theorem publish {newn p : Node} {bound : Int} (pending : s.writer.pending = some newn)
    (isNew : newn ∉ head :: nodes) (mem : p ∈ head :: nodes)
    (next : links.next = update s.links.next p newn) (ring : Ring links.next head changed)
    (isPerm : changed.Perm (newn :: nodes)) (sorted : changed.Pairwise fun left right =>
      update key newn bound left < update key newn bound right) :
    Traversing head initial budget { s with links, writer := .idle } changed
      (insert newn seen) (update key newn bound) := by
  have newNotSeen := traversing.pendingNew newn pending
  have isChanged : ∀ {node}, node ∈ changed ↔ node = newn ∨ node ∈ nodes := fun {node} =>
    isPerm.mem_iff.trans mem_cons
  have withinBudget := traversing.budget
  rw [pending] at withinBudget
  refine traversing.relink ring sorted (fun node => Finset.mem_insert_of_mem)
    (fun node isSeen => update_of_ne (fun isNewNode : node = newn => newNotSeen (isNewNode ▸ isSeen))
      _ _) ?_ ?_ ?_ ?_ ?_ nofun ?_
  · intro node isIn
    rcases isChanged.mp isIn with rfl | isIn
    · exact Finset.mem_insert_self _ _
    · exact Finset.mem_insert_of_mem (traversing.linked node isIn)
  · intro headIn
    rcases Finset.mem_insert.mp headIn with rfl | isSeen
    · exact isNew mem_cons_self
    · exact traversing.headNotSeen isSeen
  · intro node isIn notChanged
    rw [isChanged, not_or] at notChanged
    have isSeen := (Finset.mem_insert.mp isIn).resolve_left notChanged.1
    refine ⟨isSeen, ?_⟩
    have notPrevious : node ≠ p := by
      rintro rfl
      rcases mem_cons.mp mem with rfl | isLinked
      · exact traversing.headNotSeen isSeen
      · exact notChanged.2 isLinked
    rw [next, update_of_ne notPrevious]
  · intro node isInitial isIn
    refine (isChanged.mp isIn).resolve_left ?_
    rintro rfl
    exact newNotSeen (traversing.initialSeen node isInitial)
  · intro node isIn
    rcases Finset.mem_insert.mp isIn with rfl | isSeen
    · exact .inl (isChanged.mpr (.inl rfl))
    · exact (traversing.retired node isSeen).imp_left fun isLinked => isChanged.mpr (.inr isLinked)
  · rw [Finset.card_insert_of_notMem newNotSeen]
    exact withinBudget

theorem step {action : Action Node} (isAt : s.reader = .visiting pos)
    (shape : Shape head s nodes) (newShape : Shape head after changed)
    (effect : Effect head s nodes action after changed) :
    ∃ more newKey, Traversing head initial (budget + action.isInsertion.toNat) after changed more
      newKey ∧ ∀ node ∈ more, node ∈ seen ∨ node ∈ changed := by
  have headNew := (nodup_cons.mp shape.ring.distinct).1
  have notFree := fun {node : Node} (isSeen : node ∈ seen) isFree =>
    traversing.notMem_of_free isAt isFree isSeen
  have withinBudget := traversing.budget
  cases effect with
  | @quiet _ links writer kept pending =>
    refine ⟨seen, key, traversing.relink newShape.ring traversing.sorted (fun _ => id)
      (fun _ _ => rfl) traversing.linked traversing.headNotSeen
      (fun node isSeen _ => ⟨isSeen, kept node (notFree isSeen)⟩) (fun _ _ => id)
      traversing.retired (pending ▸ traversing.pendingNew) ?_, fun _ => .inl⟩
    rw [pending]
    omega
  | @begins _ links writer newn kept insertion isFree noPending pending =>
    refine ⟨seen, key, traversing.relink newShape.ring traversing.sorted (fun _ => id)
      (fun _ _ => rfl) traversing.linked traversing.headNotSeen
      (fun node isSeen _ => ⟨isSeen, kept node (notFree isSeen)⟩) (fun _ _ => id)
      traversing.retired ?_ ?_, fun _ => .inl⟩
    · intro other isPending
      obtain rfl := Option.some.inj (pending.symm.trans isPending)
      exact traversing.notMem_of_free isAt isFree
    · rw [noPending] at withinBudget
      rw [pending, insertion]
      exact Nat.succ_le_succ withinBudget
  | @front links newn pending isNew next =>
    obtain ⟨low, isLow⟩ := (seen.image key).bddBelow
    have sameKey := fun {node : Node} (isIn : node ∈ nodes) => update_of_ne
      (ne_of_mem isNew (mem_cons_of_mem head isIn)) (low - 1) key
    refine ⟨_, update key newn (low - 1), traversing.publish pending isNew mem_cons_self next
      newShape.ring (.refl _) (pairwise_cons.mpr ⟨fun node isIn => ?_, ?_⟩), ?_⟩
    · have above : low ≤ key node :=
        isLow (Finset.mem_coe.mpr (Finset.mem_image_of_mem key (traversing.linked node isIn)))
      rw [update_self, sameKey isIn]
      omega
    · refine traversing.sorted.imp_of_mem fun leftMem rightMem below => ?_
      rw [sameKey leftMem, sameKey rightMem]
      exact below
    · intro node isIn
      rcases Finset.mem_insert.mp isIn with rfl | isSeen
      · exact .inr mem_cons_self
      · exact .inl isSeen
  | @back links newn p pending isNew mem next =>
    obtain ⟨high, isHigh⟩ := (seen.image key).bddAbove
    have sameKey := fun {node : Node} (isIn : node ∈ nodes) => update_of_ne
      (ne_of_mem isNew (mem_cons_of_mem head isIn)) (high + 1) key
    refine ⟨_, update key newn (high + 1), traversing.publish pending isNew mem next
      newShape.ring (perm_append_singleton _ _)
      (pairwise_append.mpr ⟨?_, pairwise_singleton _ _, ?_⟩), ?_⟩
    · refine traversing.sorted.imp_of_mem fun leftMem rightMem below => ?_
      rw [sameKey leftMem, sameKey rightMem]
      exact below
    · intro node isIn last isLast
      have below :=
        isHigh (Finset.mem_coe.mpr (Finset.mem_image_of_mem key (traversing.linked node isIn)))
      rw [mem_singleton.mp isLast, update_self, sameKey isIn]
      omega
    · intro node isIn
      rcases Finset.mem_insert.mp isIn with rfl | isSeen
      · exact .inr (mem_append_right _ (mem_singleton.mpr rfl))
      · exact .inl isSeen
  | @removes links entry p noPending entryMem mem notEntry next =>
    refine ⟨seen, key, traversing.relink newShape.ring
      (traversing.sorted.sublist erase_sublist) (fun _ => id) (fun _ _ => rfl)
      (fun node isIn => traversing.linked node (mem_of_mem_erase isIn))
      traversing.headNotSeen (fun node isSeen notIn => ⟨isSeen, ?_⟩)
      (fun node _ => mem_of_mem_erase) ?_ nofun ?_, fun _ => .inl⟩
    · have notPrevious : node ≠ p := by
        rintro rfl
        rcases mem_cons.mp mem with rfl | isLinked
        · exact traversing.headNotSeen isSeen
        · exact notIn ((mem_erase_of_ne notEntry).mpr isLinked)
      rw [next, update_of_ne notPrevious]
    · intro node isSeen
      rcases traversing.retired node isSeen with isLinked | isDeleted
      · by_cases isEntry : node = entry
        · exact .inr (isEntry ▸ mem_cons_self)
        · exact .inl ((mem_erase_of_ne isEntry).mpr isLinked)
      · exact .inr (mem_cons_of_mem _ isDeleted)
    · rw [noPending] at withinBudget
      exact withinBudget
  | load loaded =>
    rw [load, isAt] at loaded
    cases loaded
    exact ⟨seen, key, traversing.arrive isAt headNew, fun _ => .inl⟩

end Traversing

theorem traversing_first (shape : Shape head s nodes) :
    ∃ key, Traversing head nodes (nodes.length + 1)
      (arrive head (s.links.next head) { s with visited := [], deleted := [] }) nodes
      nodes.toFinset key := by
  obtain ⟨headNew, nodesDistinct⟩ := nodup_cons.mp shape.ring.distinct
  have sorted : nodes.Pairwise fun left right =>
      ((nodes.idxOf left : Nat) : Int) < (nodes.idxOf right : Nat) := by
    rw [pairwise_iff_getElem]
    intro left right leftLt rightLt below
    rw [nodesDistinct.idxOf_getElem, nodesDistinct.idxOf_getElem]
    exact Int.ofNat_lt.mpr below
  have waiting : Traversing head nodes (nodes.length + 1)
      { s with visited := [], deleted := [], reader := .waiting } nodes nodes.toFinset
      fun node => (nodes.idxOf node : Nat) := by
    refine {
      budget := ?_
      initialSeen := fun node => mem_toFinset.mpr
      linked := fun node => mem_toFinset.mpr
      headNotSeen := fun isIn => headNew (mem_toFinset.mp isIn)
      retired := fun node isIn => .inl (mem_toFinset.mp isIn)
      pendingNew := ?_
      sorted := sorted
      leads := fun node isIn => (leads_of_ring shape.ring sorted (mem_toFinset.mp isIn)).imp_right
        fun leads => ⟨mem_toFinset.mpr leads.1, leads.2⟩
      covers := fun node isIn target _ targetMem above =>
        covers_of_ring shape.ring sorted (mem_toFinset.mp isIn) targetMem above
      visitedSeen := (by rintro _ ⟨⟩)
      visitedSorted := .nil
      visiting := (by rintro _ ⟨⟩)
      finished := (by rintro ⟨⟩) }
    · have bound := nodes.toFinset_card_le
      have pendingLe : s.writer.pending.toList.length ≤ 1 := by
        cases s.writer.pending <;> simp
      simp only
      omega
    intro newn pending
    have consistent := shape.consistent
    cases writer : s.writer with
    | idle | deleting entry => simp [writer, Writer.pending] at pending
    | adding other p n stores =>
      rw [writer] at consistent
      have adding := consistent
      simp only [writer, Writer.pending, Option.some.injEq] at pending
      subst pending
      exact fun isIn => adding.isNew (mem_cons_of_mem _ (mem_toFinset.mp isIn))
  refine ⟨fun node => (nodes.idxOf node : Nat), ?_⟩
  rw [arrive]
  have path := shape.ring.path
  split
  next isHead =>
    refine { waiting with visiting := (by rintro _ ⟨⟩), finished := fun _ node isIn => ?_ }
    cases nodes with
    | nil => exact absurd isIn not_mem_nil
    | cons second later => exact absurd (isHead ▸ path.1 ▸ mem_cons_self) headNew
  next notHead =>
    cases nodes with
    | nil => exact absurd path notHead
    | cons second later =>
      rw [path.1]
      refine { waiting with
        visitedSeen := ?_
        visitedSorted := pairwise_singleton _ _
        visiting := ?_
        finished := (by rintro ⟨⟩) }
      · intro node isIn
        rw [mem_singleton.mp isIn]
        exact mem_toFinset.mpr mem_cons_self
      rintro pos ⟨⟩
      refine ⟨⟨[], rfl⟩, fun node isInitial _ => ?_⟩
      rcases mem_cons.mp isInitial with rfl | isLater
      · exact .inl (mem_singleton.mpr rfl)
      · exact .inr (rel_of_pairwise_cons sorted isLater)

end LaOS.RcuList
