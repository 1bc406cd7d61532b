import Mathlib

/-!
# Rings of linked nodes

A circular list is given by a function that returns the next node.  Following it
from the head gives the nodes of the list in turn and then the head again.
-/

namespace LaOS.LinkRing

open List Function

variable {Node : Type*} {next other : Node → Node} {first mid last node newNode : Node}
  {nodes before after : List Node}

/-- Following the links from the first node gives the nodes in turn and then the
last one. -/
def Path (next : Node → Node) : Node → List Node → Node → Prop
  | first, [], last => next first = last
  | first, node :: nodes, last => next first = node ∧ Path next node nodes last

theorem path_append : Path next first (before ++ mid :: after) last ↔
      Path next first before mid ∧ Path next mid after last := by
  induction before generalizing first with
  | nil => rfl
  | cons node before ih => simp only [cons_append, Path, ih, and_assoc]

section

variable (path : Path next first nodes last)

include path

theorem Path.congr
    (same : ∀ node ∈ first :: nodes, other node = next node) : Path other first nodes last := by
  induction nodes generalizing first with
  | nil => exact (same first mem_cons_self).trans path
  | cons node nodes ih =>
    exact ⟨(same first mem_cons_self).trans path.1,
      ih path.2 fun later mem => same later (mem_cons_of_mem _ mem)⟩

theorem Path.next_mem (mem : node ∈ first :: nodes) : next node ∈ nodes ++ [last] := by
  induction nodes generalizing first with
  | nil =>
    obtain rfl := mem_singleton.mp mem
    exact mem_singleton.mpr path
  | cons second nodes ih =>
    rcases mem_cons.mp mem with rfl | mem
    · rw [path.1]
      exact mem_cons_self
    · exact mem_cons_of_mem _ (ih path.2 mem)

theorem Path.exists_of_mem (mem : node ∈ nodes ++ [last]) :
    ∃ previous ∈ first :: nodes, next previous = node := by
  induction nodes generalizing first with
  | nil => exact ⟨first, mem_cons_self, path.trans (mem_singleton.mp mem).symm⟩
  | cons second nodes ih =>
    rcases mem_cons.mp mem with rfl | mem
    · exact ⟨first, mem_cons_self, path.1⟩
    · obtain ⟨previous, isIn, leads⟩ := ih path.2 mem
      exact ⟨previous, mem_cons_of_mem _ isIn, leads⟩

theorem Path.next_injective (distinct : (nodes ++ [last]).Nodup)
    {left right : Node} (leftMem : left ∈ first :: nodes) (rightMem : right ∈ first :: nodes)
    (same : next left = next right) : left = right := by
  induction nodes generalizing first with
  | nil => rw [mem_singleton.mp leftMem, mem_singleton.mp rightMem]
  | cons second nodes ih =>
    obtain ⟨secondNew, restDistinct⟩ := nodup_cons.mp distinct
    have notSecond : ∀ {node}, node ∈ second :: nodes → next node ≠ second := fun mem isSecond =>
      secondNew (isSecond ▸ path.2.next_mem mem)
    rcases mem_cons.mp leftMem with isFirst | leftLater
    · rcases mem_cons.mp rightMem with alsoFirst | rightLater
      · rw [isFirst, alsoFirst]
      · rw [isFirst] at same
        exact absurd (same.symm.trans path.1) (notSecond rightLater)
    · rcases mem_cons.mp rightMem with isFirst | rightLater
      · rw [isFirst] at same
        exact absurd (same.trans path.1) (notSecond leftLater)
      · exact ih path.2 restDistinct leftLater rightLater

theorem Path.reverse (back : ∀ node ∈ first :: nodes, other (next node) = node) :
    Path other last nodes.reverse first := by
  induction nodes generalizing first with
  | nil => exact path ▸ back first mem_cons_self
  | cons node nodes ih =>
    rw [reverse_cons]
    refine path_append.mpr ⟨ih path.2 fun later isIn => back later (mem_cons_of_mem _ isIn), ?_⟩
    exact path.1 ▸ back first mem_cons_self

end

variable [DecidableEq Node]

theorem Path.redirect (path : Path next first nodes last) (distinct : (first :: nodes).Nodup)
    (lastNew : last ∉ nodes) (mem : node ∈ first :: nodes) (leads : next node = last)
    (target : Node) : Path (update next node target) first nodes target := by
  induction nodes generalizing first with
  | nil =>
    obtain rfl := mem_singleton.mp mem
    exact update_self node target next
  | cons second nodes ih =>
    obtain ⟨firstNew, restDistinct⟩ := nodup_cons.mp distinct
    have notFirst : node ≠ first := by
      rintro rfl
      exact lastNew (leads ▸ path.1 ▸ mem_cons_self)
    refine ⟨(update_of_ne notFirst.symm target next).trans path.1, ?_⟩
    exact ih path.2 restDistinct (fun isIn => lastNew (mem_cons_of_mem _ isIn))
      ((mem_cons.mp mem).resolve_left notFirst)

structure Ring (next : Node → Node) (head : Node) (nodes : List Node) : Prop where
  path : Path next head nodes head
  distinct : (head :: nodes).Nodup

namespace Ring

variable {head : Node} (ring : Ring next head nodes)

include ring

omit [DecidableEq Node] in
theorem concat_nodup : (nodes ++ [head]).Nodup :=
  perm_append_singleton head nodes |>.nodup_iff.mpr ring.distinct

omit [DecidableEq Node] in
theorem next_mem (mem : node ∈ head :: nodes) : next node ∈ head :: nodes :=
  (perm_append_singleton head nodes).mem_iff.mp (ring.path.next_mem mem)

omit [DecidableEq Node] in
theorem exists_previous (mem : node ∈ head :: nodes) :
    ∃ previous ∈ head :: nodes, next previous = node :=
  ring.path.exists_of_mem ((perm_append_singleton head nodes).mem_iff.mpr mem)

omit [DecidableEq Node] in
theorem next_injective {left right : Node} (leftMem : left ∈ head :: nodes)
    (rightMem : right ∈ head :: nodes) (same : next left = next right) : left = right :=
  ring.path.next_injective ring.concat_nodup leftMem rightMem same

omit [DecidableEq Node] in
theorem next_ne_self (mem : node ∈ nodes) : next node ≠ node := by
  obtain ⟨before, after, rfl⟩ := append_of_mem mem
  have distinct := ring.concat_nodup
  rw [append_assoc, cons_append] at distinct
  have later := (path_append.mp ring.path).2.next_mem mem_cons_self
  intro isSelf
  exact (nodup_cons.mp (nodup_append'.mp distinct).2.1).1 (isSelf ▸ later)

omit [DecidableEq Node] in
theorem congr (same : ∀ node ∈ head :: nodes, other node = next node) : Ring other head nodes :=
  ⟨ring.path.congr same, ring.distinct⟩

theorem addFront (isNew : newNode ∉ head :: nodes) (linked : next newNode = next head) :
    Ring (update next head newNode) head (newNode :: nodes) := by
  obtain ⟨headNew, nodesDistinct⟩ := nodup_cons.mp ring.distinct
  have notHead : newNode ≠ head := fun isHead => isNew (isHead ▸ mem_cons_self)
  refine ⟨⟨update_self head newNode next, ?_⟩, ?_⟩
  · have fromHead : ∀ later ∈ nodes, update next head newNode later = next later :=
      fun later mem => update_of_ne (fun isHead : later = head => headNew (isHead ▸ mem)) _ _
    have atNew : update next head newNode newNode = next head :=
      (update_of_ne notHead _ _).trans linked
    have path := ring.path
    cases nodes with
    | nil => exact atNew.trans path
    | cons second nodes => exact ⟨atNew.trans path.1, path.2.congr fromHead⟩
  · simp only [nodup_cons, mem_cons, not_or] at isNew ⊢
    exact ⟨⟨Ne.symm isNew.1, headNew⟩, isNew.2, nodesDistinct⟩

theorem addBack (isNew : newNode ∉ head :: nodes) (mem : node ∈ head :: nodes)
    (leads : next node = head) (linked : next newNode = head) :
    Ring (update next node newNode) head (nodes ++ [newNode]) := by
  have headNew := (nodup_cons.mp ring.distinct).1
  refine ⟨path_append.mpr ⟨ring.path.redirect ring.distinct headNew mem leads newNode, ?_⟩, ?_⟩
  · have notNode : newNode ≠ node := fun isNode => isNew (isNode ▸ mem)
    exact (update_of_ne notNode _ _).trans linked
  · rw [← cons_append]
    exact (perm_append_singleton newNode _).nodup_iff.mpr
      (nodup_cons.mpr ⟨isNew, ring.distinct⟩)

theorem remove (entryMem : newNode ∈ nodes) (mem : node ∈ head :: nodes)
    (leads : next node = newNode) :
    Ring (update next node (next newNode)) head (nodes.erase newNode) := by
  obtain ⟨before, after, rfl⟩ := append_of_mem entryMem
  have allDistinct := ring.distinct
  rw [← cons_append] at allDistinct
  obtain ⟨beforeDistinct, afterDistinct, disjoint⟩ := nodup_append'.mp allDistinct
  have entryNotBefore : newNode ∉ head :: before := fun isIn =>
    disjoint isIn mem_cons_self
  obtain ⟨toEntry, fromEntry⟩ := path_append.mp ring.path
  obtain ⟨previous, previousMem, previousLeads⟩ := toEntry.exists_of_mem
    (mem_append_right before (mem_singleton.mpr rfl))
  obtain rfl := ring.next_injective (mem_append_left (newNode :: after) previousMem) mem
    (previousLeads.trans leads.symm)
  rw [erase_append_right _ fun isIn => entryNotBefore (mem_cons_of_mem _ isIn), erase_cons_head]
  have shorter := toEntry.redirect beforeDistinct
    (fun isIn => entryNotBefore (mem_cons_of_mem _ isIn)) previousMem leads (next newNode)
  refine ⟨?_, ?_⟩
  · cases after with
    | nil =>
      rw [append_nil]
      exact (show next newNode = head from fromEntry) ▸ shorter
    | cons second after =>
      obtain ⟨rfl, others⟩ := fromEntry
      refine path_append.mpr ⟨shorter, others.congr fun later isLater => update_of_ne ?_ _ _⟩
      rintro rfl
      exact disjoint previousMem (mem_cons_of_mem _ isLater)
  · rw [← cons_append]
    exact nodup_append'.mpr ⟨beforeDistinct, (nodup_cons.mp afterDistinct).2,
      fun later inBefore inAfter => disjoint inBefore (mem_cons_of_mem _ inAfter)⟩

end Ring

end LaOS.LinkRing
