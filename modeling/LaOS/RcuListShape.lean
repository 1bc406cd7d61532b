import LaOS.LinkRing
import LaOS.RcuList

/-!
# The list at every moment of an operation

While an operation is under way, the forward links always form a ring, and the
backward links agree with them except where the operation is not finished.
-/

namespace LaOS.RcuList

open List Function LinkRing

variable {Node : Type} [DecidableEq Node] {head node newn p n entry : Node} {nodes : List Node}
  {links : Links Node} {s after : State Node}

omit [DecidableEq Node] in
theorem linked_iff (ring : Ring links.next head nodes) : Linked head links node ↔ node ∈ nodes := by
  constructor
  · intro linked
    induction linked with
    | first notEmpty =>
      exact (mem_cons.mp (ring.next_mem mem_cons_self)).resolve_left notEmpty
    | next linked notLast ih =>
      exact (mem_cons.mp (ring.next_mem (mem_cons_of_mem _ ih))).resolve_left notLast
  have headNew := (nodup_cons.mp ring.distinct).1
  have onPath : ∀ {first : Node} {later : List Node}, Path links.next first later head →
      head ∉ later → (links.next first ≠ head → Linked head links (links.next first)) →
      ∀ node ∈ later, Linked head links node := by
    intro first later path
    induction later generalizing first with
    | nil => exact fun _ _ node member => absurd member not_mem_nil
    | cons second later ih =>
      intro notIn begins node member
      obtain ⟨notSecond, notLater⟩ := not_or.mp (mt mem_cons.mpr notIn)
      have secondLinked : Linked head links second :=
        path.1 ▸ begins (path.1.symm ▸ Ne.symm notSecond)
      rcases mem_cons.mp member with rfl | member
      · exact secondLinked
      · exact ih path.2 notLater secondLinked.next node member
  exact onPath ring.path headNew .first node

structure Adding (head : Node) (links : Links Node) (nodes : List Node) (newn p n : Node)
    (stores : Nat) : Prop where
  isNew : newn ∉ head :: nodes
  member : p ∈ head :: nodes
  leads : links.next p = n
  atEnd : p = head ∨ n = head
  linked : links.next newn = n
  back : 2 ≤ stores → links.prev newn = p
  target : links.prev n = if stores < 3 then p else newn
  others : ∀ node ∈ head :: nodes, node ≠ p → links.prev (links.next node) = node
  positive : 1 ≤ stores
  bound : stores ≤ 3

structure Deleting (head : Node) (links : Links Node) (nodes : List Node) (entry : Node) : Prop where
  isOut : entry ∉ head :: nodes
  member : links.prev entry ∈ head :: nodes
  leads : links.next (links.prev entry) = links.next entry
  others : ∀ node ∈ head :: nodes, node ≠ links.prev entry → links.prev (links.next node) = node

def Consistent (head : Node) (links : Links Node) (nodes : List Node) : Writer Node → Prop
  | .idle => ∀ node ∈ head :: nodes, links.prev (links.next node) = node
  | .adding newn p n stores => Adding head links nodes newn p n stores
  | .deleting entry => Deleting head links nodes entry

structure Shape (head : Node) (s : State Node) (nodes : List Node) : Prop where
  ring : Ring s.links.next head nodes
  consistent : Consistent head s.links nodes s.writer

def Free (head : Node) (s : State Node) (nodes : List Node) (node : Node) : Prop :=
  node ∉ head :: nodes ∧ ¬ Held s node

def Writer.pending : Writer Node → Option Node
  | .adding newn _ _ _ => some newn
  | _ => none

/-- What a step does to the forward links and to the nodes of the list. -/
inductive Effect (head : Node) (s : State Node) (nodes : List Node) :
    Action Node → State Node → List Node → Prop
  | quiet {action : Action Node} {links : Links Node} {writer : Writer Node}
      (kept : ∀ node, ¬ Free head s nodes node → links.next node = s.links.next node)
      (pending : writer.pending = s.writer.pending) :
      Effect head s nodes action { s with links, writer } nodes
  | begins {action : Action Node} {links : Links Node} {writer : Writer Node} {newn : Node}
      (kept : ∀ node, ¬ Free head s nodes node → links.next node = s.links.next node)
      (insertion : action.isInsertion = true) (isFree : Free head s nodes newn)
      (noPending : s.writer.pending = none) (pending : writer.pending = some newn) :
      Effect head s nodes action { s with links, writer } nodes
  | front {links : Links Node} {newn : Node} (pending : s.writer.pending = some newn)
      (isNew : newn ∉ head :: nodes) (next : links.next = update s.links.next head newn) :
      Effect head s nodes .store { s with links, writer := .idle } (newn :: nodes)
  | back {links : Links Node} {newn p : Node} (pending : s.writer.pending = some newn)
      (isNew : newn ∉ head :: nodes) (member : p ∈ head :: nodes)
      (next : links.next = update s.links.next p newn) :
      Effect head s nodes .store { s with links, writer := .idle } (nodes ++ [newn])
  | removes {links : Links Node} {entry p : Node} (noPending : s.writer.pending = none)
      (entryMem : entry ∈ nodes) (member : p ∈ head :: nodes) (notEntry : p ≠ entry)
      (next : links.next = update s.links.next p (s.links.next entry)) :
      Effect head s nodes (.listDelRcu entry)
        { s with links, writer := .deleting entry, deleted := entry :: s.deleted }
        (nodes.erase entry)
  | load {after : State Node} (loaded : load head s = some after) :
      Effect head s nodes .load after nodes

/-- A step changes the list as its effect says, and the links keep their shape. -/
def Changes (head : Node) (s : State Node) (nodes : List Node) (action : Action Node)
    (after : State Node) : Prop :=
  ∃ changed, Shape head after changed ∧ Effect head s nodes action after changed

omit [DecidableEq Node] in
theorem ne_of_mem (outside : node ∉ head :: nodes) {other : Node} (member : other ∈ head :: nodes) :
    other ≠ node := by
  rintro rfl
  exact outside member

variable (shape : Shape head s nodes)

include shape

variable {action : Action Node}

theorem changes_listAdd (insertion : action.isInsertion = true)
    (isFree : Free head s nodes newn) (member : p ∈ head :: nodes)
    (leads : s.links.next p = n) (atEnd : p = head ∨ n = head)
    (ran : listAdd newn p n s = some after) : Changes head s nodes action after := by
  rw [listAdd] at ran
  have consistent := shape.consistent
  cases writer : s.writer with
  | adding | deleting => simp [writer] at ran
  | idle =>
    rw [writer] at ran consistent
    cases ran
    have inRing : ∀ {other : Node}, other ∈ head :: nodes →
        update s.links.next newn n other = s.links.next other := fun isIn =>
      update_of_ne (ne_of_mem isFree.1 isIn) _ _
    have atNew : update s.links.next newn n newn = n := update_self _ _ _
    have backward := leads ▸ consistent p member
    refine ⟨nodes, ⟨shape.ring.congr fun other => inRing, ?_⟩, .begins ?_ insertion isFree ?_ rfl⟩
    · exact {
        isNew := isFree.1
        member := member
        leads := (inRing member).trans leads
        atEnd := atEnd
        linked := atNew
        back := fun impossible => absurd impossible (by omega)
        target := backward
        others := fun other isIn _ => (congrArg s.links.prev (inRing isIn)).trans
          (consistent other isIn)
        positive := le_rfl
        bound := by omega }
    · intro other notFree
      have notNew : other ≠ newn := by
        rintro rfl
        exact notFree isFree
      exact update_of_ne notNew n s.links.next
    · rw [writer]
      rfl

theorem changes_listDelRcu (entryMem : entry ∈ nodes)
    (ran : listDelRcu entry s = some after) :
    Changes head s nodes (.listDelRcu entry) after := by
  rw [listDelRcu] at ran
  have consistent := shape.consistent
  cases writer : s.writer with
  | adding | deleting => simp [writer] at ran
  | idle =>
    rw [writer] at ran consistent
    cases ran
    obtain ⟨previous, member, leads⟩ := shape.ring.exists_previous (mem_cons_of_mem head entryMem)
    have backward := leads ▸ consistent previous member
    obtain ⟨headNew, nodesDistinct⟩ := nodup_cons.mp shape.ring.distinct
    have headNe : entry ≠ head := by
      rintro rfl
      exact headNew entryMem
    have isOut : entry ∉ head :: nodes.erase entry := by
      simp [headNe, nodesDistinct.mem_erase_iff]
    have wasIn : ∀ {other : Node}, other ∈ head :: nodes.erase entry → other ∈ head :: nodes :=
      fun isIn => (mem_cons.mp isIn).elim (fun isHead => isHead ▸ mem_cons_self)
        fun isLater => mem_cons_of_mem _ (mem_of_mem_erase isLater)
    have previousNe : previous ≠ entry := by
      rintro rfl
      exact shape.ring.next_ne_self entryMem leads
    have stays : previous ∈ head :: nodes.erase entry := by
      rcases mem_cons.mp member with rfl | isLater
      · exact mem_cons_self
      · exact mem_cons_of_mem _ ((mem_erase_of_ne previousNe).mpr isLater)
    refine ⟨nodes.erase entry, ⟨?_, ?_⟩, .removes ?_ entryMem member previousNe ?_⟩
    · simp only [Links.setNext, backward]
      exact shape.ring.remove entryMem member leads
    · simp only [Links.setNext, backward]
      refine ⟨isOut, backward.symm ▸ stays, ?_, fun other isIn notPrevious => ?_⟩
      · simp only [backward]
        rw [update_self, update_of_ne (Ne.symm previousNe)]
      · simp only [backward] at notPrevious ⊢
        rw [update_of_ne notPrevious]
        exact consistent other (wasIn isIn)
    · rw [writer]
      rfl
    · simp only [Links.setNext, backward]

theorem changes_publish (writer : s.writer = .adding newn p n 3) :
    Changes head s nodes .store
      { s with links := s.links.setNext p newn, writer := .idle } := by
  have adding : Adding head s.links nodes newn p n 3 := by
    have consistent := shape.consistent
    rwa [writer] at consistent
  have pending : s.writer.pending = some newn := by
    rw [writer]
    rfl
  have newNe := Ne.symm (ne_of_mem adding.isNew adding.member)
  have consistent : ∀ node, node = newn ∨ node ∈ head :: nodes →
      s.links.prev (update s.links.next p newn node) = node := by
    rintro node (rfl | isIn)
    · rw [update_of_ne newNe, adding.linked, adding.target]
      rfl
    · by_cases isPrevious : node = p
      · rw [isPrevious, update_self, adding.back (by omega)]
      · rw [update_of_ne isPrevious, adding.others node isIn isPrevious]
  rcases adding.atEnd with isHead | isHead
  · have linked : s.links.next newn = s.links.next head := by
      rw [adding.linked, ← adding.leads, isHead]
    refine ⟨newn :: nodes, ⟨?_, fun node isIn => consistent node ?_⟩,
      .front pending adding.isNew (by rw [isHead]; rfl)⟩
    · rw [isHead]
      exact shape.ring.addFront adding.isNew linked
    · simp only [mem_cons] at isIn ⊢
      tauto
  · refine ⟨nodes ++ [newn], ⟨?_, fun node isIn => consistent node ?_⟩,
      .back pending adding.isNew adding.member rfl⟩
    · exact shape.ring.addBack adding.isNew adding.member (adding.leads.trans isHead)
        (adding.linked.trans isHead)
    · simp only [mem_cons, mem_append, not_mem_nil, or_false] at isIn ⊢
      tauto

theorem changes_store (ran : store s = some after) :
    Changes head s nodes .store after := by
  rw [store] at ran
  have consistent := shape.consistent
  have leadsInside := fun {other : Node} (isIn : other ∈ head :: nodes) => shape.ring.next_mem isIn
  cases writer : s.writer with
  | idle => simp [writer] at ran
  | adding newn p n stores =>
    rw [writer] at ran consistent
    have adding := consistent
    have inside := adding.leads ▸ leadsInside adding.member
    cases ran
    have positive := adding.positive
    have bound := adding.bound
    obtain rfl | rfl | rfl : stores = 1 ∨ stores = 2 ∨ stores = 3 := by omega
    · refine ⟨nodes, ⟨shape.ring, ?_⟩, .quiet (fun _ _ => rfl) (by rw [writer]; rfl)⟩
      have unchanged : ∀ {other : Node}, other ∈ head :: nodes →
          update s.links.prev newn p other = s.links.prev other := fun isIn =>
        update_of_ne (ne_of_mem adding.isNew isIn) _ _
      have atNew : update s.links.prev newn p newn = p := update_self _ _ _
      exact { adding with
        back := fun _ => atNew
        target := (unchanged inside).trans adding.target
        others := fun other isIn notPrevious =>
          (unchanged (leadsInside isIn)).trans (adding.others other isIn notPrevious)
        positive := by omega
        bound := by omega }
    · refine ⟨nodes, ⟨shape.ring, ?_⟩, .quiet (fun _ _ => rfl) (by rw [writer]; rfl)⟩
      have newNe := Ne.symm (ne_of_mem adding.isNew inside)
      have atNew : update s.links.prev n newn newn = p :=
        (update_of_ne newNe _ _).trans (adding.back le_rfl)
      have atTarget : update s.links.prev n newn n = newn := update_self _ _ _
      exact { adding with
        back := fun _ => atNew
        target := atTarget
        others := fun other isIn notPrevious => by
          have notTarget : s.links.next other ≠ n := fun isTarget =>
            notPrevious (shape.ring.next_injective isIn adding.member
              (isTarget.trans adding.leads.symm))
          exact (update_of_ne notTarget newn s.links.prev).trans
            (adding.others other isIn notPrevious)
        positive := by omega
        bound := by omega }
    · exact changes_publish shape writer
  | deleting entry =>
    rw [writer] at ran consistent
    have deleting := consistent
    cases ran
    refine ⟨nodes, ⟨shape.ring, fun other isIn => ?_⟩, .quiet (fun _ _ => rfl)
      (by rw [writer]; rfl)⟩
    by_cases isPrevious : other = s.links.prev entry
    · have leads : s.links.next other = s.links.next entry := isPrevious ▸ deleting.leads
      simp only [Links.setPrev, leads, update_self]
      exact isPrevious.symm
    have notTarget : s.links.next other ≠ s.links.next entry := fun isTarget =>
      isPrevious (shape.ring.next_injective isIn deleting.member
        (isTarget.trans deleting.leads.symm))
    exact (update_of_ne notTarget _ s.links.prev).trans
      (deleting.others other isIn isPrevious)

theorem changes_reuse {next prev : Node} (isFree : Free head s nodes node)
    (unused : s.writer.entry ≠ some node) : Changes head s nodes (.reuse node next prev)
      { s with links := (s.links.setNext node next).setPrev node prev } := by
  have sameNext : ∀ {other : Node}, other ≠ node →
      update s.links.next node next other = s.links.next other := fun notNode =>
    update_of_ne notNode _ _
  have samePrev : ∀ {other : Node}, other ≠ node →
      update s.links.prev node prev other = s.links.prev other := fun notNode =>
    update_of_ne notNode _ _
  have inRing := fun {other : Node} (isIn : other ∈ head :: nodes) => ne_of_mem isFree.1 isIn
  have backward : ∀ {other : Node}, other ∈ head :: nodes →
      s.links.prev (s.links.next other) = other →
      update s.links.prev node prev (update s.links.next node next other) = other :=
    fun isIn agrees => by
      rw [sameNext (inRing isIn), samePrev (inRing (shape.ring.next_mem isIn)), agrees]
  refine ⟨nodes, ⟨shape.ring.congr fun other isIn => sameNext (inRing isIn), ?_⟩,
    .quiet (fun other notFree => sameNext ?_) rfl⟩
  · have consistent := shape.consistent
    cases writer : s.writer with
    | idle =>
      rw [writer] at consistent
      exact fun other isIn => backward isIn (consistent other isIn)
    | adding newn p n stores =>
      rw [writer] at consistent unused
      have adding := consistent
      have newNe : newn ≠ node := fun isNode => unused (congrArg some isNode)
      have inside := adding.leads ▸ shape.ring.next_mem adding.member
      exact { adding with
        leads := (sameNext (inRing adding.member)).trans adding.leads
        linked := (sameNext newNe).trans adding.linked
        back := fun enough => (samePrev newNe).trans (adding.back enough)
        target := (samePrev (inRing inside)).trans adding.target
        others := fun other isIn notPrevious => backward isIn (adding.others other isIn notPrevious) }
    | deleting entry =>
      rw [writer] at consistent unused
      have deleting := consistent
      have entryNe : entry ≠ node := fun isNode => unused (congrArg some isNode)
      have samePrevious := samePrev entryNe
      refine ⟨deleting.isOut, ?_, ?_, fun other isIn notPrevious => backward isIn ?_⟩
      · simp only [Links.setPrev, Links.setNext]
        rw [samePrevious]
        exact deleting.member
      · simp only [Links.setNext, Links.setPrev]
        rw [samePrevious, sameNext (inRing deleting.member), sameNext entryNe, deleting.leads]
      · refine deleting.others other isIn fun isPrevious => notPrevious ?_
        exact isPrevious.trans samePrevious.symm
  · rintro rfl
    exact notFree isFree

omit shape in
theorem load_keeps (loaded : load head s = some after) :
    after.links = s.links ∧ after.writer = s.writer := by
  rw [load] at loaded
  split at loaded <;> cases loaded
  · rw [arrive]
    split <;> exact ⟨rfl, rfl⟩
  · rw [arrive]
    split <;> exact ⟨rfl, rfl⟩

theorem Shape.load (loaded : load head s = some after) : Shape head after nodes := by
  obtain ⟨sameLinks, sameWriter⟩ := load_keeps loaded
  refine ⟨?_, ?_⟩
  · rw [sameLinks]
    exact shape.ring
  · rw [sameLinks, sameWriter]
    exact shape.consistent

theorem step_changes (contract : Contract head s action)
    (ran : step head s action = some after) : Changes head s nodes action after := by
  have free : ∀ {node}, node ≠ head → ¬ Linked head s.links node → ¬ Held s node →
      Free head s nodes node := fun notHead notLinked notHeld => by
    rw [linked_iff shape.ring] at notLinked
    exact ⟨by simp [notHead, notLinked], notHeld⟩
  cases action with
  | listAddRcu newn =>
    exact changes_listAdd shape rfl (free contract.1 contract.2.1 contract.2.2)
      mem_cons_self rfl (.inl rfl) ran
  | listAddTailRcu newn =>
    obtain ⟨previous, member, leads⟩ := shape.ring.exists_previous (@mem_cons_self _ head nodes)
    have backward : s.writer = .idle → s.links.prev head = previous := fun idle => by
      have consistent := shape.consistent
      rw [idle] at consistent
      exact leads ▸ consistent previous member
    have idle : s.writer = .idle := by
      simp only [step, listAdd] at ran
      split at ran
      · assumption
      · cases ran
    refine changes_listAdd shape rfl (free contract.1 contract.2.1 contract.2.2) ?_ ?_ (.inr rfl)
      ran
    · rw [backward idle]
      exact member
    · rw [backward idle]
      exact leads
  | listDelRcu entry =>
    exact changes_listDelRcu shape ((linked_iff shape.ring).mp contract) ran
  | store => exact changes_store shape ran
  | reuse node next prev =>
    cases ran
    exact changes_reuse shape (free contract.1 contract.2.1 contract.2.2.1) contract.2.2.2
  | load => exact ⟨nodes, shape.load ran, .load ran⟩
  | pause =>
    cases ran
    exact ⟨nodes, shape, .quiet (fun _ _ => rfl) rfl⟩

end LaOS.RcuList
