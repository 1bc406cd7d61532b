import LaOS.RcuListTraversal

/-!
# Traversals in runs

A traversal visits the nodes that stay linked, visits no node twice, and visits only
nodes that were linked since its first load.
-/

namespace LaOS.RcuList

open List LinkRing

variable {Node : Type} [DecidableEq Node] {head : Node}

theorem shape_initial {s : State Node} (starts : (system head).initial s) :
    Shape head s [] := by
  obtain ⟨next, prev, writer, -⟩ := starts
  refine ⟨⟨next, nodup_singleton head⟩, ?_⟩
  rw [writer]
  intro node isIn
  rw [mem_singleton.mp isIn, next, prev]

def KeepsContract (run : (system head).Run) : Prop :=
  ∀ i, Contract head (run.states i) (run.actions i)

variable {run : (system head).Run} (contract : KeepsContract run) {first : Nat}

include contract

theorem exists_shape (i : Nat) : ∃ nodes, Shape head (run.states i) nodes := by
  induction i with
  | zero => exact ⟨[], shape_initial run.starts⟩
  | succ i ih =>
    obtain ⟨nodes, shape⟩ := ih
    obtain ⟨changed, newShape, -⟩ := step_changes shape (contract i) (run.steps i)
    exact ⟨changed, newShape⟩

/-- The traversal that began with the given step is under way, or it has just
ended. -/
def Progress (run : (system head).Run) (first : Nat) (initial : List Node) (budget i : Nat) :
    Prop :=
  ∃ nodes seen key, Shape head (run.states i) nodes ∧
    Traversing head initial budget (run.states i) nodes seen key ∧
    ∀ node ∈ seen, ∃ instant, first ≤ instant ∧ instant ≤ i ∧
      Linked head (run.states instant).links node

variable {initial : List Node} {budget i : Nat}

theorem Progress.next (progress : Progress run first initial budget i)
    (started : first < i) {pos : Node} (isAt : (run.states i).reader = .visiting pos) :
    Progress run first initial (budget + (run.actions i).isInsertion.toNat) (i + 1) := by
  obtain ⟨nodes, seen, key, shape, traversing, wereLinked⟩ := progress
  obtain ⟨changed, newShape, effect⟩ := step_changes shape (contract i) (run.steps i)
  obtain ⟨more, newKey, stillTraversing, old⟩ := traversing.step isAt shape newShape effect
  refine ⟨changed, more, newKey, newShape, stillTraversing, fun node isSeen => ?_⟩
  rcases old node isSeen with wasSeen | isLinked
  · obtain ⟨instant, after, before, linked⟩ := wereLinked node wasSeen
    exact ⟨instant, after, by omega, linked⟩
  · exact ⟨i + 1, by omega, le_rfl, (linked_iff newShape.ring).mpr isLinked⟩

omit contract in
theorem progress_first {nodes : List Node} (shape : Shape head (run.states first) nodes)
    (waiting : (run.states first).reader = .waiting) (loads : run.actions first = .load) :
    Progress run first nodes (nodes.length + 1) (first + 1) := by
  have loaded : load head (run.states first) = some (run.states (first + 1)) := by
    have stepped := run.steps first
    rw [loads] at stepped
    exact stepped
  obtain ⟨key, traversing⟩ := traversing_first shape
  refine ⟨nodes, nodes.toFinset, key, shape.load loaded, ?_, fun node isSeen => ?_⟩
  · rw [load] at loaded
    split at loaded
    next => exact Option.some.inj loaded ▸ traversing
    next isAt => cases waiting.symm.trans isAt
    next isDone => cases waiting.symm.trans isDone
  · exact ⟨first, le_rfl, Nat.le_succ first, (linked_iff shape.ring).mpr (mem_toFinset.mp isSeen)⟩

omit contract in
theorem reader_of_write {s after : State Node} {action : Action Node}
    (ran : step head s action = some after) (notLoad : action ≠ .load) :
    after.reader = s.reader ∧ after.visited = s.visited := by
  cases action with
  | listAddRcu newn | listAddTailRcu newn =>
    simp only [step, listAdd] at ran
    split at ran <;> cases ran
    exact ⟨rfl, rfl⟩
  | listDelRcu entry =>
    simp only [step, listDelRcu] at ran
    split at ran <;> cases ran
    exact ⟨rfl, rfl⟩
  | store =>
    simp only [step, store] at ran
    split at ran <;> cases ran <;> exact ⟨rfl, rfl⟩
  | reuse node next prev | pause =>
    cases ran
    exact ⟨rfl, rfl⟩
  | load => exact absurd rfl notLoad

omit contract in
theorem reader_of_load {s after : State Node} (loaded : load head s = some after) :
    after.reader ≠ .waiting ∧ s.reader ≠ .finished ∧
      (s.reader ≠ .waiting → after.reader ≠ .finished →
        after.visited.length = s.visited.length + 1) := by
  rw [load] at loaded
  split at loaded
  next waiting =>
    rw [← Option.some.inj loaded, arrive]
    refine ⟨?_, by simp [waiting], fun notWaiting => absurd waiting notWaiting⟩
    split <;> simp
  next pos isAt =>
    rw [← Option.some.inj loaded, arrive]
    refine ⟨?_, by simp [isAt], fun _ => ?_⟩ <;> split <;> simp
  next => cases loaded

omit contract in
theorem loaded_of_action (loads : run.actions i = .load) :
    load head (run.states i) = some (run.states (i + 1)) := by
  have stepped := run.steps i
  rw [loads] at stepped
  exact stepped

omit contract in
theorem started (loads : run.actions first = .load) (later : first < i) :
    (run.states i).reader ≠ .waiting := by
  induction i, later using Nat.le_induction with
  | base => exact (reader_of_load (loaded_of_action loads)).1
  | succ i later ih =>
    by_cases isLoad : run.actions i = .load
    · exact (reader_of_load (loaded_of_action isLoad)).1
    · rw [(reader_of_write (run.steps i) isLoad).1]
      exact ih

theorem exists_progress {nodes : List Node} (shape : Shape head (run.states first) nodes)
    (waiting : (run.states first).reader = .waiting) (loads : run.actions first = .load)
    (later : first < i) :
    ∃ latest ≤ i, first < latest ∧ (∃ budget, Progress run first nodes budget latest) ∧
      (run.states i).visited = (run.states latest).visited ∧
      (run.states i).reader = (run.states latest).reader ∧
      (latest = i ∨ (run.states latest).reader = .finished) := by
  induction i, later using Nat.le_induction with
  | base =>
    exact ⟨first + 1, le_rfl, Nat.lt_succ_self first, ⟨_, progress_first shape waiting loads⟩, rfl,
      rfl, .inl rfl⟩
  | succ i later ih =>
    obtain ⟨latest, notAfter, afterFirst, ⟨budget, progress⟩, visited, reader, ends⟩ := ih
    cases now : (run.states i).reader with
    | waiting => exact absurd now (started loads later)
    | finished =>
      have notLoad : run.actions i ≠ .load := fun isLoad =>
        (reader_of_load (loaded_of_action isLoad)).2.1 now
      obtain ⟨sameReader, sameVisited⟩ := reader_of_write (run.steps i) notLoad
      exact ⟨latest, by omega, afterFirst, ⟨budget, progress⟩, sameVisited.trans visited,
        sameReader.trans reader, .inr (reader ▸ now)⟩
    | visiting pos =>
      have isLatest : latest = i := by
        refine ends.resolve_right fun isDone => ?_
        rw [reader, isDone] at now
        cases now
      subst isLatest
      exact ⟨latest + 1, le_rfl, by omega, ⟨_, progress.next contract afterFirst now⟩, rfl, rfl,
        .inl rfl⟩

omit [DecidableEq Node] contract in
theorem visited_nodup {s : State Node} {nodes : List Node} {seen : Finset Node}
    {key : Node → Int} (traversing : Traversing head initial budget s nodes seen key) :
    s.visited.Nodup :=
  traversing.visitedSorted.imp fun {left right} (below : key left < key right) =>
    ne_of_apply_ne key below.ne

omit contract in
theorem Progress.length_visited_le (progress : Progress run first initial budget i) :
    (run.states i).visited.length ≤ budget := by
  obtain ⟨nodes, seen, key, -, traversing, -⟩ := progress
  have withinBudget := traversing.budget
  rw [← toFinset_card_of_nodup (visited_nodup traversing)]
  have isSubset := Finset.card_le_card fun node isIn =>
    traversing.visitedSeen node (mem_toFinset.mp isIn)
  omega

theorem exists_finished (progress : Progress run first initial budget i)
    (later : first < i) (loads : run.actions first = .load)
    (noInsertion : ∀ instant ≥ i, (run.actions instant).isInsertion = false)
    (fair : ∀ instant, ∃ later ≥ instant, run.actions later = .load ∨
      (run.states later).reader = .finished) :
    ∃ last > first, (run.states last).reader = .finished := by
  by_contra never
  have unfinished : ∀ instant > first, (run.states instant).reader ≠ .finished :=
    fun instant isLater isDone => never ⟨instant, isLater, isDone⟩
  have keeps : ∀ instant ≥ i, Progress run first initial budget instant := by
    intro instant isLater
    induction instant, isLater using Nat.le_induction with
    | base => exact progress
    | succ instant isLater ih =>
      cases now : (run.states instant).reader with
      | waiting => exact absurd now (started loads (by omega))
      | finished => exact absurd now (unfinished instant (by omega))
      | visiting pos =>
        have next := ih.next contract (by omega) now
        rwa [noInsertion instant isLater] at next
  have loadGrows : ∀ instant ≥ i, run.actions instant = .load →
      (run.states (instant + 1)).visited.length = (run.states instant).visited.length + 1 :=
    fun instant isLater isLoad => (reader_of_load (loaded_of_action isLoad)).2.2
      (started loads (by omega)) (unfinished (instant + 1) (by omega))
  have neverShrinks : ∀ instant ≥ i, ∀ later ≥ instant,
      (run.states instant).visited.length ≤ (run.states later).visited.length := by
    intro instant isLater later isLatest
    induction later, isLatest using Nat.le_induction with
    | base => exact le_rfl
    | succ later isLatest ih =>
      by_cases isLoad : run.actions later = .load
      · have grows := loadGrows later (by omega) isLoad
        omega
      · rw [(reader_of_write (run.steps later) isLoad).2]
        exact ih
  have grows : ∀ count, ∃ instant ≥ i, count ≤ (run.states instant).visited.length := by
    intro count
    induction count with
    | zero => exact ⟨i, le_rfl, Nat.zero_le _⟩
    | succ count ih =>
      obtain ⟨instant, isLater, enough⟩ := ih
      obtain ⟨later, isLatest, isLoad | isDone⟩ := fair instant
      · have noLess := neverShrinks instant isLater later isLatest
        have one := loadGrows later (by omega) isLoad
        exact ⟨later + 1, by omega, by omega⟩
      · exact absurd isDone (unfinished later (by omega))
  obtain ⟨instant, isLater, tooMany⟩ := grows (budget + 1)
  have bound := (keeps instant isLater).length_visited_le
  omega

/-- A traversal visits no node twice, only nodes that were linked since its first load, and all
that stayed linked; it ends if insertions cease. -/
theorem traversal_correct (waiting : (run.states first).reader = .waiting)
    (loads : run.actions first = .load) :
    ((∃ bound, ∀ i ≥ bound, (run.actions i).isInsertion = false) →
      (∀ i, ∃ later ≥ i, run.actions later = .load ∨
        (run.states later).reader = .finished) →
      ∃ last > first, (run.states last).reader = .finished) ∧
    ∀ last > first, (run.states last).visited.Nodup ∧
      (∀ node ∈ (run.states last).visited, ∃ instant, first ≤ instant ∧ instant ≤ last ∧
        Linked head (run.states instant).links node) ∧
      ((run.states last).reader = .finished → ∀ node, (∀ instant, first ≤ instant →
        instant ≤ last → Linked head (run.states instant).links node) →
          (run.states last).visited.count node = 1) := by
  obtain ⟨nodes, shape⟩ := exists_shape contract first
  constructor
  · rintro ⟨bound, noInsertion⟩ fair
    obtain ⟨latest, notAfter, afterFirst, ⟨budget, progress⟩, -, -, ends⟩ :=
      exists_progress contract shape waiting loads (Nat.lt_succ_of_le (le_max_left first bound))
    rcases ends with rfl | isDone
    · exact exists_finished contract progress afterFirst loads
        (fun instant isLater => noInsertion instant (by omega)) fair
    · exact ⟨latest, afterFirst, isDone⟩
  intro last isLater
  obtain ⟨latest, notAfter, afterFirst, ⟨budget, progress⟩, sameVisited, sameReader, -⟩ :=
    exists_progress contract shape waiting loads isLater
  obtain ⟨changed, seen, key, newShape, traversing, wereLinked⟩ := progress
  rw [sameVisited, sameReader]
  have distinct := visited_nodup traversing
  refine ⟨distinct, fun node isVisited => ?_, fun isDone node always => ?_⟩
  · obtain ⟨instant, after, before, linked⟩ :=
      wereLinked node (traversing.visitedSeen node isVisited)
    exact ⟨instant, after, by omega, linked⟩
  · have isInitial := (linked_iff shape.ring).mp (always first le_rfl (by omega))
    have isLinked := (linked_iff newShape.ring).mp (always latest (by omega) notAfter)
    exact count_eq_one_of_mem distinct (traversing.finished isDone node isInitial isLinked)

/-- Whenever no operation is under way, the backward links run through the list in the opposite
order. -/
theorem backward_links_of_idle (idle : (run.states i).writer = .idle) :
    ∃ nodes, Ring (run.states i).links.next head nodes ∧
      Ring (run.states i).links.prev head nodes.reverse ∧
      ∀ node, node ∈ nodes ↔ Linked head (run.states i).links node := by
  obtain ⟨nodes, shape⟩ := exists_shape contract i
  have back := shape.consistent
  rw [idle] at back
  have distinct := nodup_cons.mp shape.ring.distinct
  refine ⟨nodes, shape.ring, ⟨shape.ring.path.reverse back, ?_⟩, fun node =>
    (linked_iff shape.ring).symm⟩
  exact nodup_cons.mpr ⟨mt mem_reverse.mp distinct.1, nodup_reverse.mpr distinct.2⟩

omit contract

/-- Two nodes are added, the traversal visits the first, and that node is deleted before the
next load. -/
def deletedWhileVisited (i : Nat) : Action (Fin 3) :=
  [Action.listAddRcu 1, .store, .store, .store, .listAddTailRcu 2, .store, .store, .store, .load,
    .listDelRcu 1, .store, .load].getD i .pause

theorem deletedWhileVisited_of_ge {i : Nat} (late : ¬ i < 12) :
    deletedWhileVisited i = .pause := by
  rw [deletedWhileVisited, getD_eq_getElem?_getD, getElem?_eq_none (by simpa using late)]
  rfl

def emptyList : State (Fin 3) := ⟨⟨id, id⟩, .idle, .waiting, [], []⟩

theorem enabled_deletedWhileVisited (i : Nat) :
    ((system (0 : Fin 3)).step (TransitionSystem.Run.stateAfter (system 0) emptyList
      deletedWhileVisited i) (deletedWhileVisited i)).isSome = true := by
  by_cases early : i < 12
  · interval_cases i <;> rfl
  · rw [deletedWhileVisited_of_ge early]
    rfl

def deletionRun : (system (0 : Fin 3)).Run :=
  .ofActions emptyList ⟨rfl, rfl, rfl, rfl⟩ deletedWhileVisited enabled_deletedWhileVisited

theorem keepsContract_deletionRun : KeepsContract deletionRun := by
  intro i
  by_cases early : i < 12
  · have empty : Ring (deletionRun.states 0).links.next 0 [] := ⟨rfl, by decide⟩
    have single : Ring (deletionRun.states 4).links.next 0 [1] := ⟨⟨rfl, rfl⟩, by decide⟩
    interval_cases i
    · refine ⟨by decide, fun linked => ?_, fun held => ?_⟩
      · exact not_mem_nil ((linked_iff empty).mp linked)
      · cases held.2
    iterate 3 trivial
    · refine ⟨by decide, fun linked => ?_, fun held => ?_⟩
      · exact absurd ((linked_iff single).mp linked) (by decide)
      · cases held.2
    all_goals first | trivial | exact Linked.first (by decide)
  · have pauses : deletionRun.actions i = .pause := deletedWhileVisited_of_ge early
    rw [pauses]
    trivial

theorem traversal_correct_deletionRun :
    KeepsContract deletionRun ∧ (deletionRun.states 8).reader = .waiting ∧
      deletionRun.actions 8 = .load ∧ (deletionRun.states 12).visited = [1, 2] ∧
      ∃ instant, 8 ≤ instant ∧ instant ≤ 12 ∧ Linked 0 (deletionRun.states instant).links 1 :=
  ⟨keepsContract_deletionRun, rfl, rfl, rfl,
    ((traversal_correct keepsContract_deletionRun rfl rfl).2 12 (by decide)).2.1 1 (by decide)⟩

/-- Before the deletion both nodes are in both rings. -/
theorem backward_links_deletionRun : (deletionRun.states 8).writer = .idle ∧
    ∃ nodes, Ring (deletionRun.states 8).links.next 0 nodes ∧
      Ring (deletionRun.states 8).links.prev 0 nodes.reverse ∧ 1 ∈ nodes ∧ 2 ∈ nodes := by
  have idle : (deletionRun.states 8).writer = .idle := rfl
  have both : Ring (deletionRun.states 8).links.next 0 [1, 2] := ⟨⟨rfl, rfl, rfl⟩, by decide⟩
  obtain ⟨nodes, forward, backward, isLinked⟩ :=
    backward_links_of_idle keepsContract_deletionRun idle
  refine ⟨idle, nodes, forward, backward, (isLinked 1).mpr ?_, (isLinked 2).mpr ?_⟩
  all_goals exact (linked_iff both).mpr (by decide)

end LaOS.RcuList
