import LaOS.RadixTree

/-!
# Traversing a radix tree

A traversal visits the nodes of a tree down to a depth, the children of a node
before the node itself, and each path once.
-/

namespace LaOS.RadixTree

open List

variable {Node Index Entry State Error : Type*} (next : Entry → Option Node)
  (indices : Nat → List Index) (memory : Node → Index → Entry)

/-- The nodes below a node down to a depth, with their paths, in the order of the traversal. The
entries that are read depend on the distance from the lowest level. -/
def below : Nat → Node → List (List Index × Node)
  | 0, node => [([], node)]
  | depth + 1, node =>
    ((indices (depth + 1)).flatMap fun i =>
      match next (memory node i) with
      | none => []
      | some child => (below depth child).map fun item => (i :: item.1, item.2)) ++
      [([], node)]

def Followed : Nat → List Index → Prop
  | _, [] => True
  | 0, _ :: _ => False
  | depth + 1, i :: path => i ∈ indices (depth + 1) ∧ Followed depth path

variable {next indices memory} {depth : Nat} {node other : Node} {path : List Index}

theorem mem_below : (path, other) ∈ below next indices memory depth node ↔
      Followed indices depth path ∧ descend next memory node path = some other := by
  induction depth generalizing node path with
  | zero =>
    cases path with
    | nil => simp [below, Followed, eq_comm]
    | cons i path => simp [below, Followed]
  | succ depth ih =>
    simp only [below, mem_append, mem_flatMap, mem_singleton, Prod.mk.injEq]
    cases path with
    | nil =>
      simp only [Followed, descend_nil, Option.some.injEq, true_and]
      constructor
      · rintro (⟨i, _, mem⟩ | same)
        · split at mem
          · cases mem
          · simp at mem
        · exact same.symm
      · exact fun same => .inr same.symm
    | cons i path =>
      simp only [Followed, descend_cons, reduceCtorEq, false_and, or_false]
      constructor
      · rintro ⟨pos, isIndex, mem⟩
        split at mem
        · cases mem
        next child points =>
        simp only [mem_map, Prod.mk.injEq, cons.injEq] at mem
        obtain ⟨⟨rest, last⟩, deeper, ⟨rfl, rfl⟩, rfl⟩ := mem
        obtain ⟨followed, reaches⟩ := ih.mp deeper
        exact ⟨⟨isIndex, followed⟩, by rw [points, Option.bind_some, reaches]⟩
      · rintro ⟨⟨isIndex, followed⟩, reaches⟩
        obtain ⟨child, points, deeper⟩ := Option.bind_eq_some_iff.mp reaches
        refine ⟨i, isIndex, ?_⟩
        rw [points]
        exact mem_map.mpr ⟨(path, other), ih.mpr ⟨followed, deeper⟩, rfl⟩

theorem nodup_below (distinct : ∀ depth, (indices depth).Nodup) :
    ((below next indices memory depth node).map Prod.fst).Nodup := by
  induction depth generalizing node with
  | zero => simp [below]
  | succ depth ih =>
    simp only [below, map_append, map_flatMap, map_cons, map_nil]
    rw [nodup_append]
    refine ⟨?_, by simp, ?_⟩
    · rw [nodup_flatMap]
      constructor
      · intro i _
        split
        · exact nodup_nil
        next child _ =>
        have injective : Function.Injective (cons i) := fun _ _ same =>
          (cons.inj same).2
        have mapped := (@ih child).map injective
        rw [map_map] at mapped ⊢
        exact mapped
      refine (distinct (depth + 1)).imp fun {first second} ne => ?_
      simp only [Function.onFun, disjoint_left]
      intro path inFirst inSecond
      split at inFirst
      · cases inFirst
      split at inSecond
      · cases inSecond
      simp only [map_map, mem_map] at inFirst inSecond
      obtain ⟨_, _, rfl⟩ := inFirst
      obtain ⟨_, _, same⟩ := inSecond
      exact ne (cons.inj same).1.symm
    · intro path inner last isLast same
      simp only [mem_singleton] at isLast
      subst isLast same
      simp only [mem_flatMap] at inner
      obtain ⟨i, _, mem⟩ := inner
      split at mem
      · cases mem
      · simp at mem

variable (visit : State → Node → Except Error State)

def traverse (next : Entry → Option Node) (indices : Nat → List Index)
    (memory : Node → Index → Entry) : Nat → Node → State → Except Error State
  | 0, node, s => visit s node
  | depth + 1, node, s => do
      let s ← (indices (depth + 1)).foldlM
        (fun s i =>
          match next (memory node i) with
          | none => .ok s
          | some child => traverse next indices memory depth child s) s
      visit s node

variable {Item : Type*} {each : State → Item → Except Error State}

theorem foldlM_flatMap {Part : Type*} {parts : Item → List Part}
    {one : State → Part → Except Error State}
    (agrees : ∀ s item, each s item = (parts item).foldlM one s) (items : List Item)
    (s : State) : items.foldlM each s = (items.flatMap parts).foldlM one s := by
  induction items generalizing s with
  | nil => rfl
  | cons item items ih =>
    rw [foldlM_cons, flatMap_cons, foldlM_append, agrees]
    exact congrArg _ (funext ih)

theorem traverse_eq (s : State) : traverse visit next indices memory depth node s =
      ((below next indices memory depth node).map Prod.snd).foldlM visit s := by
  induction depth generalizing node s with
  | zero =>
    simp only [traverse, below, map_cons, map_nil, foldlM_cons, foldlM_nil]
    cases visit s node with
    | error reason => rfl
    | ok last => rfl
  | succ depth ih =>
    simp only [traverse, below, map_append, foldlM_append, map_flatMap, map_cons, map_nil]
    rw [foldlM_flatMap ?_]
    · congr 1
      funext last
      simp only [foldlM_cons, foldlM_nil]
      cases visit last node with
      | error reason => rfl
      | ok last => rfl
    · intro s i
      cases next (memory node i) with
      | none => rfl
      | some child =>
        simp only [ih, map_map]
        rfl

variable {invariant : State → Prop} {items : List Item}

theorem foldlM_congr_of_invariant {first second : State → Item → Except Error State}
    (agrees : ∀ s item, invariant s → item ∈ items → first s item = second s item)
    (keeps : ∀ s item after, invariant s → second s item = .ok after → invariant after)
    {s : State} (holds : invariant s) :
    items.foldlM first s = items.foldlM second s := by
  induction items generalizing s with
  | nil => rfl
  | cons item items ih =>
    rw [foldlM_cons, foldlM_cons, agrees s item holds mem_cons_self]
    cases stepped : second s item with
    | error reason => rfl
    | ok after =>
      exact ih (fun s item holds mem => agrees s item holds
        (mem_cons_of_mem _ mem)) (keeps s item after holds stepped)

theorem foldlM_invariant
    (keeps : ∀ s item after, invariant s → each s item = .ok after → invariant after)
    {s last : State} (holds : invariant s) (ran : items.foldlM each s = .ok last) :
    invariant last := by
  induction items generalizing s with
  | nil =>
    cases ran
    exact holds
  | cons item items ih =>
    rw [foldlM_cons] at ran
    cases stepped : each s item with
    | error reason =>
      rw [stepped] at ran
      cases ran
    | ok after =>
      rw [stepped] at ran
      exact ih (keeps s item after holds stepped) ran

end LaOS.RadixTree
