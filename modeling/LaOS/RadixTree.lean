import Mathlib

/-!
# Radix trees stored in a memory

A memory gives each node an entry for every index, and an entry may point to a child
node.  When no node is shared between two paths, a change of one entry affects only
the paths through it.
-/

namespace LaOS.RadixTree

open Option List

variable {Node Index Entry : Type*} (child : Entry → Option Node)

def descend (memory : Node → Index → Entry) (root : Node) (path : List Index) : Option Node :=
  path.foldlM (fun node i => child (memory node i)) root

variable {child} {memory after : Node → Index → Entry} {root node : Node} {path : List Index}
  {i : Index}

@[simp]
theorem descend_nil : descend child memory root [] = some root := rfl

theorem descend_concat : descend child memory root (path ++ [i]) =
      (descend child memory root path).bind fun node => child (memory node i) := by
  simp [descend]

theorem descend_concat_of (reaches : descend child memory root path = some node) :
    descend child memory root (path ++ [i]) = child (memory node i) := by
  rw [descend_concat, reaches, bind_some]

theorem descend_congr (same : ∀ node i, child (after node i) = child (memory node i)) :
    descend child after root path = descend child memory root path := by
  simp [descend, same]

theorem descend_cons : descend child memory root (i :: path) =
      (child (memory root i)).bind fun node => descend child memory node path := by
  simp [descend]

/-- The entries that are read on the way along a path, named by their node and
index. -/
def slots (child : Entry → Option Node) (memory : Node → Index → Entry) :
    Node → List Index → List (Node × Index)
  | _, [] => []
  | node, i :: path =>
    (node, i) :: ((child (memory node i)).map (slots child memory · path)).getD []

theorem mem_slots {slot : Node × Index} : slot ∈ slots child memory root path ↔
      ∃ front, front ++ [slot.2] <+: path ∧ descend child memory root front = some slot.1 := by
  induction path generalizing root with
  | nil => simp [slots]
  | cons i path ih =>
    simp only [slots, mem_cons]
    constructor
    · rintro (rfl | deeper)
      · exact ⟨[], ⟨path, rfl⟩, rfl⟩
      cases points : child (memory root i) with
      | none => simp [points] at deeper
      | some node =>
        simp only [points, map_some, getD_some] at deeper
        obtain ⟨front, begins, reaches⟩ := ih.mp deeper
        refine ⟨i :: front, ?_, ?_⟩
        · simpa using begins
        · rw [descend_cons, points, bind_some, reaches]
    rintro ⟨front, begins, reaches⟩
    cases front with
    | nil =>
      simp only [nil_append, cons_prefix_cons, nil_prefix, and_true] at begins
      exact .inl (Prod.ext (some.inj reaches).symm begins)
    | cons head front =>
      simp only [cons_append, cons_prefix_cons] at begins
      obtain ⟨rfl, begins⟩ := begins
      rw [descend_cons] at reaches
      obtain ⟨node, points, reaches⟩ := bind_eq_some_iff.mp reaches
      refine .inr ?_
      rw [points]
      exact ih.mpr ⟨front, begins, reaches⟩

/-- A part of a tree that contains the beginnings of its paths. -/
def PrefixClosed (inside : List Index → Prop) : Prop :=
  ∀ path i, inside (path ++ [i]) → inside path

def Unshared (child : Entry → Option Node) (inside : List Index → Prop)
    (memory : Node → Index → Entry) (root : Node) : Prop :=
  ∀ left right node, inside left → inside right → descend child memory root left = some node →
    descend child memory root right = some node → left = right

variable {inside : List Index → Prop}

/-- Two memories with the same children, but for the last entry of one path, agree on every path
that avoids this entry. -/
theorem descend_of_agree (closed : PrefixClosed inside) (slot : List Index)
    (agree : ∀ path node i, inside (path ++ [i]) →
      descend child memory root path = some node → path ++ [i] ≠ slot →
      child (after node i) = child (memory node i))
    (isInside : inside path) (avoids : ¬ slot <+: path) :
    descend child after root path = descend child memory root path := by
  induction path using reverseRecOn with
  | nil => rfl
  | append_singleton path i ih =>
    have before := ih (closed path i isInside) fun earlier =>
      avoids (earlier.trans (prefix_append _ _))
    rw [descend_concat, descend_concat, before]
    cases reaches : descend child memory root path with
    | none => rfl
    | some node =>
      exact agree path node i isInside reaches fun same =>
        avoids (same ▸ prefix_rfl)

theorem descend_below (node : Node) (reaches : descend child after root path = some node)
    (blank : ∀ i, child (after node i) = none) {longer : List Index}
    (longerBegins : path <+: longer) (ne : path ≠ longer) :
    descend child after root longer = none := by
  obtain ⟨rest, rfl⟩ := longerBegins
  cases rest with
  | nil => simp at ne
  | cons i rest =>
    simp only [descend, foldlM_append] at reaches ⊢
    rw [reaches]
    simp [blank]

/-- A fresh node without children is attached to an entry that had no child. -/
structure Attached (inside : List Index → Prop) (child : Entry → Option Node)
    (memory after : Node → Index → Entry) (root : Node) (slot : List Index) (fresh : Node) :
    Prop where
  elsewhere : ∀ path, inside path → path ≠ slot →
    descend child after root path = descend child memory root path
  attached : descend child after root slot = some fresh
  vacant : descend child memory root slot = none

theorem attached_of_agree (closed : PrefixClosed inside) {fresh : Node}
    (agree : ∀ other node pos, inside (other ++ [pos]) →
      descend child memory root other = some node → other ++ [pos] ≠ path ++ [i] →
      child (after node pos) = child (memory node pos))
    (isInside : inside path) (reaches : descend child memory root path = some node)
    (vacant : child (memory node i) = none) (attached : child (after node i) = some fresh)
    (blank : ∀ pos, child (after fresh pos) = none) :
    Attached inside child memory after root (path ++ [i]) fresh := by
  have parent : descend child after root path = some node := by
    rw [descend_of_agree closed (path ++ [i]) agree isInside ?_, reaches]
    intro tooLong
    have := tooLong.length_le
    simp only [length_append, length_singleton] at this
    omega
  have atSlot : descend child after root (path ++ [i]) = some fresh := by
    rw [descend_concat_of parent, attached]
  refine ⟨fun other otherInside ne => ?_, atSlot, ?_⟩
  · by_cases below : path ++ [i] <+: other
    · rw [descend_below fresh atSlot blank below ne.symm]
      obtain ⟨rest, rfl⟩ := below
      simp only [descend, foldlM_append, foldlM_cons, foldlM_nil] at reaches ⊢
      rw [reaches]
      simp [vacant]
    · exact descend_of_agree closed (path ++ [i]) agree otherInside below
  · rw [descend_concat_of reaches, vacant]

theorem Attached.unshared {slot : List Index} {fresh : Node}
    (change : Attached inside child memory after root slot fresh)
    (unshared : Unshared child inside memory root)
    (absent : ∀ path, inside path → descend child memory root path ≠ some fresh) :
    Unshared child inside after root := by
  intro left right node leftInside rightInside leftReaches rightReaches
  by_cases leftSlot : left = slot
  · by_cases rightSlot : right = slot
    · rw [leftSlot, rightSlot]
    · rw [leftSlot, change.attached] at leftReaches
      rw [change.elsewhere right rightInside rightSlot, ← leftReaches] at rightReaches
      exact absurd rightReaches (absent right rightInside)
  rw [change.elsewhere left leftInside leftSlot] at leftReaches
  by_cases rightSlot : right = slot
  · rw [rightSlot, change.attached] at rightReaches
    rw [← rightReaches] at leftReaches
    exact absurd leftReaches (absent left leftInside)
  · rw [change.elsewhere right rightInside rightSlot] at rightReaches
    exact unshared left right node leftInside rightInside leftReaches rightReaches

end LaOS.RadixTree
