import Mathlib

/-!
# Parts between separators

The parts of a list are what is between separators and not empty.  A loop that skips
separators, or takes what comes before the next one, meets the parts in turn.
-/

namespace LaOS.PathParts

open List

variable {α : Type*} [DecidableEq α] {sep : α} {path : List α}

def parts (sep : α) (path : List α) : List (List α) := (path.splitOn sep).filter (· ≠ [])

theorem parts_sep (path : List α) : parts sep (sep :: path) = parts sep path := by
  unfold parts
  rw [splitOn_cons_eq_if_modifyHead, if_pos (beq_self_eq_true sep)]
  rfl

theorem parts_dropWhile : parts sep (path.dropWhile (· = sep)) = parts sep path := by
  induction path with
  | nil => rfl
  | cons item path ih =>
    by_cases isSep : item = sep
    · rw [dropWhile_cons_of_pos (by simpa using isSep), ih, isSep, parts_sep]
    · rw [dropWhile_cons_of_neg (by simpa using isSep)]

theorem head_dropWhile {first : α} {rest : List α}
    (dropped : path.dropWhile (· ≠ sep) = first :: rest) : first = sep := by
  have stops := head?_dropWhile_not (fun item : α => decide (item ≠ sep)) path
  rw [dropped] at stops
  have isSep : decide (first ≠ sep) = false := stops
  rwa [decide_eq_false_iff_not, not_not] at isSep

theorem parts_takeWhile (named : path.takeWhile (· ≠ sep) ≠ []) :
    parts sep path = path.takeWhile (· ≠ sep) :: parts sep (path.dropWhile (· ≠ sep)) := by
  have noSep : ∀ item ∈ path.takeWhile (· ≠ sep), (item == sep) = false := by
    intro item isIn
    have notSep := all_eq_true.mp all_takeWhile item isIn
    rw [decide_eq_true_eq] at notSep
    exact beq_eq_false_iff_ne.mpr notSep
  have split : path.takeWhile (· ≠ sep) ++ path.dropWhile (· ≠ sep) = path :=
    takeWhile_append_dropWhile
  generalize path.takeWhile (· ≠ sep) = name at named noSep split ⊢
  cases dropped : path.dropWhile (· ≠ sep) with
  | nil =>
    rw [dropped, append_nil] at split
    rw [← split]
    unfold parts
    rw [splitOn_eq_splitOnP, splitOnP_eq_singleton noSep, filter_cons_of_pos (by simpa using named)]
    rfl
  | cons first rest =>
    rw [dropped] at split
    rw [← split, head_dropWhile dropped, parts_sep]
    unfold parts
    rw [splitOn_eq_splitOnP, splitOnP_append_cons_of_forall_mem noSep _ (beq_self_eq_true sep),
      filter_cons_of_pos (by simpa using named), splitOn_eq_splitOnP]

theorem mem_splitOn {part : List α} (member : part ∈ path.splitOn sep) :
    sep ∉ part ∧ ∀ c ∈ part, c ∈ path := by
  induction path generalizing part with
  | nil =>
    rw [splitOn_nil, mem_singleton] at member
    simp [member]
  | cons c path ih =>
    rw [splitOn_cons_eq_if_modifyHead] at member
    split at member
    next =>
      rcases mem_cons.mp member with rfl | member
      · simp
      · exact ⟨(ih member).1, fun d inPart => mem_cons_of_mem _ ((ih member).2 d inPart)⟩
    next notSeparator =>
      cases parts : path.splitOn sep with
      | nil => exact absurd parts (splitOn_ne_nil _ _)
      | cons first others =>
        rw [parts] at member
        rcases mem_cons.mp member with rfl | member
        · obtain ⟨noSeparator, inText⟩ := ih (parts ▸ mem_cons_self)
          have ne : sep ≠ c := fun same => notSeparator (by simp [same])
          refine ⟨by simp [ne, noSeparator], fun d inPart => ?_⟩
          rcases mem_cons.mp inPart with rfl | inPart
          · exact mem_cons_self
          · exact mem_cons_of_mem _ (inText d inPart)
        · obtain ⟨noSeparator, inText⟩ := ih (parts ▸ mem_cons_of_mem _ member)
          exact ⟨noSeparator, fun d inPart => mem_cons_of_mem _ (inText d inPart)⟩

omit [DecidableEq α] in
theorem cons_intercalate {names : List (List α)} (nonempty : names ≠ []) :
    sep :: [sep].intercalate names = names.flatMap (sep :: ·) := by
  induction names with
  | nil => exact absurd rfl nonempty
  | cons name names ih =>
    cases names with
    | nil => simp
    | cons next names =>
      rw [intercalate_cons_cons, flatMap_cons, ← ih (by simp)]
      simp

theorem parts_flatMap {names : List (List α)} (clean : ∀ name ∈ names, name ≠ [] ∧ sep ∉ name) :
    parts sep (names.flatMap (sep :: ·)) = names := by
  cases names with
  | nil => rfl
  | cons name names =>
    have starts : (name :: names).flatMap (sep :: ·) = [sep].intercalate ([] :: name :: names) := by
      rw [← cons_intercalate (cons_ne_nil _ _)]
      rfl
    have noSep : ∀ part ∈ [] :: name :: names, sep ∉ part :=
      forall_mem_cons.mpr ⟨not_mem_nil, fun part isIn => (clean part isIn).2⟩
    unfold parts
    rw [starts, splitOn_intercalate sep noSep (cons_ne_nil _ _)]
    exact filter_eq_self.mpr fun part isIn => decide_eq_true (clean part isIn).1

end LaOS.PathParts
