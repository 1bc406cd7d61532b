import Mathlib

/-!
# Accounting for allocated blocks

An allocator that may refuse any request and remembers which blocks are live.  Freeing
a block that is not live is an error.
-/

namespace LaOS.BlockLedger

open List

/-- The live blocks, the name of the next block and the answers to requests. -/
structure Ledger where
  live : Finset Nat
  next : Nat
  grants : Nat → Bool
  requests : Nat
  fresh : ∀ block ∈ live, block < next

theorem fresh_empty : ∀ block ∈ (∅ : Finset Nat), block < 0 := nofun

variable {ledger after : Ledger} {block : Nat} {blocks : List Nat}

def alloc (ledger : Ledger) : Option Nat × Ledger :=
  if ledger.grants ledger.requests then
    (some ledger.next, { ledger with
        live := insert ledger.next ledger.live
        next := ledger.next + 1
        requests := ledger.requests + 1
        fresh := by
          intro block mem
          rcases Finset.mem_insert.mp mem with rfl | mem
          · exact Nat.lt_succ_self _
          · exact Nat.lt_succ_of_lt (ledger.fresh block mem) })
  else (none, { ledger with requests := ledger.requests + 1 })

/-- A block is given back.  Without a result it was not live. -/
def free (ledger : Ledger) (block : Nat) : Option Ledger :=
  if block ∈ ledger.live then
    some { ledger with
      live := ledger.live.erase block
      fresh := fun other mem => ledger.fresh other (Finset.mem_of_mem_erase mem) }
  else none

inductive AllocEffect (ledger : Ledger) : Option Nat × Ledger → Prop
  | granted {after : Ledger} (fresh : ledger.next ∉ ledger.live)
      (live : after.live = insert ledger.next ledger.live) :
      AllocEffect ledger (some ledger.next, after)
  | refused {after : Ledger} (live : after.live = ledger.live) : AllocEffect ledger (none, after)

theorem alloc_effect (ledger : Ledger) : AllocEffect ledger (alloc ledger) := by
  rw [alloc]
  split
  · exact .granted (fun mem => (ledger.fresh _ mem).false) rfl
  · exact .refused rfl

theorem free_of_mem (isLive : block ∈ ledger.live) :
    ∃ after, free ledger block = some after ∧ after.live = ledger.live.erase block := by
  rw [free, if_pos isLive]
  exact ⟨_, rfl, rfl⟩

theorem foldlM_free (distinct : blocks.Nodup) (areLive : ∀ block ∈ blocks, block ∈ ledger.live) :
    ∃ after, blocks.foldlM free ledger = some after ∧
      after.live = ledger.live \ blocks.toFinset := by
  induction blocks generalizing ledger with
  | nil => exact ⟨ledger, rfl, by simp⟩
  | cons block blocks ih =>
    obtain ⟨notIn, distinct⟩ := nodup_cons.mp distinct
    obtain ⟨mid, freed, live⟩ := free_of_mem (areLive block mem_cons_self)
    have stillLive : ∀ other ∈ blocks, other ∈ mid.live := by
      intro other mem
      rw [live, Finset.mem_erase]
      exact ⟨fun same => notIn (same ▸ mem), areLive other (mem_cons_of_mem _ mem)⟩
    obtain ⟨after, others, remaining⟩ := ih distinct stillLive
    refine ⟨after, ?_, ?_⟩
    · rw [foldlM_cons, freed]
      exact others
    rw [remaining, live, toFinset_cons]
    ext other
    simp only [Finset.mem_sdiff, Finset.mem_erase, Finset.mem_insert, mem_toFinset]
    tauto

end LaOS.BlockLedger
