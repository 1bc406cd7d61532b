import Mathlib

/-!
# Writing from a buffer of the caller

`sys_write` of `arch/x86_64/syscall.c`.  The hole between the user half and the kernel
half passes its check on the buffer.
-/

namespace LaOS.SysWrite

open BitVec List

abbrev Byte : Type := BitVec 8

abbrev Address : Type := BitVec 64

def pageSize : Nat := 4096

/-- `SYS_WRITE_CHUNK`. -/
def chunk : Nat := 256

/-- The bound that `sys_write` compares addresses with. -/
def kernelStart : Address := 0xFFFF800000000000

/-- The addresses of the canonical user half are below. -/
def userEnd : Nat := 0x0000800000000000

/-- What a call does: its result, the addresses of the buffer that are read, and the texts
passed to `kprintf`. -/
structure Call where
  result : Int
  reads : List Address
  printed : List (List Byte)
  deriving DecidableEq

/-- A call that returns without touching the buffer. -/
def Call.quiet (result : Int) : Call := ⟨result, [], []⟩

/-- The loop over the chunks, which moves on by at least one byte each time. -/
def copyLoop (memory : Address → Byte) (buf : Address) (count : Nat) : Nat → Nat → Call
  | 0, _ => .quiet count
  | fuel + 1, off =>
    if off < count then
      let take := min (count - off) (chunk - 1)
      let read := (List.range take).map fun i => buf + BitVec.ofNat 64 (off + i)
      let rest := copyLoop memory buf count fuel (off + take)
      -- `%s` ends at the first zero byte, which may come from the buffer
      ⟨rest.result, read ++ rest.reads, (read.map memory).takeWhile (· ≠ 0) :: rest.printed⟩
    else .quiet count

def sysWrite (memory : Address → Byte) (fd : BitVec 32) (buf count : BitVec 64) : Call :=
  if fd ≠ 1 ∧ fd ≠ 2 then .quiet (-1)
  else if buf ≥ kernelStart then .quiet (-1)
  else if count = 0 then .quiet 0
  else if count.toNat > pageSize then .quiet (-1)
  else if buf + count < buf ∨ buf + count ≥ kernelStart then .quiet (-1)
  else copyLoop memory buf count.toNat count.toNat 0

theorem copyLoop_reads {memory : Address → Byte} {buf : Address} {total fuel off : Nat}
    (enough : total ≤ fuel + off) : (copyLoop memory buf total fuel off).reads =
      (range (total - off)).map fun i => buf + BitVec.ofNat 64 (off + i) := by
  induction fuel generalizing off with
  | zero =>
    rw [Nat.sub_eq_zero_of_le (by omega)]
    rfl
  | succ fuel ih =>
    unfold copyLoop
    by_cases more : off < total
    · simp only [if_pos more]
      generalize ran : min (total - off) (chunk - 1) = take
      have positive : 0 < take := by
        rw [← ran, chunk]
        omega
      have split : total - off = take + (total - (off + take)) := by omega
      rw [ih (by omega), split, range_add, map_append, map_map]
      simp only [Function.comp_def, Nat.add_assoc]
    · rw [if_neg more, Nat.sub_eq_zero_of_le (by omega)]
      rfl

structure Accepted (fd : BitVec 32) (buf count : BitVec 64) : Prop where
  output : fd = 1 ∨ fd = 2
  positive : 0 < count.toNat
  short : count.toNat ≤ pageSize
  below : buf.toNat + count.toNat < kernelStart.toNat

theorem sysWrite_reads (memory : Address → Byte) (fd : BitVec 32) (buf count : BitVec 64) :
    (sysWrite memory fd buf count).reads = [] ∧ ¬ Accepted fd buf count ∨
    (sysWrite memory fd buf count).reads =
      (range count.toNat).map (fun i => buf + BitVec.ofNat 64 i) ∧ Accepted fd buf count := by
  have empty : count = 0 ↔ count.toNat = 0 := toNat_inj.symm
  unfold sysWrite
  simp only [empty, ge_iff_le, le_def, lt_def, toNat_add]
  split_ifs with closed high zero long outside
  · exact .inl ⟨rfl, fun accepted => by have := accepted.output; tauto⟩
  · exact .inl ⟨rfl, fun accepted => by have := accepted.below; omega⟩
  · exact .inl ⟨rfl, fun accepted => by have := accepted.positive; omega⟩
  · exact .inl ⟨rfl, fun accepted => by have := accepted.short; omega⟩
  · -- the sum is below 2 ^ 64, so only the second comparison can hold
    exact .inl ⟨rfl, fun accepted => by have := accepted.below; omega⟩
  · rw [Nat.mod_eq_of_lt (by omega)] at outside
    refine .inr ⟨?_, by tauto, by omega, by omega, by omega⟩
    rw [copyLoop_reads (by omega)]
    simp only [Nat.sub_zero, Nat.zero_add]

/-- A call reads only from the user half, and nothing unless the whole buffer is in it, exactly
when a check refuses it or the buffer ends in the user half. -/
theorem sysWrite_reads_user_half_iff (memory : Address → Byte) (fd : BitVec 32)
    (buf count : BitVec 64) :
    ((∀ address ∈ (sysWrite memory fd buf count).reads, address.toNat < userEnd) ∧
      ((sysWrite memory fd buf count).reads ≠ [] → ∀ i < count.toNat, buf.toNat + i < userEnd)) ↔
    (fd ≠ 1 ∧ fd ≠ 2) ∨ count = 0 ∨ pageSize < count.toNat ∨
      buf.toNat + count.toNat ≤ userEnd ∨ kernelStart.toNat ≤ buf.toNat + count.toNat := by
  have empty : count = 0 ↔ count.toNat = 0 := toNat_inj.symm
  rcases sysWrite_reads memory fd buf count with ⟨nothing, refused⟩ | ⟨all, accepted⟩
  · rw [nothing]
    refine iff_of_true ⟨nofun, fun some => absurd rfl some⟩ ?_
    by_contra passes
    refine refused ⟨by tauto, ?_, by omega, by omega⟩
    rw [empty] at passes
    omega
  obtain ⟨output, positive, short, below⟩ := accepted
  have some : (range count.toNat).map (fun i => buf + BitVec.ofNat 64 i) ≠ [] := by
    rw [ne_eq, map_eq_nil_iff, range_eq_nil]
    omega
  rw [all]
  constructor
  · rintro ⟨-, inside⟩
    have last := inside some (count.toNat - 1) (by omega)
    exact .inr (.inr (.inr (.inl (by omega))))
  · intro condition
    have fits : buf.toNat + count.toNat ≤ userEnd := by
      rw [empty] at condition
      rcases condition with closed | condition
      · tauto
      · omega
    refine ⟨fun address isRead => ?_, fun _ i inside => by omega⟩
    obtain ⟨i, inside, rfl⟩ := mem_map.mp isRead
    rw [mem_range] at inside
    rw [toNat_add, toNat_ofNat, Nat.mod_eq_of_lt (by omega : i < 2 ^ 64),
      Nat.mod_eq_of_lt (by omega)]
    omega

/-- One byte at the first address that is not canonical. -/
theorem sysWrite_reads_hole :
    (sysWrite (fun _ => 0x41) 1 0x0000800000000000 1).reads = [0x0000800000000000] ∧
      ¬ (0x0000800000000000 : Address).toNat < userEnd := by
  decide

end LaOS.SysWrite
