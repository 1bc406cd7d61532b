import LaOS.WordBytes

/-!
# Reading buffers with explicit bounds

The loops that programs written in C use to read buffers, with the same order of
reads.  A read outside of the buffer is a fault.
-/

namespace LaOS.ByteBuffer

open List WordBytes

inductive Fault
  | outOfBounds
  | outOfFuel
  deriving DecidableEq

def load (buffer : List Byte) (i : Nat) : Except Fault Byte :=
  if inside : i < buffer.length then .ok buffer[i] else .error .outOfBounds

/-- Whether the bytes from an index on begin with a text; as in `memcmp`, the first different
byte ends the comparison. -/
def loadsText (buffer : List Byte) : Nat → List Byte → Except Fault Bool
  | _, [] => .ok true
  | i, expected :: text => do
      let byte ← load buffer i
      if byte ≠ expected then .ok false else loadsText buffer (i + 1) text

/-- Whether one of the given number of bytes from an index on is zero.  The first
such byte ends the search. -/
def loadsZero (buffer : List Byte) : Nat → Nat → Except Fault Bool
  | _, 0 => .ok false
  | i, count + 1 => do
      let byte ← load buffer i
      if byte = 0 then .ok true else loadsZero buffer (i + 1) count

/-- The bytes from an index on up to the next zero, which ends a string in C. -/
def loadString : List Byte → Except Fault (List Byte)
  | [] => .error .outOfBounds
  | byte :: rest => if byte = 0 then .ok [] else (loadString rest).map (byte :: ·)

def slice (buffer : List Byte) (i count : Nat) : List Byte := (buffer.drop i).take count

variable {buffer front rest text : List Byte} {i count : Nat} {byte : Byte}

theorem load_of_lt (inside : i < buffer.length) : load buffer i = .ok buffer[i] :=
  dif_pos inside

@[simp]
theorem slice_zero : slice buffer i 0 = [] := by
  simp [slice]

theorem length_slice (inside : i + count ≤ buffer.length) :
    (slice buffer i count).length = count := by
  simp only [slice, length_take, length_drop]
  omega

theorem slice_succ (inside : i < buffer.length) :
    slice buffer i (count + 1) = buffer[i] :: slice buffer (i + 1) count := by
  rw [slice, slice, drop_eq_getElem_cons inside, take_succ_cons]

theorem slice_append : slice (front ++ rest) (front.length + i) count =
    slice rest i count := by
  simp only [slice, drop_append, Nat.add_sub_cancel_left]
  rw [drop_eq_nil_of_le (by omega), nil_append]

theorem slice_append_left (inside : i + count ≤ front.length) :
    slice (front ++ rest) i count = slice front i count := by
  rw [slice, slice, drop_append_of_le_length (by omega), take_append_of_le_length]
  rw [length_drop]
  omega

theorem slice_of_append (starts : front.length = i) (long : text.length = count) :
    slice (front ++ (text ++ rest)) i count = text := by
  rw [← starts]
  rw [← long]
  simp [slice]

theorem loadsText_eq (inside : i + text.length ≤ buffer.length) :
    loadsText buffer i text = .ok (decide (slice buffer i text.length = text)) := by
  induction text generalizing i with
  | nil => simp [loadsText]
  | cons expected text ih =>
    simp only [length_cons] at inside
    have first : i < buffer.length := by omega
    simp only [loadsText, load_of_lt first, length_cons, slice_succ first]
    change (if _ then _ else _) = _
    by_cases same : buffer[i] = expected
    · rw [ih (by omega), same]
      simp
    · rw [if_pos same]
      simp [same]

theorem loadsZero_eq (inside : i + count ≤ buffer.length) :
    loadsZero buffer i count = .ok (decide ((0 : Byte) ∈ slice buffer i count)) := by
  induction count generalizing i with
  | zero => simp [loadsZero]
  | succ count ih =>
    have first : i < buffer.length := by omega
    simp only [loadsZero, load_of_lt first, slice_succ first, mem_cons]
    change (if _ then _ else _) = _
    by_cases zero : buffer[i] = 0
    · rw [if_pos zero]
      simp [zero]
    · have other : ¬ (0 : Byte) = buffer[i] := fun same => zero same.symm
      rw [if_neg zero, ih (by omega)]
      simp only [other, false_or]

theorem loadString_append (noZero : (0 : Byte) ∉ text) :
    loadString (text ++ 0 :: rest) = .ok text := by
  induction text with
  | nil => simp [loadString]
  | cons byte text ih =>
    simp only [mem_cons, not_or] at noZero
    simp only [cons_append, loadString, if_neg (Ne.symm noZero.1), ih noZero.2]
    rfl

theorem slice_concat (next : buffer[i + count]? = some byte) :
    slice buffer i (count + 1) = slice buffer i count ++ [byte] := by
  rw [slice, take_add_one, getElem?_drop, next]
  rfl

theorem drop_eq_slice_append (ends : buffer[i + count]? = some 0) : buffer.drop i =
      slice buffer i count ++ (0 : Byte) :: buffer.drop (i + count + 1) := by
  obtain ⟨inside, isZero⟩ := List.getElem?_eq_some_iff.mp ends
  have rest : buffer.drop (i + count) = 0 :: buffer.drop (i + count + 1) := by
    rw [drop_eq_getElem_cons inside, isZero]
  rw [← rest, slice, ← drop_drop, take_append_drop]

end LaOS.ByteBuffer
