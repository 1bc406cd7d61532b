import LaOS.ByteBuffer

/-!
# Reading CPIO archives

An embedding of `kernel/cpio.c`.  Names and data of an entry are given by their
offsets in the archive.  Sums of offsets are computed with 64 bits in the source and
do not overflow.
-/

namespace LaOS.Cpio

open WordBytes ByteBuffer

structure View where
  address : BitVec 64
  bytes : List Byte

/-- A range of memory whose size is a `uint32_t`. -/
structure Archive extends View where
  fits : bytes.length < 2 ^ 32

def View.size (view : View) : Nat := view.bytes.length

def uintptrMax : Nat := 2 ^ 64 - 1

def cpioHdrLen : Nat := 110

/-- The text `070701`. -/
def magic : List Byte := [0x30, 0x37, 0x30, 0x37, 0x30, 0x31]

/-- The text `TRAILER!!!` with the byte that ends it. -/
def trailerName : List Byte :=
  [0x54, 0x52, 0x41, 0x49, 0x4c, 0x45, 0x52, 0x21, 0x21, 0x21, 0x00]

def digitOf (c : Byte) : Option (BitVec 32) :=
  if 0x30 ≤ c ∧ c ≤ 0x39 then some (c.setWidth 32 - 0x30)
  else if 0x61 ≤ c ∧ c ≤ 0x66 then some (c.setWidth 32 - 0x61 + 10)
  else if 0x41 ≤ c ∧ c ≤ 0x46 then some (c.setWidth 32 - 0x41 + 10)
  else none

/-- The loop of `hex32` with the given number of characters left. -/
def hexLoop (bytes : List Byte) : Nat → Nat → BitVec 32 → Except Fault (Option (BitVec 32))
  | 0, _, value => .ok (some value)
  | count + 1, i, value => do
      let c ← load bytes i
      match digitOf c with
      | none => .ok none
      | some digit => hexLoop bytes count (i + 1) (value <<< 4 ||| digit)

def hex32 (bytes : List Byte) (i : Nat) : Except Fault (Option (BitVec 32)) :=
  hexLoop bytes 8 i 0

structure Entry where
  name : Nat
  data : Nat
  size : Nat
  mode : BitVec 32

structure Reader where
  archive : Archive
  offset : Nat
  finished : Bool

def cpioReaderInit (archive : Archive) : Except Fault (Option Reader) :=
  if archive.address = 0 ∨ archive.address.toNat > uintptrMax - archive.size ∨
      archive.size < cpioHdrLen + 1 then .ok none
  else do
    let isMagic ← loadsText archive.bytes 0 magic
    .ok (if isMagic then some ⟨archive, 0, false⟩ else none)

/-- The results 1, 0 and -1 of `cpio_reader_next`. -/
inductive Next
  | entry (entry : Entry)
  | done
  | bad

def pad4 (n : Nat) : Nat := (n + 3) / 4 * 4

/-- `cpio_reader_next` after the fields of the header have been read. -/
def readRecord (reader : Reader) (nameSize fileSize : Nat) (mode : BitVec 32) :
    Except Fault (Next × Reader) :=
  let size := reader.archive.size
  let bytes := reader.archive.bytes
  let nameStart := reader.offset + cpioHdrLen
  if nameSize > size - nameStart then .ok (.bad, reader)
  else do
    let last ← load bytes (nameStart + (nameSize - 1))
    if last ≠ 0 then .ok (.bad, reader)
    else
      let interior ← loadsZero bytes nameStart (nameSize - 1)
      if interior then .ok (.bad, reader)
      else
        let dataStart := pad4 (nameStart + nameSize)
        if dataStart > size ∨ fileSize > size - dataStart then .ok (.bad, reader)
        else
          let next := pad4 (dataStart + fileSize)
          if next > size then .ok (.bad, reader)
          else
            let isTrailer ←
              if nameSize = 11 then loadsText bytes nameStart trailerName else .ok false
            if isTrailer then
              .ok (if fileSize ≠ 0 then (.bad, reader) else (.done, { reader with finished := true }))
            else
              .ok (.entry ⟨nameStart, dataStart, fileSize, mode⟩,
                { reader with offset := next % 2 ^ 32 })

def cpioReaderNext (reader : Reader) : Except Fault (Next × Reader) :=
  if reader.archive.address = 0 then .ok (.bad, reader)
  else if reader.finished then .ok (.done, reader)
  else if reader.offset > reader.archive.size ∨
      reader.archive.size - reader.offset < cpioHdrLen then .ok (.bad, reader)
  else do
    let bytes := reader.archive.bytes
    let isMagic ← loadsText bytes reader.offset magic
    if !isMagic then .ok (.bad, reader)
    else
      match ← hex32 bytes (reader.offset + 94) with
      | none => .ok (.bad, reader)
      | some nameSize =>
        match ← hex32 bytes (reader.offset + 54) with
        | none => .ok (.bad, reader)
        | some fileSize =>
          match ← hex32 bytes (reader.offset + 14) with
          | none => .ok (.bad, reader)
          | some mode =>
            if nameSize = 0 then .ok (.bad, reader)
            else readRecord reader nameSize.toNat fileSize.toNat mode

/-- The results of a number of calls of `cpio_reader_next` and the reader after
them. -/
def calls : Nat → Reader → Except Fault (List Next × Reader)
  | 0, reader => .ok ([], reader)
  | count + 1, reader => do
      let (result, after) ← cpioReaderNext reader
      let (results, last) ← calls count after
      .ok (result :: results, last)

end LaOS.Cpio
