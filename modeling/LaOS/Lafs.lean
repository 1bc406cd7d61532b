import Mathlib

/-!
# The LaFS image

Sectors, the superblock and inodes as `lafs.c` reads them.  `read_inode_raw` answers
with a place in the one sector buffer, so later reads replace the inode behind it.
-/

namespace LaOS.Lafs

open List

abbrev Byte : Type := BitVec 8

/-- The contents of a sector, or of `g_sec`. -/
abbrev Sector : Type := Nat → Byte

/-- `block_read` of one sector; nothing when it fails. -/
abbrev Disk : Type := Nat → Option Sector

def bytes (sector : Sector) : List Byte := (List.range 512).map sector

def rd32 (sector : Sector) (offset : Nat) : Nat :=
  (sector offset).toNat + 256 * (sector (offset + 1)).toNat +
    65536 * (sector (offset + 2)).toNat + 16777216 * (sector (offset + 3)).toNat

/-- `LAFS_BLOCKS_MAX`. -/
def blocksMax : Nat := 20

/-- `LAFS_INODE_SIZE`. -/
def inodeSize : BitVec 32 := 128

structure Fs where
  inodeCount : Nat
  inodeStart : Nat
  dataStart : Nat
  deriving DecidableEq

def lafsMount (disk : Disk) : Option Fs :=
  match disk 0 with
  | none => none
  | some superblock =>
    if rd32 superblock 0 = 0x5346614C then
      some ⟨rd32 superblock 5, rd32 superblock 9, rd32 superblock 13⟩
    else none

/-- `read_inode_raw`: the new contents of `g_sec`, and where the inode is in it. -/
def readInodeRaw (disk : Disk) (fs : Fs) (ino : BitVec 32) : Option (Sector × Nat) :=
  if ino.toNat ≥ fs.inodeCount then none
  else
    let byteOff := (ino * inodeSize).toNat
    match disk ((fs.inodeStart + byteOff / 512) % 2 ^ 32) with
    | none => none
    | some sector => some (sector, byteOff % 512)

/-- The type of the inode at a place of a sector: 1 for a file, 2 for a directory. -/
def typeAt (sector : Sector) (place : Nat) : Nat := (sector place).toNat

def sizeAt (sector : Sector) (place : Nat) : Nat := rd32 sector (place + 33)

def pointerAt (sector : Sector) (place block : Nat) : Nat := rd32 sector (place + (37 + block * 4))

section Image

variable (img : Nat → Sector) (fs : Fs)

def readable : Disk := fun sector => some (img sector)

/-- The sector of the inode table that an inode is in. -/
def inodeSector (ino : Nat) : Sector := img (fs.inodeStart + ino / 4)

def inodePlace (ino : Nat) : Nat := ino % 4 * 128

def inodeType (ino : Nat) : Nat := typeAt (inodeSector img fs ino) (inodePlace ino)

def inodeLength (ino : Nat) : Nat := sizeAt (inodeSector img fs ino) (inodePlace ino)

def blockPointer (ino block : Nat) : Nat :=
  pointerAt (inodeSector img fs ino) (inodePlace ino) block

def blockBytes (ino : Nat) : List Byte :=
  (List.range blocksMax).flatMap fun block => bytes (img (blockPointer img fs ino block))

/-- An inode of the given type whose size fits its blocks, with a pointer for every block in
use. -/
structure WellFormed (type ino : Nat) : Prop where
  counted : ino < fs.inodeCount
  addressable : fs.inodeStart + ino / 4 < 2 ^ 32
  typed : inodeType img fs ino = type
  length : inodeLength img fs ino ≤ blocksMax * 512
  pointers : ∀ block, block * 512 < inodeLength img fs ino →
    blockPointer img fs ino block ≠ 0

/-- The sectors that the loops over blocks reach from a sector in `g_sec`: the next pointer is
taken from the sector read last. -/
def follow (place : Nat) (gSec : Sector) : Nat → List Sector
  | 0 => []
  | left + 1 =>
    let next := pointerAt gSec place (blocksMax - (left + 1))
    if next = 0 then [] else img next :: follow place (img next) left

end Image

variable {img : Nat → Sector} {fs : Fs}

theorem length_bytes {sector : Sector} : (bytes sector).length = 512 := by
  unfold bytes
  rw [length_map, length_range]

theorem length_flatMap_bytes {sectors : List Sector} :
    (sectors.flatMap bytes).length = sectors.length * 512 := by
  induction sectors with
  | nil => rfl
  | cons sector sectors ih =>
    rw [flatMap_cons, length_append, length_bytes, length_cons]
    omega

theorem length_blockBytes {ino : Nat} : (blockBytes img fs ino).length = blocksMax * 512 := by
  have asSectors : blockBytes img fs ino = ((range blocksMax).map fun block =>
      img (blockPointer img fs ino block)).flatMap bytes := by
    rfl
  rw [asSectors, length_flatMap_bytes, length_map, length_range]

theorem inodePlace_mod (ino : Nat) : inodePlace (ino % 2 ^ 25) = inodePlace ino := by
  unfold inodePlace
  omega

/-- The product of the inode number and the size wraps, so that the number counts modulo
`2 ^ 25`. -/
theorem readInodeRaw_eq (img : Nat → Sector) {ino : BitVec 32}
    (counted : ino.toNat < fs.inodeCount) (addressable : fs.inodeStart + ino.toNat / 4 < 2 ^ 32) :
    readInodeRaw (readable img) fs ino =
      some (inodeSector img fs (ino.toNat % 2 ^ 25), inodePlace ino.toNat) := by
  have offset : (ino * inodeSize).toNat = ino.toNat * 128 % 2 ^ 32 := BitVec.toNat_mul ..
  have sector : (fs.inodeStart + ino.toNat * 128 % 2 ^ 32 / 512) % 2 ^ 32 =
      fs.inodeStart + ino.toNat % 2 ^ 25 / 4 := by omega
  have place : ino.toNat * 128 % 2 ^ 32 % 512 = inodePlace ino.toNat := by
    unfold inodePlace
    omega
  simp only [readInodeRaw, if_neg (Nat.not_le.mpr counted), offset, sector, place, readable,
    inodeSector]

end LaOS.Lafs
