import LaOS.Lafs
import LaOS.PathParts

/-!
# Path resolution

`dir_lookup` and `lafs_open`.  The blocks of a directory are searched to their end
through the buffer that the inode was read into.
-/

namespace LaOS.Lafs

open BitVec List

def nameAt (sector : Sector) (pos : Nat) : List Byte :=
  (List.range (sector (pos + 4)).toNat).map fun i => sector (pos + 5 + i)

/-- `(int)` of an inode number. -/
def asInt (ino : Nat) : Int := if ino < 2 ^ 31 then ino else ino - 2 ^ 32

def slash : Byte := 0x2F

structure DirEntry where
  pos : Nat
  ino : Nat
  name : List Byte

def entriesFrom (sector : Sector) : Nat → Nat → List DirEntry
  | 0, _ => []
  | fuel + 1, pos =>
    if pos + 5 ≤ 512 ∧ rd32 sector pos ≠ 0 ∧ (sector (pos + 4)).toNat ≠ 0 ∧
        pos + 5 + (sector (pos + 4)).toNat ≤ 512 then
      ⟨pos, rd32 sector pos, nameAt sector pos⟩ ::
        entriesFrom sector fuel (pos + (5 + (sector (pos + 4)).toNat))
    else []

/-- The entries of a block: up to a zero entry, or the end. -/
def entries (sector : Sector) : List DirEntry := entriesFrom sector 512 0

variable {sector : Sector} {fuel : Nat}

section Image

variable (img : Nat → Sector) (fs : Fs)

/-- The entries of a directory: those of its blocks that lie within its size. -/
def dirEntries (ino : Nat) : List DirEntry :=
  (List.range blocksMax).flatMap fun block =>
    (entries (img (blockPointer img fs ino block))).filter fun entry =>
      block * 512 + entry.pos + 5 + entry.name.length ≤ inodeLength img fs ino

def lookup (ino : Nat) (name : List Byte) : Option Nat :=
  if ino < fs.inodeCount ∧ inodeType img fs ino = 2 then
    ((dirEntries img fs ino).find? (·.name = name)).map DirEntry.ino
  else none

end Image

def walk (search : Nat → List Byte → Option Nat) : Nat → List (List Byte) → Option Nat
  | ino, [] => some ino
  | ino, name :: names => (search ino name).bind fun next => walk search next names

/-- The components of a path: what is between slashes and not empty. -/
def components (path : List Byte) : List (List Byte) :=
  (path.splitOn slash).filter (· ≠ [])

variable {img : Nat → Sector} {fs : Fs} {name : List Byte}

variable {path : List Byte}

section Walks

variable {search other : Nat → List Byte → Option Nat} {names before : List (List Byte)}

end Walks

section Directory

variable (img : Nat → Sector) (fs : Fs)

variable {img fs} {dir : Nat}

end Directory

end LaOS.Lafs
