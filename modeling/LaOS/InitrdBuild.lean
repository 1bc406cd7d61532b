import LaOS.CpioReader
import LaOS.Utf8

/-!
# Writing the initial archive

An embedding of `script/mkcpio.py` and of the part of `script/build_initrd.py` that
writes the archive.  An exception is the absence of a result.
-/

namespace LaOS.Initrd

open WordBytes Cpio Utf8

/-- A digit as it is written by the format `X`. -/
def upperDigit (digit : Nat) : Byte :=
  BitVec.ofNat 8 (if digit < 10 then 0x30 + digit else 0x41 + (digit - 10))

/-- A number in the format `08X`. -/
def hexField (n : Nat) : List Byte :=
  let digits := Nat.digits 16 n
  List.replicate (8 - digits.length) (upperDigit 0) ++ (digits.reverse.map upperDigit)

/-- `newc_header`, for a name whose encoding has the given length. -/
def newcHeader (nameLength size mtime ino : Nat) : Option (List Byte) :=
  let header := magic ++ hexField ino ++ hexField 0o100644 ++ hexField 0 ++ hexField 0 ++
    hexField 1 ++ hexField mtime ++ hexField size ++ hexField 0 ++ hexField 0 ++ hexField 0 ++
    hexField 0 ++ hexField (nameLength + 1) ++ hexField 0
  if header.length = 110 then some header else none

def writeEntry (name : List Char) (data : List Byte) (mtime ino : Nat) : Option (List Byte) := do
  let header ← newcHeader (encode name).length data.length mtime ino
  let named := header ++ encode name ++ [0]
  let namePad := pad4 named.length - named.length
  let dataPad := pad4 data.length - data.length
  some (named ++ List.replicate namePad 0 ++ data ++ List.replicate dataPad 0)

def writeTrailer (mtime ino : Nat) : Option (List Byte) :=
  writeEntry "TRAILER!!!".toList [] mtime ino

/-- `canonical`, which raises an exception for names that it does not accept. -/
def canonical (name : List Char) : Option (List Char) :=
  let parts := name.splitOn '/'
  if ':' ∈ name ∨ ['.', '.'] ∈ parts ∨ Char.ofNat 0 ∈ name then none
  else
    let kept := parts.filter fun part => part ≠ [] ∧ part ≠ ['.']
    let name := '/' :: ['/'].intercalate kept
    if name = ['/'] ∨ (encode name).length ≥ 256 then none else some name

abbrev File : Type := List Char × List Byte

/-- The order of `sorted` on files with different paths. -/
def pathLe (first second : File) : Prop := ¬ second.1 < first.1

instance : DecidableRel pathLe := fun _ _ => inferInstanceAs (Decidable (¬ _))

/-- The files are written in the given order, followed by the trailer. -/
def writeFiles (mtime : Nat) : Nat → List File → Option (List Byte)
  | ino, [] => writeTrailer mtime ino
  | ino, (path, data) :: files => do
      let first ← writeEntry (path.dropWhile (· = '/')) data mtime ino
      let others ← writeFiles mtime (ino + 1) files
      some (first ++ others)

def sortedFiles (entries : List File) : List File := entries.insertionSort pathLe

/-- The archive that `build` writes for a dictionary of files. -/
def build (epoch : Nat) (entries : List File) : Option (List Byte) :=
  if epoch ≤ 0xffffffff then writeFiles epoch 1 (sortedFiles entries) else none

end LaOS.Initrd
