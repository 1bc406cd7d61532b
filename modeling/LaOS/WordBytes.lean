import Mathlib

/-!
# Words as sequences of bytes

A word of 64 bits consists of eight bytes, the least significant first.
-/

namespace LaOS.WordBytes

abbrev Byte : Type := BitVec 8

instance : LawfulBEq Byte := inferInstance

def byteOf (word : BitVec 64) (pos : Nat) : Byte := word.extractLsb' (8 * pos) 8

def ofBytes (bytes : Nat → Byte) : BitVec 64 :=
  bytes 7 ++ bytes 6 ++ bytes 5 ++ bytes 4 ++ bytes 3 ++ bytes 2 ++ bytes 1 ++ bytes 0

end LaOS.WordBytes
