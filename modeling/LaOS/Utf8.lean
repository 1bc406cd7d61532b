import LaOS.WordBytes

/-!
# Texts encoded in UTF-8

The bytes of a text determine it, and a byte below 128 in the encoding stands for
the character with this code and for no other.
-/

namespace LaOS.Utf8

open List WordBytes

def encodeChar (c : Char) : List Byte := (String.utf8EncodeChar c).map UInt8.toBitVec

def encode (text : List Char) : List Byte := text.flatMap encodeChar

variable {text other : List Char} {c : Char} {byte : Byte}

theorem encode_append : encode (text ++ other) = encode text ++ encode other := flatMap_append

theorem encode_injective (same : encode text = encode other) : text = other := by
  have bytes : ∀ text : List Char,
      encode text = (text.flatMap String.utf8EncodeChar).map UInt8.toBitVec := by
    intro text
    rw [map_flatMap]
    rfl
  rw [bytes, bytes] at same
  have units := map_injective_iff.mpr (fun _ _ => UInt8.toBitVec_inj.mp) same
  have strings : String.ofList text = String.ofList other := by
    rw [String.ofList]
    congr 1
    rw [utf8Encode, utf8Encode, units]
  rw [← @String.toList_ofList text, strings, String.toList_ofList]

theorem mem_encodeChar (small : byte.toNat < 128) :
    byte ∈ encodeChar c ↔ c.val.toNat = byte.toNat := by
  have word : ∀ n, byte = (UInt8.ofNat n).toBitVec ↔ byte.toNat = n % 256 := by
    intro n
    rw [← BitVec.toNat_inj]
    simp
  simp only [encodeChar, String.utf8EncodeChar]
  split
  next =>
    simp only [map_cons, map_nil, mem_singleton, word]
    omega
  split
  next =>
    simp only [map_cons, map_nil, mem_cons, not_mem_nil, or_false, word]
    omega
  split
  next =>
    simp only [map_cons, map_nil, mem_cons, not_mem_nil, or_false, word]
    omega
  next =>
    simp only [map_cons, map_nil, mem_cons, not_mem_nil, or_false, word]
    omega

theorem mem_encode (small : c.val.toNat < 128) :
    BitVec.ofNat 8 c.val.toNat ∈ encode text ↔ c ∈ text := by
  have code : (BitVec.ofNat 8 c.val.toNat).toNat = c.val.toNat := by
    rw [BitVec.toNat_ofNat]
    omega
  have isChar : ∀ other : Char, BitVec.ofNat 8 c.val.toNat ∈ encodeChar other ↔ other = c := by
    intro other
    rw [mem_encodeChar (by omega), code, UInt32.toNat_inj]
    exact ⟨Char.ext, fun same => same ▸ rfl⟩
  simp only [encode, mem_flatMap, isChar, exists_eq_right]

end LaOS.Utf8
