import LaOS.PointerWalk
import LaOS.WordBytes

/-!
# Walking the capability list of a PCI function

The two walks of `kernel/pci.c` and `virtio_pci.c` test only the range of a next
pointer, so that a list that leads back to itself holds the kernel for ever.
-/

namespace LaOS.PciCapabilities

open WordBytes (Byte)

/-- The configuration space of one function: `pci_read8` at each offset. -/
abbrev ConfigSpace := Nat → Byte

def pciRead32 (cfg : ConfigSpace) (offset : Nat) : BitVec 32 :=
  cfg (offset + 3) ++ cfg (offset + 2) ++ cfg (offset + 1) ++ cfg offset

/-- The byte at `PCI_REG_CAP_PTR`. -/
def capPtr (cfg : ConfigSpace) : Byte := cfg 0x34

/-- The loop of `pci_scan_all_buses`, which wants `PCI_CAP_ID_MSI`. -/
def msiWalk (cfg : ConfigSpace) : PointerWalk Byte where
  inside ptr := 0x40 ≤ ptr
  wanted ptr := cfg ptr.toNat = 0x05
  next ptr := cfg (ptr.toNat + 1)

/-- What the scan leaves in `msi_cap_off`. -/
def msiCapOff (cfg : ConfigSpace) (turns : Nat) : Option Byte :=
  ((msiWalk cfg).search turns (capPtr cfg)).map (·.getD 0)

def virtioWalk (cfg : ConfigSpace) (cfgType : Byte) : PointerWalk Byte where
  inside ptr := 0x40 ≤ ptr && ptr ≤ 0xfc
  wanted ptr := cfg ptr.toNat = 0x09 && cfg (ptr.toNat + 3) = cfgType
  next ptr := cfg (ptr.toNat + 1)

/-- The fields of `struct virtio_pci_cap` that are read; the others stay zero. -/
structure VirtioPciCap where
  capVndr : Byte
  capNext : Byte
  cfgType : Byte
  bar : Byte
  offset : BitVec 32
  length : BitVec 32
  deriving DecidableEq

def readCap (cfg : ConfigSpace) (ptr : Byte) : VirtioPciCap where
  capVndr := cfg ptr.toNat
  capNext := cfg (ptr.toNat + 1)
  cfgType := cfg (ptr.toNat + 3)
  bar := cfg (ptr.toNat + 4)
  offset := pciRead32 cfg (ptr.toNat + 8)
  length := pciRead32 cfg (ptr.toNat + 12)

/-- `pci_find_capability`, with the pointer it stores to `out_cap_ptr`. -/
def pciFindCapability (cfg : ConfigSpace) (cfgType : Byte) (turns : Nat) :
    Option (Option (Byte × VirtioPciCap)) :=
  ((virtioWalk cfg cfgType).search turns (capPtr cfg)).map fun found =>
    found.map fun ptr => (ptr, readCap cfg ptr)

/-- Both functions return, and with the first capability of the list that matches. -/
structure WalksEnd (cfg : ConfigSpace) : Prop where
  msi : ∃ turns found, msiCapOff cfg turns = some (found.getD 0) ∧
    (msiWalk cfg).IsFirst (capPtr cfg) found
  virtio : ∀ cfgType, ∃ turns found,
    pciFindCapability cfg cfgType turns = some (found.map fun ptr => (ptr, readCap cfg ptr)) ∧
      (virtioWalk cfg cfgType).IsFirst (capPtr cfg) found

instance : Finite Byte := Finite.of_injective BitVec.toFin fun _ _ => BitVec.eq_of_toFin_eq

/-- A search that returns has returned the first match, whatever is made of it. -/
theorem ends_iff {Result : Type} (walk : PointerWalk Byte) (start : Byte)
    (report : Option Byte → Result) :
    (∃ turns found, (walk.search turns start).map report = some (report found) ∧
      walk.IsFirst start found) ↔ walk.NoReturn start := by
  rw [← PointerWalk.search_returns_iff]
  constructor
  · rintro ⟨turns, _, reported, -⟩
    obtain ⟨found, returned, -⟩ := Option.map_eq_some_iff.mp reported
    exact ⟨turns, found, returned⟩
  · rintro ⟨turns, found, returned⟩
    exact ⟨turns, found, by rw [returned]; rfl, PointerWalk.isFirst_of_search returned⟩

/-- The walks end exactly when the list does not lead back before a match. -/
theorem walksEnd_iff (cfg : ConfigSpace) :
    WalksEnd cfg ↔ (msiWalk cfg).NoReturn (capPtr cfg) ∧
      ∀ cfgType, (virtioWalk cfg cfgType).NoReturn (capPtr cfg) := by
  constructor
  · intro ends
    exact ⟨(ends_iff _ _ _).mp ends.msi, fun cfgType => (ends_iff _ _ _).mp (ends.virtio cfgType)⟩
  · rintro ⟨msi, virtio⟩
    exact ⟨(ends_iff _ _ _).mpr msi, fun cfgType => (ends_iff _ _ _).mpr (virtio cfgType)⟩

def selfLoop : ConfigSpace := fun offset => if offset = 0x34 ∨ offset = 0x41 then 0x40 else 0

/-- Neither walk ever returns. -/
theorem walks_selfLoop : (∀ turns, msiCapOff selfLoop turns = none) ∧
      ∀ turns, pciFindCapability selfLoop 1 turns = none := by
  have stays : ∀ step, (fun ptr : Byte => selfLoop (ptr.toNat + 1))^[step] 0x40 = 0x40 :=
    fun step => Function.iterate_fixed rfl step
  constructor <;> intro turns
  · refine Option.map_eq_none_iff.mpr (PointerWalk.search_eq_none_iff.mpr fun step _ => ?_)
    rw [show (msiWalk selfLoop).next^[step] (capPtr selfLoop) = 0x40 from stays step]
    decide
  · refine Option.map_eq_none_iff.mpr (PointerWalk.search_eq_none_iff.mpr fun step _ => ?_)
    rw [show (virtioWalk selfLoop 1).next^[step] (capPtr selfLoop) = 0x40 from stays step]
    decide

end LaOS.PciCapabilities
