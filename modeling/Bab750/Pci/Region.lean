import Bab750.Foundation.Bytes
import Mathlib.Data.BitVec

/-!
# PCI controllers

The regions of a controller, as `include/pci.h` has them and as `pci_init_board` sets them for
address map A.
-/

namespace Bab750
namespace Pci

open Foundation

abbrev Word := BitVec 32

def regionMem : Word := 0x00000000#32

def regionIo : Word := 0x00000001#32

def regionType : Word := 0x00000001#32

def regionPrefetch : Word := 0x00000008#32

def regionSysMemory : Word := 0x00000100#32

structure Region where
  busStart : Word
  physStart : Word
  size : Word
  flags : Word
  /-- `bus_lower`, from where on `pciauto_region_allocate` grants. -/
  busLower : Word
deriving Repr, DecidableEq

def pciSetRegion (busStart physStart size flags : Word) : Region :=
  ⟨busStart, physStart, size, flags, 0#32⟩

/-- The `regions` of `pci_init_board`. -/
def boardRegions : List Region :=
  [pciSetRegion 0x80000000#32 0x00000000#32 (0x80000000#32 - 1#32) (regionMem ||| regionSysMemory),
    pciSetRegion 0x00000000#32 0xc0000000#32 0x3f000000#32 regionMem,
    pciSetRegion 0x00000000#32 0x00000000#32 0x00000000#32 regionMem,
    pciSetRegion 0x00001000#32 0x81000000#32 (0x01000000#32 - 0x1000#32) regionIo,
    pciSetRegion 0x00000000#32 0x80000000#32 0x00800000#32 regionIo]

/-!
# Addresses of a region
-/

/-- The address is one of the `size` addresses from `start` on. -/
def Within (start size addr : Word) : Prop := addr - start < size

instance (start size addr : Word) : Decidable (Within start size addr) :=
  inferInstanceAs (Decidable (_ < _))

/-- The compare of the source: at or above the start, and below the end modulo `2 ^ 32`. -/
def between (start size addr : Word) : Bool := start <= addr && addr < start + size

/-- The compare finds the addresses of a range whose end does not wrap, and else none. -/
theorem between_iff (start size addr : Word) :
    between start size addr = true <->
      Within start size addr ∧ start.toNat + size.toNat < 2 ^ 32 := by
  have hstart := start.isLt
  have hsize := size.isLt
  have haddr := addr.isLt
  simp only [between, Within, Bool.and_eq_true, decide_eq_true_eq, BitVec.le_def, BitVec.lt_def,
    BitVec.toNat_add, BitVec.toNat_sub]
  omega

theorem within_move (start start' size addr : Word) :
    Within start' size (addr - start + start') <-> Within start size addr := by
  unfold Within
  rw [BitVec.add_sub_cancel]

theorem within_start {start size : Word} (h : size ≠ 0#32) : Within start size start := by
  unfold Within
  rw [BitVec.sub_self, BitVec.lt_def]
  exact Nat.pos_of_ne_zero (fun hzero => h (BitVec.eq_of_toNat_eq hzero))

end Pci
end Bab750
