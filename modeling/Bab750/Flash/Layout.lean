import Bab750.Foundation.Cuts
import Bab750.Flash.Commands

/-!
# The layout of the banks

The banks and their sectors as ranges of numbers.  The last bank may end with the address
space: its end is 2^32 then, and the address behind it is no address.
-/

namespace Bab750
namespace Flash

open Foundation

namespace FlashInfo

variable {info : FlashInfo}

def top (info : FlashInfo) : Nat := (info.start 0).toNat + info.size.toNat

/-- The starts of the sectors, and behind them the end of the bank. -/
def cut (info : FlashInfo) (i : Nat) : Nat :=
  if i < info.sectorCount then (info.start i).toNat else info.top

def Covers (info : FlashInfo) (n : Nat) : Prop := info.cut 0 <= n ∧ n < info.top

structure Laid (info : FlashInfo) : Prop where
  some : 0 < info.sectorCount
  ascending : Ascending info.cut info.sectorCount
  space : info.top <= 2 ^ 32

namespace Laid

theorem cut_zero (h : info.Laid) : info.cut 0 = (info.start 0).toNat :=
  if_pos h.some

theorem cut_count (info : FlashInfo) : info.cut info.sectorCount = info.top :=
  if_neg (Nat.lt_irrefl _)

theorem cut_le_top (h : info.Laid) {i : Nat} (hi : i <= info.sectorCount) :
    info.cut i <= info.top := by
  have hle := h.ascending.le hi (Nat.le_refl _)
  rw [cut_count] at hle
  exact hle

theorem cut_zero_lt (h : info.Laid) : info.cut 0 < info.top := by
  have hstep := h.ascending 0 h.some
  have hle := h.cut_le_top (show 0 + 1 <= info.sectorCount from h.some)
  omega

theorem bankLast_toNat (h : info.Laid) : (info.bankEnd - 1#32).toNat = info.top - 1 := by
  have hspace := h.space
  have hpos := h.cut_zero_lt
  have htop : info.top = (info.start 0).toNat + info.size.toNat := rfl
  unfold bankEnd
  rw [BitVec.toNat_sub, BitVec.toNat_add]
  show (2 ^ 32 - 1 + _) % 2 ^ 32 = _
  omega

theorem bankEnd_toNat (info : FlashInfo) : info.bankEnd.toNat = info.top % 2 ^ 32 := by
  unfold bankEnd top
  exact BitVec.toNat_add _ _

theorem start_toNat {i : Nat} (hi : i < info.sectorCount) :
    (info.start i).toNat = info.cut i :=
  (if_pos hi).symm

theorem sectorLast_toNat (h : info.Laid) {i : Nat} (hi : i < info.sectorCount) :
    (info.sectorLast i).toNat = info.cut (i + 1) - 1 := by
  unfold sectorLast
  by_cases hlast : i = info.sectorCount - 1
  · have hnext : i + 1 = info.sectorCount := by omega
    rw [if_pos hlast, hnext, cut_count]
    exact h.bankLast_toNat
  · have hstep := h.ascending i hi
    have hstart := @start_toNat info (i + 1) (by omega)
    have hlt := (info.start (i + 1)).isLt
    rw [if_neg hlast, BitVec.toNat_sub]
    show (2 ^ 32 - 1 + _) % 2 ^ 32 = _
    omega

theorem inSector_iff (h : info.Laid) {i : Nat} (hi : i < info.sectorCount) (a : BitVec 32) :
    info.inSector i a = true ↔ info.cut i <= a.toNat ∧ a.toNat < info.cut (i + 1) := by
  have hstep := h.ascending i hi
  unfold inSector
  rw [Bool.and_eq_true, decide_eq_true_eq, decide_eq_true_eq, BitVec.le_def, BitVec.le_def,
    h.sectorLast_toNat hi, start_toNat hi]
  omega

theorem holds_iff (h : info.Laid) (hknown : info.isKnown = true) (a : BitVec 32) :
    info.holds a = true ↔ info.Covers a.toNat := by
  have hpos := h.cut_zero_lt
  unfold holds Covers
  rw [hknown, Bool.true_and, Bool.and_eq_true, decide_eq_true_eq, decide_eq_true_eq,
    BitVec.le_def, BitVec.le_def, h.bankLast_toNat, start_toNat h.some]
  omega

theorem exists_sector {n : Nat} (hn : info.Covers n) :
    exists i, i < info.sectorCount ∧ info.cut i <= n ∧ n < info.cut (i + 1) := by
  apply exists_piece hn.left
  rw [cut_count]
  exact hn.right

end Laid

end FlashInfo

/-- Known banks in ascending order that have no address in common. -/
structure Layout (banks : List FlashInfo) : Prop where
  laid : forall info, info ∈ banks -> info.isKnown = true -> info.Laid
  ascending : banks.Pairwise (fun before behind =>
    before.isKnown = true -> behind.isKnown = true -> before.top <= behind.cut 0)

/-!
# The banks of the board
-/

def missingBank : FlashInfo where
  size := 0#32
  sectorCount := 0
  flashId := flashUnknown
  start := fun _ => 0#32
  protect := fun _ => false

def amdManufact : Byte := 0x01#8

/-- The number of sectors and the size of a chip that is known. -/
def chipGeometry (devid : Byte) : Option (Nat × BitVec 32) :=
  if devid = 0xa4#8 then some (8, 0x00080000#32)
  else if devid = 0xad#8 then some (32, 0x00200000#32)
  else if devid = 0x41#8 then some (64, 0x00400000#32)
  else none

/-- The sectors of a chip that is known, one behind the other from `base` on. -/
def chipInfo (base : BitVec 32) (devid : Byte) (locked : Nat -> Bool) (info : FlashInfo)
    (sectorCount : Nat) (size : BitVec 32) : FlashInfo where
  size := size
  sectorCount := sectorCount
  flashId := devid.setWidth 32
  start := fun i =>
    if i < sectorCount then base + BitVec.ofNat 32 i * (size / BitVec.ofNat 32 sectorCount)
    else info.start i
  protect := fun i => if i < sectorCount then locked i else info.protect i

/-- `flash_get_size`, with what the chip at `base` answers. -/
def flashGetSize (base : BitVec 32) (vendor devid : Byte) (locked : Nat -> Bool)
    (info : FlashInfo) : BitVec 32 × FlashInfo :=
  if vendor ≠ amdManufact then
    (0#32, { info with flashId := flashUnknown, sectorCount := 0, size := 0#32 })
  else
    match chipGeometry devid with
    | none => (0#32, { info with flashId := flashUnknown })
    | some (sectorCount, size) => (size, chipInfo base devid locked info sectorCount size)

theorem chipGeometry_even {devid : Byte} {sectorCount : Nat} {size : BitVec 32}
    (h : chipGeometry devid = some (sectorCount, size)) :
    0 < sectorCount ∧ sectorCount <= 64 ∧ size.toNat = sectorCount * 0x10000 ∧
      size / BitVec.ofNat 32 sectorCount = 0x10000#32 := by
  unfold chipGeometry at h
  split at h
  · cases h
    decide
  · split at h
    · cases h
      decide
    · split at h
      · cases h
        decide
      · exact absurd h (by simp)

section Chip

variable {base : BitVec 32} {devid : Byte} {locked : Nat -> Bool} {info : FlashInfo}
  {sectorCount : Nat} {size : BitVec 32}

theorem chipInfo_cut (h : chipGeometry devid = some (sectorCount, size))
    (hspace : base.toNat + size.toNat <= 2 ^ 32) {i : Nat} (hi : i <= sectorCount) :
    (chipInfo base devid locked info sectorCount size).cut i = base.toNat + i * 0x10000 := by
  rcases chipGeometry_even h with ⟨hsome, hmost, hsize, hsector⟩
  have hstart : forall i, i < sectorCount ->
      ((chipInfo base devid locked info sectorCount size).start i).toNat =
        base.toNat + i * 0x10000 := by
    intro i hi
    unfold chipInfo
    dsimp only
    rw [if_pos hi, hsector, BitVec.toNat_add, BitVec.toNat_mul, BitVec.toNat_ofNat]
    show (base.toNat + (i % 2 ^ 32 * 65536) % 2 ^ 32) % 2 ^ 32 = _
    omega
  unfold FlashInfo.cut FlashInfo.top
  rw [hstart 0 hsome]
  show (if i < sectorCount then _ else _ + size.toNat) = _
  split
  case isTrue hlt =>
      exact hstart i hlt
  case isFalse hge =>
      rw [hsize]
      omega

theorem chipInfo_top (h : chipGeometry devid = some (sectorCount, size))
    (hspace : base.toNat + size.toNat <= 2 ^ 32) :
    (chipInfo base devid locked info sectorCount size).top = base.toNat + size.toNat := by
  have hcut := @chipInfo_cut base devid locked info sectorCount size h hspace sectorCount
    (Nat.le_refl _)
  rw [(chipGeometry_even h).right.right.left, ← hcut]
  exact (FlashInfo.Laid.cut_count _).symm

theorem chipInfo_laid (h : chipGeometry devid = some (sectorCount, size))
    (hspace : base.toNat + size.toNat <= 2 ^ 32) :
    (chipInfo base devid locked info sectorCount size).Laid := by
  constructor
  · exact (chipGeometry_even h).left
  · intro i hi
    have hlt : i < sectorCount := hi
    rw [chipInfo_cut h hspace (show i <= sectorCount by omega),
      chipInfo_cut h hspace (show i + 1 <= sectorCount by omega)]
    omega
  · rw [chipInfo_top h hspace]
    exact hspace

end Chip

theorem flashGetSize_laid {base : BitVec 32} {vendor devid : Byte} {locked : Nat -> Bool}
    {info : FlashInfo} (hknown : (flashGetSize base vendor devid locked info).2.isKnown = true)
    (hspace : base.toNat + (flashGetSize base vendor devid locked info).1.toNat <= 2 ^ 32) :
    (flashGetSize base vendor devid locked info).2.Laid := by
  unfold flashGetSize at hknown hspace ⊢
  by_cases hvendor : vendor ≠ amdManufact
  · rw [if_pos hvendor] at hknown
    exact absurd (show (flashUnknown != flashUnknown) = true from hknown) (by decide)
  · rw [if_neg hvendor] at hknown hspace ⊢
    cases hchip : chipGeometry devid with
    | none =>
        rw [hchip] at hknown
        exact absurd (show (flashUnknown != flashUnknown) = true from hknown) (by decide)
    | some geometry =>
        rw [hchip] at hspace
        exact chipInfo_laid hchip hspace

end Flash
end Bab750
