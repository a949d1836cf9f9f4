import Bab750.Foundation.Bytes
import Mathlib.Data.BitVec

/-!
# Flat memory

A memory of 32-bit addresses and copies into it.  Addresses count modulo the size
of the memory, so that a copy of fewer bytes than that never meets itself.
-/

namespace Bab750
namespace Foundation

abbrev Memory := BitVec 32 -> Byte

/-- `memcpy` to an address. -/
def copyMemory (memory : Memory) (dest : BitVec 32) (bytes : List Byte) : Memory :=
  fun a => bytes[(a - dest).toNat]?.getD (memory a)

theorem copyMemory_nil (memory : Memory) (dest : BitVec 32) :
    copyMemory memory dest [] = memory := by
  funext a
  rfl

theorem copyMemory_inside (memory : Memory) (dest : BitVec 32) (bytes : List Byte)
    (i : Nat) (hi : i < bytes.length) (hsize : bytes.length <= 2 ^ 32) :
    copyMemory memory dest bytes (dest + BitVec.ofNat 32 i) = bytes[i] := by
  have hindex : (dest + BitVec.ofNat 32 i - dest).toNat = i := by
    rw [BitVec.add_comm, BitVec.add_sub_cancel, BitVec.toNat_ofNat]
    exact Nat.mod_eq_of_lt (by omega)
  unfold copyMemory
  rw [hindex, List.getElem?_eq_getElem hi]
  rfl

theorem copyMemory_outside (memory : Memory) (dest : BitVec 32) (bytes : List Byte)
    (a : BitVec 32) (h : forall i, i < bytes.length -> a ≠ dest + BitVec.ofNat 32 i) :
    copyMemory memory dest bytes a = memory a := by
  have hindex : bytes.length <= (a - dest).toNat := by
    apply Nat.le_of_not_lt
    intro hlt
    apply h _ hlt
    rw [BitVec.ofNat_toNat, BitVec.setWidth_eq, BitVec.add_comm, BitVec.sub_add_cancel]
  unfold copyMemory
  rw [List.getElem?_eq_none hindex]
  rfl

theorem toNat_sub_offset (a dest : BitVec 32) (off : Nat) (hoff : off < 2 ^ 32) :
    (a - (dest + BitVec.ofNat 32 off)).toNat =
      if off <= (a - dest).toNat then (a - dest).toNat - off
      else (a - dest).toNat + 2 ^ 32 - off := by
  have hsplit : a - (dest + BitVec.ofNat 32 off) = (a - dest) - BitVec.ofNat 32 off :=
    sub_add_eq_sub_sub a dest (BitVec.ofNat 32 off)
  have hlt := (a - dest).isLt
  rw [hsplit, BitVec.toNat_sub, BitVec.toNat_ofNat, Nat.mod_eq_of_lt hoff]
  split
  · omega
  · omega

/--
Over a copy of the first bytes of a text, a copy of a later piece of the text to
its place, with no gap between the two, leaves a copy of all bytes up to its end.
-/
theorem copyMemory_piece (memory : Memory) (dest : BitVec 32) (text : List Byte)
    (done off count : Nat) (hgap : off <= done) (hsize : text.length < 2 ^ 32) :
    copyMemory (copyMemory memory dest (text.take done)) (dest + BitVec.ofNat 32 off)
        ((text.drop off).take count) =
      copyMemory memory dest (text.take (max done (off + count))) := by
  by_cases hlen : off < text.length
  · funext a
    have hindex := toNat_sub_offset a dest off (by omega)
    unfold copyMemory
    rw [hindex]
    generalize (a - dest).toNat = k
    simp only [List.getElem?_take, List.getElem?_drop]
    by_cases hle : off <= k
    · rw [if_pos hle, show off + (k - off) = k by omega]
      by_cases hcount : k - off < count
      · rw [if_pos hcount, if_pos (show k < max done (off + count) by omega)]
        cases hget : text[k]? with
        | none =>
            simp
        | some b =>
            rfl
      · rw [if_neg hcount]
        by_cases hdone : k < done
        · rw [if_pos hdone, if_pos (show k < max done (off + count) by omega)]
          rfl
        · rw [if_neg hdone, if_neg (show ¬ k < max done (off + count) by omega)]
          rfl
    · -- the address lies in front of the piece
      have hnone : text[off + (k + 2 ^ 32 - off)]? = none :=
        List.getElem?_eq_none (by omega)
      rw [if_neg hle, hnone, if_pos (show k < done by omega),
        if_pos (show k < max done (off + count) by omega)]
      simp
  · rw [List.drop_eq_nil_of_le (by omega), List.take_nil, copyMemory_nil,
      List.take_of_length_le (by omega), List.take_of_length_le (by omega)]

/-!
# Ranges
-/

def memoryRange (memory : Memory) (address : BitVec 32) (count : Nat) : List Byte :=
  (List.range count).map (fun i => memory (address + BitVec.ofNat 32 i))

theorem memoryRange_succ (memory : Memory) (address : BitVec 32) (count : Nat) :
    memoryRange memory address (count + 1) =
      memory address :: memoryRange memory (address + 1#32) count := by
  unfold memoryRange
  rw [List.range_succ_eq_map, List.map_cons, List.map_map, BitVec.add_zero]
  congr 2
  funext i
  rw [Function.comp_apply, Nat.succ_eq_add_one, Nat.add_comm, BitVec.ofNat_add,
    BitVec.add_assoc]

theorem memoryRange_add (memory : Memory) (address : BitVec 32) (m n : Nat) :
    memoryRange memory address (m + n) = memoryRange memory address m ++
      memoryRange memory (address + BitVec.ofNat 32 m) n := by
  induction m generalizing address with
  | zero =>
      rw [Nat.zero_add, BitVec.add_zero]
      rfl
  | succ m ih =>
      rw [Nat.add_right_comm, memoryRange_succ, memoryRange_succ, ih, BitVec.add_assoc,
        BitVec.ofNat_add m 1, BitVec.add_comm (1#32)]
      rfl

@[simp] theorem memoryRange_length (memory : Memory) (address : BitVec 32) (count : Nat) :
    (memoryRange memory address count).length = count := by
  simp [memoryRange]

theorem memoryRange_getElem (memory : Memory) (address : BitVec 32) (count i : Nat)
    (h : i < (memoryRange memory address count).length) :
    (memoryRange memory address count)[i] = memory (address + BitVec.ofNat 32 i) := by
  simp [memoryRange]

theorem memoryRange_congr {memory memory' : Memory} {address : BitVec 32} {count : Nat}
    (h : forall i, i < count -> memory (address + BitVec.ofNat 32 i) =
      memory' (address + BitVec.ofNat 32 i)) :
    memoryRange memory address count = memoryRange memory' address count := by
  apply List.map_congr_left
  intro i hi
  exact h i (List.mem_range.mp hi)

theorem memoryRange_slice {memory : Memory} {address : BitVec 32} {text : List Byte}
    (h : memoryRange memory address text.length = text) (offset count : Nat)
    (hfits : offset + count <= text.length) :
    memoryRange memory (address + BitVec.ofNat 32 offset) count =
      (text.drop offset).take count := by
  have hsplit : text.length = offset + (count + (text.length - (offset + count))) := by
    omega
  rw [hsplit, memoryRange_add, memoryRange_add] at h
  rw [<- h, List.drop_left' (memoryRange_length memory address offset),
    List.take_left' (memoryRange_length _ _ count)]

theorem memoryRange_copyMemory (memory : Memory) (dest : BitVec 32) (bytes : List Byte)
    (hsize : bytes.length <= 2 ^ 32) :
    memoryRange (copyMemory memory dest bytes) dest bytes.length = bytes := by
  apply List.ext_getElem
  · rw [memoryRange_length]
  · intro i hi hbytes
    rw [memoryRange_getElem, copyMemory_inside memory dest bytes i hbytes hsize]

theorem memoryRange_copyMemory_outside (memory : Memory) (dest : BitVec 32)
    (bytes : List Byte) {address : BitVec 32} {count : Nat}
    (h : forall i j, i < count -> j < bytes.length ->
      address + BitVec.ofNat 32 i ≠ dest + BitVec.ofNat 32 j) :
    memoryRange (copyMemory memory dest bytes) address count =
      memoryRange memory address count := by
  apply memoryRange_congr
  intro i hi
  exact copyMemory_outside memory dest bytes _ (fun j hj => h i j hi hj)

end Foundation
end Bab750
