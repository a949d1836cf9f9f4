import Mathlib.Data.BitVec
import Mathlib.Data.List.GetD

/-!
# Words bit by bit

A word that leaves a register at its top, and a register that takes bits in at its bottom.
-/

namespace Bab750
namespace Foundation

def msbFirst {w : Nat} (v : BitVec w) : List Bool :=
  (List.range w).map (fun i => v.getLsbD (w - 1 - i))

/-- `(v << 1) | bit` -/
def shiftIn {w : Nat} (v : BitVec w) (bit : Bool) : BitVec w :=
  (v <<< 1) ||| (BitVec.ofBool bit).setWidth w

theorem msbFirst_length {w : Nat} (v : BitVec w) : (msbFirst v).length = w := by
  rw [msbFirst, List.length_map, List.length_range]

theorem shiftIn_zero {w : Nat} (v : BitVec w) (bit : Bool) (hw : 0 < w) :
    (shiftIn v bit).getLsbD 0 = bit := by
  simp [shiftIn, hw]

theorem shiftIn_succ {w : Nat} (v : BitVec w) (bit : Bool) {i : Nat} (hi : i + 1 < w) :
    (shiftIn v bit).getLsbD (i + 1) = v.getLsbD i := by
  simp [shiftIn, hi, BitVec.getLsbD_eq_getElem (show i < w by omega)]

theorem foldl_shiftIn_getLsbD {w : Nat} (bits : List Bool) :
    forall (acc : BitVec w) (i : Nat), i < w -> i < bits.length ->
      (bits.foldl shiftIn acc).getLsbD i = bits.getD (bits.length - 1 - i) false := by
  induction bits using List.reverseRecOn with
  | nil =>
      intro acc i _ hlength
      exact absurd hlength (Nat.not_lt_zero i)
  | append_singleton bits bit ih =>
      intro acc i hi hlength
      rw [List.foldl_append, List.length_append, List.length_singleton]
      cases i with
      | zero =>
          rw [List.foldl_cons, List.foldl_nil, shiftIn_zero _ _ hi]
          simp
      | succ i =>
          have hlt : i < bits.length := by simpa using hlength
          rw [List.foldl_cons, List.foldl_nil, shiftIn_succ _ _ hi, ih acc i (by omega) hlt]
          have hindex : bits.length + 1 - 1 - (i + 1) = bits.length - 1 - i := by omega
          have hinside : bits.length - 1 - i < bits.length := by omega
          rw [hindex, List.getD_append _ _ _ _ hinside]

theorem foldl_shiftIn_msbFirst {w n : Nat} (acc : BitVec w) (bits : List Bool) (v : BitVec n)
    (hn : n <= w) : ((bits ++ msbFirst v).foldl shiftIn acc).setWidth n = v := by
  apply BitVec.eq_of_getLsbD_eq
  intro i hi
  have hlength : (bits ++ msbFirst v).length = bits.length + n := by
    rw [List.length_append, msbFirst_length]
  have hindex : bits.length + n - 1 - i = bits.length + (n - 1 - i) := by omega
  rw [BitVec.getLsbD_setWidth, foldl_shiftIn_getLsbD _ acc i (by omega) (by omega), hlength,
    hindex, List.getD_append_right _ _ _ _ (Nat.le_add_right _ _), Nat.add_sub_cancel_left]
  simp [msbFirst, hi, show n - 1 - i < n by omega, show n - 1 - (n - 1 - i) = i by omega]

end Foundation
end Bab750
