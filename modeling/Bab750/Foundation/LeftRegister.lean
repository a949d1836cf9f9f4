import Bab750.Foundation.Shift
import Bab750.Foundation.ShiftRegister

/-!
# Registers that move up

The mirror image of a register that moves down: the bit that falls out is the top one, and the
polynomial is mirrored.
-/

namespace Bab750
namespace Foundation

variable {w : Nat} {poly : BitVec w}

def feedbackLeft (poly accu : BitVec w) (bit : Bool) : BitVec w :=
  if bit != accu.msb then (accu <<< 1) ^^^ poly else accu <<< 1

def feedbackLefts (poly accu : BitVec w) (bits : List Bool) : BitVec w :=
  bits.foldl (feedbackLeft poly) accu

theorem reverse_xor (a b : BitVec w) : (a ^^^ b).reverse = a.reverse ^^^ b.reverse := by
  apply BitVec.eq_of_getLsbD_eq
  intro i hi
  rw [BitVec.getLsbD_xor, BitVec.getLsbD_reverse, BitVec.getLsbD_reverse, BitVec.getLsbD_reverse,
    BitVec.getMsbD_xor]

theorem reverse_shiftLeft (a : BitVec w) (n : Nat) : (a <<< n).reverse = a.reverse >>> n := by
  apply BitVec.eq_of_getLsbD_eq
  intro i hi
  rw [BitVec.getLsbD_reverse, BitVec.getMsbD_shiftLeft, BitVec.getLsbD_ushiftRight,
    BitVec.getLsbD_reverse, Nat.add_comm]

theorem reverse_getLsbD_zero (a : BitVec w) : a.reverse.getLsbD 0 = a.msb := by
  rw [BitVec.getLsbD_reverse]
  rfl

theorem feedbackLeft_reverse (accu : BitVec w) (bit : Bool) :
    (feedbackLeft poly accu bit).reverse = feedbackBit poly.reverse accu.reverse bit := by
  unfold feedbackLeft feedbackBit
  rw [reverse_getLsbD_zero]
  split
  · rw [reverse_xor, reverse_shiftLeft]
  · rw [reverse_shiftLeft]

theorem feedbackLefts_reverse (bits : List Bool) (accu : BitVec w) :
    (feedbackLefts poly accu bits).reverse = feedbackBits poly.reverse accu.reverse bits := by
  induction bits generalizing accu with
  | nil => rfl
  | cons bit bits ih =>
      show (feedbackLefts poly (feedbackLeft poly accu bit) bits).reverse =
        feedbackBits poly.reverse (feedbackBit poly.reverse accu.reverse bit) bits
      rw [ih, feedbackLeft_reverse]

theorem reverse_inj {a b : BitVec w} (h : a.reverse = b.reverse) : a = b := by
  rw [← BitVec.reverse_reverse_eq (x := a), h, BitVec.reverse_reverse_eq]

end Foundation
end Bab750
