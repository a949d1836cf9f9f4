import Bab750.Pci.Enumeration

/-!
# Cursors of a scan

How far the cursor of a region can move in a scan, and which addresses the windows of a bridge
stand for. No cursor comes further than to the end of its region, rounded up to the granularity
of the windows.
-/

namespace Bab750
namespace Pci

open Foundation

def Space.unit : Space -> Nat
  | .mem => 2 ^ 20
  | .prefetch => 2 ^ 20
  | .io => 2 ^ 12

/-- The addresses that a region can come to in a scan, from its first cursor on. -/
def reach (unit : Nat) (first : Region) : Span :=
  ⟨cursor first, roundUp (max (first.busStart.toNat + first.size.toNat) (cursor first)) unit⟩

/-- A region in a scan, and what it was in the beginning. -/
structure RegionMoved (unit : Nat) (first res : Region) : Prop where
  start : first.busStart.toNat ≤ cursor first
  busStart : res.busStart = first.busStart
  size : res.size = first.size
  le : cursor first ≤ cursor res
  limit : cursor res ≤ (reach unit first).limit

section Moves

variable {unit : Nat} {first res : Region} {size : Word}

end Moves

/-!
# Windows
-/

theorem and_mask (x k n : Nat) : x &&& ((2 ^ n - 1) * 2 ^ k) = x / 2 ^ k % 2 ^ n * 2 ^ k := by
  apply Nat.eq_of_testBit_eq
  intro i
  rw [Nat.testBit_and, Nat.testBit_mul_two_pow, Nat.testBit_mul_two_pow,
    Nat.testBit_two_pow_sub_one, Nat.testBit_mod_two_pow, Nat.testBit_div_two_pow]
  by_cases hi : k ≤ i
  · rw [Nat.sub_add_cancel hi]
    simp only [hi, decide_true, Bool.true_and]
    rw [Bool.and_comm]
  · simp [hi]

end Pci
end Bab750
