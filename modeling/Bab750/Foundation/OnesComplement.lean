import Mathlib.Algebra.Order.BigOperators.Group.Finset
import Mathlib.Data.Nat.ModEq
import Mathlib.Tactic.Common

/-!
# Sums with end-around carry

A sum of words modulo one less than the number of words: what is carried out at the
top comes back in at the bottom.  A sum that is zero notices every change of one
word by a smaller amount.
-/

namespace Bab750
namespace Foundation

/-- The upper part of a sum added to its lower part. -/
def foldCarry (base x : Nat) : Nat := x % base + x / base

theorem foldCarry_mod {base : Nat} (h : 0 < base) (x : Nat) :
    foldCarry base x % (base - 1) = x % (base - 1) := by
  have hbase : base = (base - 1) + 1 := by omega
  have hx : x = foldCarry base x + (base - 1) * (x / base) := by
    have hdiv := Nat.mod_add_div x base
    have hsplit : base * (x / base) = (base - 1) * (x / base) + x / base := by
      rw [← Nat.succ_mul, Nat.succ_eq_add_one, ← hbase]
    unfold foldCarry
    omega
  conv_rhs => rw [hx]
  rw [Nat.add_mul_mod_self_left]

theorem foldCarry_lt {base x : Nat} (h : x < 2 * base - 1) : foldCarry base x < base := by
  unfold foldCarry
  rcases Nat.lt_or_ge x base with hsmall | hlarge
  · rw [Nat.mod_eq_of_lt hsmall, Nat.div_eq_of_lt hsmall]
    exact hsmall
  · have hdiv : x / base = 1 := by
      rw [Nat.div_eq_iff (by omega)]
      omega
    have hmod := Nat.mod_add_div x base
    rw [hdiv] at hmod ⊢
    omega

def wordSum (word : Nat -> Nat) (count : Nat) : Nat :=
  (Finset.range count).sum word

theorem wordSum_congr {first second : Nat -> Nat} {count : Nat}
    (h : forall i, i < count -> first i = second i) :
    wordSum first count = wordSum second count :=
  Finset.sum_congr rfl (fun i hi => h i (Finset.mem_range.mp hi))

theorem wordSum_le {word : Nat -> Nat} {most : Nat} (h : forall i, word i <= most)
    (count : Nat) : wordSum word count <= count * most := by
  have hle := Finset.sum_le_card_nsmul (Finset.range count) word most (fun i _ => h i)
  rw [Finset.card_range, nsmul_eq_mul, Nat.cast_id] at hle
  exact hle

theorem wordSum_replace {first second : Nat -> Nat} {count k : Nat} (hk : k < count)
    (h : forall i, i < count -> i ≠ k -> first i = second i) :
    wordSum first count + second k = wordSum second count + first k := by
  have hmem : k ∈ Finset.range count := Finset.mem_range.mpr hk
  have hrest : ((Finset.range count).erase k).sum first =
      ((Finset.range count).erase k).sum second := by
    refine Finset.sum_congr rfl (fun i hi => ?_)
    rcases Finset.mem_erase.mp hi with ⟨hne, hrange⟩
    exact h i (Finset.mem_range.mp hrange) hne
  unfold wordSum
  rw [← Finset.add_sum_erase _ first hmem, ← Finset.add_sum_erase _ second hmem, hrest]
  have hswap : forall a b c : Nat, a + b + c = c + b + a := by omega
  exact hswap _ _ _

/-- A change of one word by less than the modulus turns a zero sum into another one. -/
theorem wordSum_detects {first second : Nat -> Nat} {count k base d : Nat}
    (hk : k < count) (h : forall i, i < count -> i ≠ k -> first i = second i)
    (hd : 0 < d ∧ d < base) (hchange : second k = first k + d ∨ first k = second k + d)
    (hzero : wordSum first count % base = 0) : wordSum second count % base ≠ 0 := by
  have hreplace := wordSum_replace hk h
  intro hsecond
  have hfirstDvd := Nat.dvd_of_mod_eq_zero hzero
  have hsecondDvd := Nat.dvd_of_mod_eq_zero hsecond
  have hdvd : base ∣ d := by
    rcases hchange with hup | hdown
    · have hsum : wordSum second count = wordSum first count + d := by omega
      rw [hsum] at hsecondDvd
      exact (Nat.dvd_add_right hfirstDvd).mp hsecondDvd
    · have hsum : wordSum first count = wordSum second count + d := by omega
      rw [hsum] at hfirstDvd
      exact (Nat.dvd_add_right hsecondDvd).mp hfirstDvd
  have hle := Nat.le_of_dvd hd.left hdvd
  omega

end Foundation
end Bab750
