import Mathlib.Order.Basic

/-!
# A row of cuts

Numbers that cut a range into pieces: the piece of a number, and what the order of the
cuts says about the pieces.
-/

namespace Bab750
namespace Foundation

def Ascending (cut : Nat -> Nat) (n : Nat) : Prop :=
  forall i, i < n -> cut i < cut (i + 1)

/-- A number between the first cut and the last one lies in a piece. -/
theorem exists_piece {cut : Nat -> Nat} {n x : Nat} (hfirst : cut 0 <= x) (hlast : x < cut n) :
    exists i, i < n ∧ cut i <= x ∧ x < cut (i + 1) := by
  induction n with
  | zero =>
      omega
  | succ n ih =>
      cases Nat.lt_or_ge x (cut n) with
      | inl hlt =>
          rcases ih hlt with ⟨i, hi, hpiece⟩
          exact ⟨i, by omega, hpiece⟩
      | inr hle =>
          exact ⟨n, by omega, hle, hlast⟩

theorem Ascending.le {cut : Nat -> Nat} {n : Nat} (h : Ascending cut n) {i j : Nat}
    (hij : i <= j) (hj : j <= n) : cut i <= cut j := by
  induction j with
  | zero =>
      exact Nat.le_of_eq (congrArg cut (Nat.le_zero.mp hij))
  | succ j ih =>
      cases Nat.eq_or_lt_of_le hij with
      | inl heq =>
          exact Nat.le_of_eq (congrArg cut heq)
      | inr hlt =>
          have hbefore := ih (by omega) (by omega)
          have hstep := h j (by omega)
          omega

/-- A cut in front of the end of a piece is not behind the piece. -/
theorem Ascending.index_le {cut : Nat -> Nat} {n : Nat} (h : Ascending cut n) {i j : Nat}
    (hi : i <= n) (hlt : cut i < cut (j + 1)) : i <= j := by
  apply Nat.le_of_not_lt
  intro hji
  have hle := h.le (show j + 1 <= i from hji) hi
  omega

end Foundation
end Bab750
