import Bab750.Foundation.Bytes
import Mathlib.Data.BitVec

/-!
# Bytes as hexadecimal text

Each byte is a pair of digits, the high one first. Both cases of a letter stand for the same
digit; a printed text uses the upper case only.
-/

namespace Bab750
namespace Foundation

def lowerDigit (d : Byte) : Byte := (ascii "0123456789abcdef").getD d.toNat 0#8

def upperDigit (d : Byte) : Byte := (ascii "0123456789ABCDEF").getD d.toNat 0#8

def HexDigit (c d : Byte) : Prop :=
  d < 16#8 ∧ (c = lowerDigit d ∨ c = upperDigit d)

instance (c d : Byte) : Decidable (HexDigit c d) := by
  unfold HexDigit
  infer_instance

inductive HexText : List Byte -> List Byte -> Prop where
  | nil : HexText [] []
  | cons {high low i j : Byte} {text bytes : List Byte} (hhigh : HexDigit high i)
      (hlow : HexDigit low j) (hrest : HexText text bytes) :
      HexText (high :: low :: text) (((i <<< (4 : Nat)) + j) :: bytes)

def upperHex (bytes : List Byte) : List Byte :=
  bytes.flatMap (fun b : Byte =>
    [upperDigit ((b >>> (4 : Nat)) &&& 15#8), upperDigit (b &&& 15#8)])

theorem hexText_upperHex (bytes : List Byte) : HexText (upperHex bytes) bytes := by
  induction bytes with
  | nil =>
      exact .nil
  | cons b bytes ih =>
      have hhigh : forall b : Byte, (b >>> (4 : Nat)) &&& 15#8 < 16#8 := by decide
      have hlow : forall b : Byte, b &&& 15#8 < 16#8 := by decide
      have hbyte : forall b : Byte,
          (((b >>> (4 : Nat)) &&& 15#8) <<< (4 : Nat)) + (b &&& 15#8) = b := by
        decide
      have h := HexText.cons ⟨hhigh b, Or.inr rfl⟩ ⟨hlow b, Or.inr rfl⟩ ih
      rw [hbyte] at h
      exact h

theorem upperHex_append (bytes others : List Byte) :
    upperHex (bytes ++ others) = upperHex bytes ++ upperHex others :=
  List.flatMap_append

/-!
# The digits of a number
-/

theorem mem_toDigits {base : Nat} (hbase : 1 < base) {n : Nat} {c : Char}
    (h : c ∈ Nat.toDigits base n) : exists d, d < base ∧ c = Nat.digitChar d := by
  induction n using Nat.strongRecOn with
  | ind n ih =>
      rw [Nat.toDigits_eq_if hbase] at h
      split at h
      case isTrue hsmall =>
          exact ⟨n, hsmall, List.mem_singleton.mp h⟩
      case isFalse hlarge =>
          rcases List.mem_append.mp h with hfront | hlast
          · exact ih (n / base) (Nat.div_lt_self (by omega) hbase) hfront
          · exact ⟨n % base, Nat.mod_lt n (by omega), List.mem_singleton.mp hlast⟩

end Foundation
end Bab750
