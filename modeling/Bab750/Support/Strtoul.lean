import Bab750.Foundation.Bytes
import Mathlib.Data.Nat.Digits.Defs
import Mathlib.Data.BitVec

/-!
# Number parsing

`simple_strtoul` of `lib/vsprintf.c`.  The result is a 32-bit `unsigned long`
and wraps around; the rest of the text is what `*endp` points to.
-/

namespace Bab750
namespace Support

open Foundation

def isDigit (c : Byte) : Bool :=
  0x30 <= c.toNat && c.toNat <= 0x39

/-- `isxdigit`: decimal digits and the letters a to f in both cases. -/
def isXDigit (c : Byte) : Bool :=
  isDigit c || (0x41 <= c.toNat && c.toNat <= 0x46) ||
    (0x61 <= c.toNat && c.toNat <= 0x66)

def digitValue (c : Byte) : Nat :=
  if isDigit c then c.toNat - 0x30
  else if 0x61 <= c.toNat then c.toNat - 0x61 + 10
  else c.toNat - 0x41 + 10

/-- The digit loop of `simple_strtoul`. -/
def strtoulDigits (base : Nat) (result : BitVec 32) :
    List Byte -> BitVec 32 × List Byte
  | [] => (result, [])
  | c :: text =>
      if isXDigit c && digitValue c < base then
        strtoulDigits base
          (result * BitVec.ofNat 32 base + BitVec.ofNat 32 (digitValue c)) text
      else (result, c :: text)

/-- The base and the text in front of the digit loop: a leading `0x` or `0`. -/
def strtoulPrefix (base : Nat) : List Byte -> Nat × List Byte
  | 0x30#8 :: 0x78#8 :: c :: text =>
      if isXDigit c then (16, c :: text)
      else (if base = 0 then 8 else base, 0x78#8 :: c :: text)
  | 0x30#8 :: text => (if base = 0 then 8 else base, text)
  | text => (if base = 0 then 10 else base, text)

def simpleStrtoul (text : List Byte) (base : Nat) : BitVec 32 × List Byte :=
  let start := strtoulPrefix base text
  strtoulDigits start.1 0#32 start.2

example : (simpleStrtoul (ascii "19200 8n1") 10).1 = 19200#32 := by decide

example : simpleStrtoul (ascii "0x1fg") 10 = (0x1f#32, ascii "g") := by decide

/-!
# Reading a number back
-/

def hexBytes (n : Nat) : List Byte :=
  (Nat.toDigits 16 n).map (fun c => BitVec.ofNat 8 c.toNat)

theorem strtoulDigits_digit (r : BitVec 32) {d : Nat} (hd : d < 16) (rest : List Byte) :
    strtoulDigits 16 r (BitVec.ofNat 8 (Nat.digitChar d).toNat :: rest) =
      strtoulDigits 16 (r * 16#32 + BitVec.ofNat 32 d) rest := by
  have hdigit : forall e, e < 16 ->
      isXDigit (BitVec.ofNat 8 (Nat.digitChar e).toNat) = true ∧
        digitValue (BitVec.ofNat 8 (Nat.digitChar e).toNat) = e := by
    decide
  rcases hdigit d hd with ⟨hx, hvalue⟩
  rw [strtoulDigits, hx, hvalue, decide_eq_true hd]
  rfl

theorem strtoulDigits_hexBytes (n : Nat) (rest : List Byte) :
    strtoulDigits 16 0#32 (hexBytes n ++ rest) =
      strtoulDigits 16 (BitVec.ofNat 32 n) rest := by
  induction n using Nat.strongRecOn generalizing rest with
  | ind n ih =>
      unfold hexBytes
      rw [Nat.toDigits_eq_if (by decide)]
      split
      case isTrue hsmall =>
          rw [List.map_singleton, List.singleton_append, strtoulDigits_digit _ hsmall]
          congr 1
          rw [BitVec.zero_mul, BitVec.zero_add]
      case isFalse hlarge =>
          have hfront := ih (n / 16) (Nat.div_lt_self (by omega) (by decide))
          unfold hexBytes at hfront
          rw [List.map_append, List.append_assoc, hfront, List.map_singleton,
            List.singleton_append, strtoulDigits_digit _ (Nat.mod_lt n (by decide))]
          congr 1
          rw [show (16#32 : BitVec 32) = BitVec.ofNat 32 16 from rfl, ← BitVec.ofNat_mul,
            ← BitVec.ofNat_add, Nat.div_add_mod']

theorem hexBytes_head {n : Nat} (hpos : 0 < n) :
    exists c rest, hexBytes n = c :: rest ∧ c ≠ 0x30#8 := by
  have hdigit : forall d, d < 16 -> 0 < d ->
      BitVec.ofNat 8 (Nat.digitChar d).toNat ≠ 0x30#8 := by
    decide
  induction n using Nat.strongRecOn with
  | ind n ih =>
      unfold hexBytes
      rw [Nat.toDigits_eq_if (by decide)]
      split
      case isTrue hsmall =>
          exact ⟨_, [], rfl, hdigit n hsmall hpos⟩
      case isFalse hlarge =>
          rcases ih (n / 16) (Nat.div_lt_self hpos (by decide))
            (Nat.div_pos (by omega) (by decide)) with ⟨c, rest, hfront, hc⟩
          unfold hexBytes at hfront
          rw [List.map_append, hfront]
          exact ⟨c, _, rfl, hc⟩

theorem strtoulPrefix_of_head {base : Nat} (hbase : base ≠ 0) {c : Byte} (hc : c ≠ 0x30#8)
    (rest : List Byte) : strtoulPrefix base (c :: rest) = (base, c :: rest) := by
  unfold strtoulPrefix
  split
  case h_1 heq =>
      exact absurd (List.cons.inj heq).left hc
  case h_2 heq =>
      exact absurd (List.cons.inj heq).left hc
  case h_3 =>
      rw [if_neg hbase]

theorem simpleStrtoul_hexBytes {n : Nat} (hpos : 0 < n) :
    simpleStrtoul (hexBytes n) 16 = (BitVec.ofNat 32 n, []) := by
  rcases hexBytes_head hpos with ⟨c, rest, hbytes, hc⟩
  have hdigits := strtoulDigits_hexBytes n []
  rw [List.append_nil] at hdigits
  unfold simpleStrtoul
  rw [hbytes, strtoulPrefix_of_head (by decide) hc]
  rw [hbytes] at hdigits
  rw [hdigits]
  rfl

end Support
end Bab750
