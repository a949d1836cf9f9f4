import Bab750.Support.Vsprintf
import Mathlib.Data.Nat.Digits.Lemmas

/-!
# The digits of a number

The shifts and products of `put_dec` are divisions by ten, and what `number` writes is read back
by `simple_strtoul`.
-/

namespace Bab750
namespace Support

open Foundation

/-!
# Division by ten
-/

theorem tenth_1029 {n : Nat} (h : n < 1029) : (n * 0xcd) >>> 11 = n / 10 := by
  have hall : forall m, m < 1029 -> (m * 0xcd) >>> 11 = m / 10 := by decide +kernel
  exact hall n h

theorem tenth_69 {n : Nat} (h : n < 69) : (n * 0xd) >>> 7 = n / 10 := by
  have hall : forall m, m < 69 -> (m * 0xd) >>> 7 = m / 10 := by decide +kernel
  exact hall n h

theorem nibble (q k : Nat) : (q >>> k) &&& 0xf = q / 2 ^ k % 16 := by
  rw [Nat.shiftRight_eq_div_pow]
  exact Nat.and_two_pow_sub_one_eq_mod (q / 2 ^ k) 4

theorem decimal_nibbles {d0 d1 d2 d3 q1 q2 q3 : Nat}
    (hq1 : (6 * (d3 + d2 + d1) + d0) / 10 = q1) (hq2 : (q1 + 9 * d3 + 5 * d2 + d1) / 10 = q2)
    (hq3 : (q2 + 2 * d2) / 10 = q3) {q : Nat}
    (hq : q = 4096 * d3 + 256 * d2 + 16 * d1 + d0) :
    q / 10 = q1 + 9 * d3 + 5 * d2 + d1 + 20 * d2 + 400 * d3 ∧
      q / 100 = q2 + 2 * d2 + 40 * d3 ∧ q / 1000 = q3 + 4 * d3 := by
  have h1 : q / 10 = q1 + 9 * d3 + 5 * d2 + d1 + 20 * d2 + 400 * d3 := by omega
  have h2 : q / 10 / 10 = q2 + 2 * d2 + 40 * d3 := by
    rw [h1]
    omega
  have h3 : q / 10 / 10 / 10 = q3 + 4 * d3 := by
    rw [h2]
    omega
  rw [Nat.div_div_eq_div_mul] at h2 h3
  rw [Nat.div_div_eq_div_mul] at h3
  exact ⟨h1, h2, h3⟩

theorem nibbles_sum {q : Nat} :
    q = 4096 * (q / 2 ^ 12) + 256 * (q / 2 ^ 8 % 16) + 16 * (q / 2 ^ 4 % 16) + q % 16 := by
  omega

theorem putDecFull_eq {q : Nat} (hq : q < 100000) :
    putDecFull q = [decimalDigit (q % 10), decimalDigit (q / 10 % 10),
      decimalDigit (q / 100 % 10), decimalDigit (q / 1000 % 10), decimalDigit (q / 10000)] := by
  have hlow : q &&& 0xf = q % 16 := Nat.and_two_pow_sub_one_eq_mod q 4
  have hsum := @nibbles_sum q
  have hd1 : q / 2 ^ 4 % 16 < 16 := Nat.mod_lt _ (by decide)
  have hd2 : q / 2 ^ 8 % 16 < 16 := Nat.mod_lt _ (by decide)
  have hd3 : q / 2 ^ 12 < 25 := by omega
  have hd0 : q % 16 < 16 := Nat.mod_lt _ (by decide)
  unfold putDecFull
  rw [nibble, nibble, hlow, Nat.shiftRight_eq_div_pow q 12]
  dsimp only
  generalize q / 2 ^ 4 % 16 = d1 at *
  generalize q / 2 ^ 8 % 16 = d2 at *
  generalize q / 2 ^ 12 = d3 at *
  generalize q % 16 = d0 at *
  rw [tenth_1029 (show 6 * (d3 + d2 + d1) + d0 < 1029 by omega)]
  generalize hq1 : (6 * (d3 + d2 + d1) + d0) / 10 = q1
  rw [tenth_1029 (show q1 + 9 * d3 + 5 * d2 + d1 < 1029 by omega)]
  generalize hq2 : (q1 + 9 * d3 + 5 * d2 + d1) / 10 = q2
  rw [tenth_69 (show q2 + 2 * d2 < 69 by omega)]
  generalize hq3 : (q2 + 2 * d2) / 10 = q3
  rw [tenth_1029 (show q3 + 4 * d3 < 1029 by omega)]
  rcases decimal_nibbles hq1 hq2 hq3 hsum with ⟨h10, h100, h1000⟩
  have h0 : 6 * (d3 + d2 + d1) + d0 - 10 * q1 = q % 10 := by omega
  have h1 : q1 + 9 * d3 + 5 * d2 + d1 - 10 * q2 = q / 10 % 10 := by
    rw [h10]
    omega
  have h2 : q2 + 2 * d2 - 10 * q3 = q / 100 % 10 := by
    rw [h100]
    omega
  have h4 : (q3 + 4 * d3) / 10 = q / 10000 := by
    rw [← h1000, Nat.div_div_eq_div_mul]
  have h3 : q3 + 4 * d3 - 10 * ((q3 + 4 * d3) / 10) = q / 1000 % 10 := by
    rw [h1000]
    omega
  rw [h0, h1, h2, h3, h4]

theorem putDecTrunc_eq {q : Nat} (hq : q < 100000) :
    putDecTrunc q = decimalDigit (q % 10) :: if q / 10 = 0 then [] else
      decimalDigit (q / 10 % 10) :: if q / 100 = 0 then [] else
        decimalDigit (q / 100 % 10) :: if q / 1000 = 0 then [] else
          decimalDigit (q / 1000 % 10) :: if q / 10000 = 0 then [] else
            [decimalDigit (q / 10000)] := by
  have hlow : q &&& 0xf = q % 16 := Nat.and_two_pow_sub_one_eq_mod q 4
  have hsum := @nibbles_sum q
  have hd1 : q / 2 ^ 4 % 16 < 16 := Nat.mod_lt _ (by decide)
  have hd2 : q / 2 ^ 8 % 16 < 16 := Nat.mod_lt _ (by decide)
  have hd3 : q / 2 ^ 12 < 25 := by omega
  have hd0 : q % 16 < 16 := Nat.mod_lt _ (by decide)
  unfold putDecTrunc
  rw [nibble, nibble, hlow, Nat.shiftRight_eq_div_pow q 12]
  dsimp only
  generalize q / 2 ^ 4 % 16 = d1 at *
  generalize q / 2 ^ 8 % 16 = d2 at *
  generalize q / 2 ^ 12 = d3 at *
  generalize q % 16 = d0 at *
  rw [tenth_1029 (show 6 * (d3 + d2 + d1) + d0 < 1029 by omega)]
  generalize hq1 : (6 * (d3 + d2 + d1) + d0) / 10 = q1
  rw [tenth_1029 (show q1 + 9 * d3 + 5 * d2 + d1 < 1029 by omega)]
  generalize hq2 : (q1 + 9 * d3 + 5 * d2 + d1) / 10 = q2
  rw [tenth_69 (show q2 + 2 * d2 < 69 by omega)]
  generalize hq3 : (q2 + 2 * d2) / 10 = q3
  rw [tenth_1029 (show q3 + 4 * d3 < 1029 by omega)]
  rcases decimal_nibbles hq1 hq2 hq3 hsum with ⟨h10, h100, h1000⟩
  have h0 : 6 * (d3 + d2 + d1) + d0 - 10 * q1 = q % 10 := by omega
  have h1 : q1 + 9 * d3 + 5 * d2 + d1 - 10 * q2 = q / 10 % 10 := by
    rw [h10]
    omega
  have h2 : q2 + 2 * d2 - 10 * q3 = q / 100 % 10 := by
    rw [h100]
    omega
  have h4 : (q3 + 4 * d3) / 10 = q / 10000 := by
    rw [← h1000, Nat.div_div_eq_div_mul]
  have h3 : q3 + 4 * d3 - 10 * ((q3 + 4 * d3) / 10) = q / 1000 % 10 := by
    rw [h1000]
    omega
  rw [h0, h1, h2, h3, h4, ← h1000]
  congr 1
  by_cases htens : q / 10 = 0
  · rw [if_pos htens, if_pos (by omega)]
  · rw [if_neg htens, if_neg (by omega)]
    congr 1
    by_cases hhundreds : q / 100 = 0
    · rw [if_pos hhundreds, if_pos (by omega)]
    · rw [if_neg hhundreds, if_neg (by omega)]

/-- The digits of a number, the last one first, with one digit for zero. -/
def digitList (base n : Nat) : List Nat := if n = 0 then [0] else Nat.digits base n

theorem digits_step {n : Nat} (h : n ≠ 0) :
    Nat.digits 10 n = n % 10 :: Nat.digits 10 (n / 10) :=
  Nat.digits_def' (by decide) (Nat.pos_of_ne_zero h)

theorem putDecTrunc_digits {q : Nat} (hq : q < 100000) :
    putDecTrunc q = (digitList 10 q).map decimalDigit := by
  have hten := Nat.div_div_eq_div_mul q 10 10
  have hhundred := Nat.div_div_eq_div_mul q 100 10
  have hthousand := Nat.div_div_eq_div_mul q 1000 10
  rw [putDecTrunc_eq hq]
  unfold digitList
  by_cases hzero : q = 0
  · rw [hzero]
    rfl
  · rw [if_neg hzero, digits_step hzero, List.map_cons]
    congr 1
    by_cases h1 : q / 10 = 0
    · rw [if_pos h1, h1]
      rfl
    · rw [if_neg h1, digits_step h1, List.map_cons, hten]
      congr 1
      by_cases h2 : q / 100 = 0
      · rw [if_pos h2, h2]
        rfl
      · rw [if_neg h2, digits_step h2, List.map_cons, hhundred]
        congr 1
        by_cases h3 : q / 1000 = 0
        · rw [if_pos h3, h3]
          rfl
        · rw [if_neg h3, digits_step h3, List.map_cons, hthousand]
          congr 1
          by_cases h4 : q / 10000 = 0
          · rw [if_pos h4, h4]
            rfl
          · have hlast : q / 10000 < 10 := by omega
            rw [if_neg h4, Nat.digits_of_lt 10 _ h4 hlast]
            rfl

theorem putDec_digits (num : Nat) : putDec num = (digitList 10 num).map decimalDigit := by
  induction num using Nat.strongRecOn with
  | ind num ih =>
      unfold putDec
      split
      case isTrue hsmall => exact putDecTrunc_digits hsmall
      case isFalse hlarge =>
          have hrest : num / 100000 ≠ 0 := by omega
          have hfive : num % 100000 / 10000 = num / 10000 % 10 := by omega
          have hdigits : Nat.digits 10 num = [num % 10, num / 10 % 10, num / 100 % 10,
              num / 1000 % 10, num / 10000 % 10] ++ Nat.digits 10 (num / 100000) := by
            rw [digits_step (by omega), digits_step (by omega), digits_step (by omega),
              digits_step (by omega), digits_step (by omega)]
            simp only [Nat.div_div_eq_div_mul]
            rfl
          rw [ih _ (by omega), putDecFull_eq (Nat.mod_lt _ (by decide)), hfive]
          unfold digitList
          rw [if_neg hrest, if_neg (by omega), hdigits, List.map_append]
          have h0 : num % 100000 % 10 = num % 10 := by omega
          have h1 : num % 100000 / 10 % 10 = num / 10 % 10 := by omega
          have h2 : num % 100000 / 100 % 10 = num / 100 % 10 := by omega
          have h3 : num % 100000 / 1000 % 10 = num / 1000 % 10 := by omega
          rw [h0, h1, h2, h3]
          rfl

/-!
# The digits of `number`
-/

def numberDigit (type : Flags) (d : Nat) : Byte := digits.getD d 0#8 ||| type.locase

/-- The bases that `number` is called with. -/
def IsBase (base : Nat) : Prop := base = 8 ∨ base = 10 ∨ base = 16

theorem numberDigit_decimal (type : Flags) {d : Nat} (hd : d < 10) :
    numberDigit type d = decimalDigit d := by
  have hall : forall (small : Bool) (e : Nat), e < 10 ->
      digits.getD e 0#8 ||| (if small then 0x20#8 else 0#8) = decimalDigit e := by decide
  exact hall type.small d hd

theorem numberDigit_value (type : Flags) {d : Nat} (hd : d < 16) :
    isXDigit (numberDigit type d) = true ∧ digitValue (numberDigit type d) = d ∧
      numberDigit type d ≠ 0x78#8 ∧ numberDigit type d ≠ 0x20#8 := by
  have hall : forall (small : Bool) (e : Nat), e < 16 ->
      isXDigit (digits.getD e 0#8 ||| (if small then 0x20#8 else 0#8)) = true ∧
        digitValue (digits.getD e 0#8 ||| (if small then 0x20#8 else 0#8)) = e ∧
        digits.getD e 0#8 ||| (if small then 0x20#8 else 0#8) ≠ 0x78#8 ∧
        digits.getD e 0#8 ||| (if small then 0x20#8 else 0#8) ≠ 0x20#8 := by decide
  exact hall type.small d hd

theorem shiftDigits_eq (type : Flags) {shift : Nat} (hshift : shift = 3 ∨ shift = 4)
    (fuel : Nat) :
    forall num : BitVec 64, num ≠ 0#64 -> num.toNat < 2 ^ fuel ->
      shiftDigits (BitVec.ofNat 8 (2 ^ shift - 1)) shift type.locase fuel num =
        (Nat.digits (2 ^ shift) num.toNat).map (numberDigit type) := by
  have hbase : 1 < 2 ^ shift := by
    rcases hshift with rfl | rfl <;> decide
  induction fuel with
  | zero =>
      intro num hne hlt
      have hzero : num.toNat = 0 := Nat.lt_one_iff.mp hlt
      exact absurd (BitVec.eq_of_toNat_eq hzero) hne
  | succ fuel ih =>
      intro num hne hlt
      have hpos : 0 < num.toNat :=
        Nat.pos_of_ne_zero (fun h => hne (BitVec.eq_of_toNat_eq h))
      have hdigit : (num.setWidth 8 &&& BitVec.ofNat 8 (2 ^ shift - 1)).toNat =
          num.toNat % 2 ^ shift := by
        rw [BitVec.toNat_and, BitVec.toNat_setWidth, BitVec.toNat_ofNat]
        rcases hshift with rfl | rfl
        · rw [Nat.mod_eq_of_lt (show 2 ^ 3 - 1 < 2 ^ 8 by decide), Nat.and_two_pow_sub_one_eq_mod]
          omega
        · rw [Nat.mod_eq_of_lt (show 2 ^ 4 - 1 < 2 ^ 8 by decide), Nat.and_two_pow_sub_one_eq_mod]
          omega
      have hnext : (num >>> shift).toNat = num.toNat / 2 ^ shift := by
        rw [BitVec.toNat_ushiftRight, Nat.shiftRight_eq_div_pow]
      unfold shiftDigits
      rw [hdigit, Nat.digits_def' hbase hpos, List.map_cons]
      congr 1
      by_cases hrest : num >>> shift = 0#64
      · have hzero : num.toNat / 2 ^ shift = 0 := by
          rw [← hnext, hrest]
          rfl
        rw [if_pos hrest, hzero, Nat.digits_zero]
        rfl
      · have hhalf : num.toNat / 2 ^ shift < 2 ^ fuel := by
          have hle : num.toNat / 2 ^ shift ≤ num.toNat / 2 :=
            Nat.div_le_div_left (by rcases hshift with rfl | rfl <;> decide) (by decide)
          rw [Nat.pow_succ] at hlt
          omega
        rw [if_neg hrest, ih _ hrest (by rw [hnext]; exact hhalf), hnext]

theorem digitList_lt {base n d : Nat} (hbase : 1 < base) (h : d ∈ digitList base n) :
    d < base := by
  unfold digitList at h
  split at h
  · rw [List.mem_singleton.mp h]
    exact Nat.lt_of_succ_lt hbase
  · exact Nat.digits_lt_base hbase h

theorem digitList_ne_nil (base n : Nat) : digitList base n ≠ [] := by
  unfold digitList
  split
  case isTrue => exact List.cons_ne_nil 0 []
  case isFalse h => exact Nat.digits_ne_nil_iff_ne_zero.mpr h

theorem reversedDigits_eq (num : BitVec 64) {base : Nat} (hbase : IsBase base) (type : Flags) :
    reversedDigits num base type = (digitList base num.toNat).map (numberDigit type) := by
  unfold reversedDigits
  by_cases hzero : num = 0#64
  · have hall : forall small : Bool,
        0x30#8 = digits.getD 0 0#8 ||| (if small then 0x20#8 else 0#8) := by decide
    rw [if_pos hzero, hzero]
    exact congrArg (fun c => [c]) (hall type.small)
  · have hne : num.toNat ≠ 0 := fun h => hzero (BitVec.eq_of_toNat_eq h)
    rw [if_neg hzero]
    rcases hbase with rfl | rfl | rfl
    · have hshift := shiftDigits_eq type (Or.inl rfl) 64 num hzero num.isLt
      unfold digitList
      rw [if_neg hne, if_pos (by decide), if_neg (by decide)]
      exact hshift
    · rw [if_neg (by decide), putDec_digits]
      apply List.map_congr_left
      intro d hd
      exact (numberDigit_decimal type (digitList_lt (by decide) hd)).symm
    · have hshift := shiftDigits_eq type (Or.inr rfl) 64 num hzero num.isLt
      unfold digitList
      rw [if_neg hne, if_pos (by decide), if_pos rfl]
      exact hshift

/-!
# What `number` writes
-/

theorem padding_rest (c : Byte) (size : Int) : (padding c size).2.toNat = 0 := by
  unfold padding
  dsimp only
  split <;> omega

theorem padding_done {c : Byte} {size : Int} (h : size.toNat = 0) : (padding c size).1 = [] := by
  unfold padding
  rw [h]
  rfl

def leastWidth (num : BitVec 64) (base : Nat) (precision : Int) (type : Flags) : Nat :=
  (signOf num type).toList.length + (pfxOf base type).length +
    max precision.toNat (digitList base (magnitude num type).toNat).length

/-- The sign, the prefix, and the digits, between spaces, with zeros in front of the digits. -/
theorem number_shape (num : BitVec 64) {base : Nat} (hbase : IsBase base) (size precision : Int)
    (type : Flags) :
    exists front zeros back, number num base size precision type =
        List.replicate front 0x20#8 ++ (signOf num type).toList ++ pfxOf base type ++
          (List.replicate zeros 0x30#8 ++
            ((digitList base (magnitude num type).toNat).map (numberDigit type)).reverse) ++
          List.replicate back 0x20#8 ∧
      front + (signOf num type).toList.length + (pfxOf base type).length +
          (zeros + (digitList base (magnitude num type).toNat).length) + back =
        max size.toNat (leastWidth num base precision type) := by
  have hdigits : (digitList base (magnitude num type).toNat).length =
      ((digitList base (magnitude num type).toNat).map (numberDigit type)).length := by
    rw [List.length_map]
  unfold number leastWidth
  rw [hdigits, reversedDigits_eq _ hbase]
  dsimp only
  generalize (digitList base (magnitude num type).toNat).map (numberDigit type) = tmp
  generalize (signOf num type).toList = sign
  generalize pfxOf base type = pfx
  generalize hwide : (if precision < (tmp.length : Int) then (tmp.length : Int) else precision) =
    wide
  have hmore : (wide - tmp.length).toNat + tmp.length = max precision.toNat tmp.length := by
    split at hwide <;> omega
  generalize hroom : size - sign.length - pfx.length - wide = room
  have hwidth : room.toNat + sign.length + pfx.length + max precision.toNat tmp.length =
      max size.toNat (sign.length + pfx.length + max precision.toNat tmp.length) := by
    split at hwide <;> omega
  generalize (wide - tmp.length).toNat = more at hmore
  by_cases hleft : type.left = true
  · refine ⟨0, more, room.toNat, ?_, by omega⟩
    simp [hleft, padding]
  · have hright : type.left = false := Bool.eq_false_iff.mpr hleft
    by_cases hzero : type.zeropad = true
    · refine ⟨0, room.toNat + more, 0, ?_, by omega⟩
      have hlast : (padding 0x20#8 (padding 0x30#8 room).2).1 = [] :=
        padding_done (padding_rest 0x30#8 room)
      simp only [hright, hzero, Bool.not_false, Bool.and_true, Bool.true_or, if_true, if_false,
        Bool.false_eq_true, hlast, List.append_nil, List.nil_append, List.replicate_zero]
      rw [List.replicate_add]
      simp only [padding, List.append_assoc]
    · have hblank : type.zeropad = false := Bool.eq_false_iff.mpr hzero
      refine ⟨room.toNat, more, 0, ?_, by omega⟩
      have hinner : (padding 0x20#8 (padding 0x20#8 room).2).1 = [] :=
        padding_done (padding_rest 0x20#8 room)
      have hlast : (padding 0x20#8 (padding 0x20#8 (padding 0x20#8 room).2).2).1 = [] :=
        padding_done (padding_rest 0x20#8 _)
      simp only [hright, hblank, Bool.not_false, Bool.and_true, Bool.or_false, if_false,
        Bool.false_eq_true, hinner, hlast, List.append_nil, List.replicate_zero]
      simp only [padding, List.append_assoc]

/-- `number` fills the field, and goes beyond it only as far as it has to. -/
theorem number_length (num : BitVec 64) {base : Nat} (hbase : IsBase base) (size precision : Int)
    (type : Flags) :
    (number num base size precision type).length =
      max size.toNat (leastWidth num base precision type) := by
  rcases number_shape num hbase size precision type with ⟨front, zeros, back, htext, hwidth⟩
  rw [htext, ← hwidth]
  simp only [List.length_append, List.length_replicate, List.length_reverse, List.length_map]

/-!
# Reading a number back
-/

theorem strtoulDigits_numberDigits (type : Flags) {base : Nat} (hbase : base ≤ 16)
    (ds : List Nat) :
    forall (r : Nat) (rest : List Byte), (forall d, d ∈ ds -> d < base) ->
      strtoulDigits base (BitVec.ofNat 32 r) ((ds.map (numberDigit type)).reverse ++ rest) =
        strtoulDigits base
          (BitVec.ofNat 32 (r * base ^ ds.length + Nat.ofDigits base ds)) rest := by
  induction ds with
  | nil =>
      intro r rest _
      rw [List.length_nil, Nat.pow_zero, Nat.mul_one, Nat.ofDigits_nil]
      rfl
  | cons d ds ih =>
      intro r rest hds
      have hd := hds d List.mem_cons_self
      rcases numberDigit_value type (Nat.lt_of_lt_of_le hd hbase) with ⟨hx, hvalue, _, _⟩
      rw [List.map_cons, List.reverse_cons, List.append_assoc, ih r _
        (fun e he => hds e (List.mem_cons_of_mem d he)), List.singleton_append, strtoulDigits, hx,
        hvalue, decide_eq_true hd, Nat.ofDigits_cons, List.length_cons]
      simp only [Bool.and_self, if_true]
      congr 1
      rw [← BitVec.ofNat_mul, ← BitVec.ofNat_add]
      congr 1
      rw [Nat.pow_succ]
      ring

theorem ofDigits_digitList (base n : Nat) : Nat.ofDigits base (digitList base n) = n := by
  unfold digitList
  split
  case isTrue h =>
      rw [h]
      rfl
  case isFalse => exact Nat.ofDigits_digits base n

theorem strtoulDigits_zeros {base : Nat} (hbase : 0 < base) (zeros : Nat) (rest : List Byte) :
    strtoulDigits base 0#32 (List.replicate zeros 0x30#8 ++ rest) =
      strtoulDigits base 0#32 rest := by
  induction zeros with
  | zero => rfl
  | succ zeros ih =>
      have hx : isXDigit 0x30#8 = true := rfl
      have hvalue : digitValue 0x30#8 = 0 := rfl
      rw [List.replicate_succ, List.cons_append, strtoulDigits, hx, hvalue,
        decide_eq_true hbase, Bool.and_self, if_pos rfl, BitVec.zero_mul, BitVec.add_zero, ih]

theorem strtoulDigits_spaces (base : Nat) (r : BitVec 32) (back : Nat) :
    strtoulDigits base r (List.replicate back 0x20#8) = (r, List.replicate back 0x20#8) := by
  cases back with
  | zero => rfl
  | succ back => rfl

/-- The digits of a number, with zeros in front of them and spaces behind. -/
def numberBody (type : Flags) (base zeros back n : Nat) : List Byte :=
  List.replicate zeros 0x30#8 ++ ((digitList base n).map (numberDigit type)).reverse ++
    List.replicate back 0x20#8

variable {type : Flags} {base zeros back n : Nat}

theorem strtoulDigits_body (hbase : IsBase base) :
    strtoulDigits base 0#32 (numberBody type base zeros back n) =
      (BitVec.ofNat 32 n, List.replicate back 0x20#8) := by
  have hone : 1 < base := by
    rcases hbase with rfl | rfl | rfl <;> decide
  have hle : base ≤ 16 := by
    rcases hbase with rfl | rfl | rfl <;> decide
  have hread := strtoulDigits_numberDigits type hle (digitList base n) 0
    (List.replicate back 0x20#8) (fun d hd => digitList_lt hone hd)
  unfold numberBody
  rw [List.append_assoc, strtoulDigits_zeros (Nat.lt_of_succ_lt hone)]
  refine hread.trans ?_
  rw [Nat.zero_mul, Nat.zero_add, ofDigits_digitList, strtoulDigits_spaces]

theorem numberBody_chars (hbase : IsBase base) {c : Byte}
    (h : c ∈ numberBody type base zeros back n) : c ≠ 0x78#8 := by
  have hone : 1 < base := by
    rcases hbase with rfl | rfl | rfl <;> decide
  have hle : base ≤ 16 := by
    rcases hbase with rfl | rfl | rfl <;> decide
  unfold numberBody at h
  rw [List.mem_append, List.mem_append, List.mem_reverse, List.mem_map] at h
  rcases h with (hzero | ⟨d, hd, rfl⟩) | hspace
  · rw [(List.mem_replicate.mp hzero).2]
    decide
  · exact (numberDigit_value type (Nat.lt_of_lt_of_le (digitList_lt hone hd) hle)).2.2.1
  · rw [(List.mem_replicate.mp hspace).2]
    decide

theorem numberBody_head (hbase : IsBase base) :
    exists c rest, numberBody type base zeros back n = c :: rest ∧ isXDigit c = true ∧
      c ≠ 0x20#8 ∧ c ≠ 0x2d#8 := by
  have hone : 1 < base := by
    rcases hbase with rfl | rfl | rfl <;> decide
  have hle : base ≤ 16 := by
    rcases hbase with rfl | rfl | rfl <;> decide
  have hsign : isXDigit 0x2d#8 = false := rfl
  unfold numberBody
  cases zeros with
  | succ zeros => exact ⟨0x30#8, _, rfl, rfl, by decide, by decide⟩
  | zero =>
      have hne := digitList_ne_nil base n
      rcases List.eq_nil_or_concat (digitList base n) with hnil | ⟨ds, d, hds⟩
      · exact absurd hnil hne
      · have hd : d < base := by
          refine digitList_lt (n := n) hone ?_
          rw [hds, List.concat_eq_append]
          exact List.mem_append_right _ List.mem_cons_self
        rcases numberDigit_value type (Nat.lt_of_lt_of_le hd hle) with ⟨hx, _, _, hspace⟩
        have hminus : numberDigit type d ≠ 0x2d#8 := by
          intro heq
          rw [heq, hsign] at hx
          cases hx
        rw [hds, List.concat_eq_append, List.map_append, List.reverse_append]
        exact ⟨numberDigit type d, _, rfl, hx, hspace, hminus⟩

theorem simpleStrtoul_plain (hbase : 0 < base) {text : List Byte}
    (htext : forall c, c ∈ text -> c ≠ 0x78#8) :
    simpleStrtoul text base = strtoulDigits base 0#32 text := by
  by_cases hzero : text.head? = some 0x30#8
  · cases text with
    | nil => cases hzero
    | cons c rest =>
        have hc : c = 0x30#8 := Option.some.inj hzero
        subst hc
        have hpre : strtoulPrefix base (0x30#8 :: rest) = (base, rest) := by
          unfold strtoulPrefix
          split
          case h_1 heq =>
              rw [(List.cons.inj heq).2] at htext
              exact absurd rfl (htext 0x78#8 (List.mem_cons_of_mem _ List.mem_cons_self))
          case h_2 heq => rw [if_neg (Nat.ne_of_gt hbase), (List.cons.inj heq).2]
          case h_3 hnot => exact absurd rfl (hnot rest)
        unfold simpleStrtoul
        rw [hpre]
        exact (strtoulDigits_zeros hbase 1 rest).symm
  · cases text with
    | nil =>
        cases base with
        | zero => cases hbase
        | succ base => rfl
    | cons c rest =>
        have hc : c ≠ 0x30#8 := fun heq => hzero (congrArg some heq)
        unfold simpleStrtoul
        rw [strtoulPrefix_of_head (Nat.ne_of_gt hbase) hc]

/-- The prefix is one that `simple_strtoul` takes. -/
def Flags.Plain (type : Flags) (base : Nat) : Prop :=
  type.special = true -> base = 16 -> type.small = true

theorem pfxOf_plain (hbase : IsBase base) (hplain : type.Plain base) :
    pfxOf base type = [] ∨ pfxOf base type = [0x30#8] ∨
      base = 16 ∧ pfxOf base type = [0x30#8, 0x78#8] := by
  unfold pfxOf Flags.needPfx
  rcases hbase with rfl | rfl | rfl
  · by_cases hspecial : type.special = true
    · rw [hspecial]
      exact Or.inr (Or.inl rfl)
    · rw [Bool.eq_false_iff.mpr hspecial]
      exact Or.inl rfl
  · rw [show (10 != 10) = false from rfl, Bool.and_false]
    exact Or.inl rfl
  · by_cases hspecial : type.special = true
    · unfold Flags.locase
      rw [hspecial, hplain hspecial rfl]
      exact Or.inr (Or.inr ⟨rfl, rfl⟩)
    · rw [Bool.eq_false_iff.mpr hspecial]
      exact Or.inl rfl

/-- The number behind its sign is read, unless its prefix is one with a capital letter. -/
theorem simpleStrtoul_number (hbase : IsBase base) :
    simpleStrtoul (pfxOf base type ++ numberBody type base zeros back n) base =
        (BitVec.ofNat 32 n, List.replicate back 0x20#8) ∧ type.Plain base ∨
      (simpleStrtoul (pfxOf base type ++ numberBody type base zeros back n) base).2.head? =
        some 0x58#8 ∧ ¬ type.Plain base := by
  have hpos : 0 < base := by
    rcases hbase with rfl | rfl | rfl <;> decide
  by_cases hplain : type.Plain base
  · refine Or.inl ⟨?_, hplain⟩
    rcases pfxOf_plain hbase hplain with hpfx | hpfx | ⟨rfl, hpfx⟩
    · rw [hpfx, List.nil_append, simpleStrtoul_plain hpos (fun c => numberBody_chars hbase),
        strtoulDigits_body hbase]
    · have hchars : forall c, c ∈ [0x30#8] ++ numberBody type base zeros back n ->
          c ≠ 0x78#8 := by
        intro c hc
        rcases List.mem_append.mp hc with hc | hc
        · rw [List.mem_singleton.mp hc]
          decide
        · exact numberBody_chars hbase hc
      rw [hpfx, simpleStrtoul_plain hpos hchars]
      exact (strtoulDigits_zeros hpos 1 _).trans (strtoulDigits_body hbase)
    · have hread := @strtoulDigits_body type 16 zeros back n hbase
      rcases @numberBody_head type 16 zeros back n hbase with ⟨c, rest, hbody, hx, _, _⟩
      rw [hpfx]
      rw [hbody] at hread ⊢
      have hpre : strtoulPrefix 16 (0x30#8 :: 0x78#8 :: c :: rest) = (16, c :: rest) :=
        if_pos hx
      show strtoulDigits (strtoulPrefix 16 (0x30#8 :: 0x78#8 :: c :: rest)).1 0#32
        (strtoulPrefix 16 (0x30#8 :: 0x78#8 :: c :: rest)).2 = _
      rw [hpre]
      exact hread
  · refine Or.inr ⟨?_, hplain⟩
    unfold Flags.Plain at hplain
    push Not at hplain
    rcases hplain with ⟨hspecial, rfl, hsmall⟩
    have hpfx : pfxOf 16 type = [0x30#8, 0x58#8] := by
      unfold pfxOf Flags.needPfx Flags.locase
      rw [hspecial, Bool.eq_false_iff.mpr hsmall]
      rfl
    rw [hpfx]
    rfl

theorem dropSpaces {front : Nat} {rest : List Byte} (h : rest.head? ≠ some 0x20#8) :
    (List.replicate front 0x20#8 ++ rest).dropWhile (fun c => c = 0x20#8) = rest := by
  induction front with
  | zero =>
      cases rest with
      | nil => rfl
      | cons c rest =>
          have hc : c ≠ 0x20#8 := fun heq => h (congrArg some heq)
          rw [List.replicate_zero, List.nil_append,
            List.dropWhile_cons_of_neg (by simpa using hc)]
  | succ front ih => exact ih

theorem pfxBody_head (hbase : IsBase base) :
    exists c rest, pfxOf base type ++ numberBody type base zeros back n = c :: rest ∧
      c ≠ 0x20#8 ∧ c ≠ 0x2d#8 := by
  unfold pfxOf
  split
  · exact ⟨0x30#8, _, rfl, by decide, by decide⟩
  · rcases @numberBody_head type base zeros back n hbase with ⟨c, rest, hbody, _, hspace, hsign⟩
    exact ⟨c, rest, hbody, hspace, hsign⟩

theorem magnitude_neg {num : BitVec 64} (h : type.sign = true ∧ num.slt 0#64 = true) :
    - BitVec.ofNat 32 (magnitude num type).toNat = num.setWidth 32 := by
  unfold magnitude
  rw [if_pos h]
  apply BitVec.eq_of_toNat_eq
  rw [BitVec.toNat_neg, BitVec.toNat_ofNat, BitVec.toNat_neg, BitVec.toNat_setWidth]
  have hlt := num.isLt
  omega

theorem magnitude_pos {num : BitVec 64} (h : ¬ (type.sign = true ∧ num.slt 0#64 = true)) :
    BitVec.ofNat 32 (magnitude num type).toNat = num.setWidth 32 := by
  unfold magnitude
  rw [if_neg h]
  apply BitVec.eq_of_toNat_eq
  rw [BitVec.toNat_ofNat, BitVec.toNat_setWidth]

def PlusShown (num : BitVec 64) (type : Flags) : Prop :=
  type.sign = true ∧ type.plus = true ∧ ¬ num.slt 0#64 = true

theorem spaces_head (back : Nat) {c : Byte} (hc : c ≠ 0x20#8) :
    (List.replicate back 0x20#8).head? ≠ some c := by
  intro h
  have hmem := List.mem_of_mem_head? (Option.mem_def.mpr h)
  exact hc (List.mem_replicate.mp hmem).2

theorem simpleStrtol_unsigned {text : List Byte} (h : text.head? ≠ some 0x2d#8) (base : Nat) :
    simpleStrtol text base = simpleStrtoul text base := by
  unfold simpleStrtol
  split
  case h_1 => exact absurd rfl h
  case h_2 => rfl

theorem simpleStrtoul_iff (hbase : IsBase base) (r : BitVec 32) (f : BitVec 32 -> BitVec 32)
    (hr : f (BitVec.ofNat 32 n) = r) :
    (exists back',
      (f (simpleStrtoul (pfxOf base type ++ numberBody type base zeros back n) base).1,
        (simpleStrtoul (pfxOf base type ++ numberBody type base zeros back n) base).2) =
          (r, List.replicate back' 0x20#8)) <-> type.Plain base := by
  rcases @simpleStrtoul_number type base zeros back n hbase with ⟨hread, hplain⟩ | ⟨hhead, hnot⟩
  · rw [hread]
    exact ⟨fun _ => hplain, fun _ => ⟨back, by rw [hr]⟩⟩
  · refine ⟨?_, fun hplain => absurd hplain hnot⟩
    rintro ⟨back', hread⟩
    rw [(Prod.mk.inj hread).2] at hhead
    exact absurd hhead (spaces_head back' (by decide))

theorem simpleStrtol_signed {num : BitVec 64} (hbase : IsBase base) (front : Nat) :
    (exists back',
      simpleStrtol ((List.replicate front 0x20#8 ++ ((signOf num type).toList ++
        (pfxOf base type ++ numberBody type base zeros back
          (magnitude num type).toNat))).dropWhile (fun c => c = 0x20#8)) base =
        (num.setWidth 32, List.replicate back' 0x20#8)) <->
      type.Plain base ∧ ¬ PlusShown num type := by
  rcases @pfxBody_head type base zeros back (magnitude num type).toNat hbase with
    ⟨c, rest, hhead, hspace, hminus⟩
  have hdrop : forall front', (List.replicate front' 0x20#8 ++ (pfxOf base type ++
      numberBody type base zeros back (magnitude num type).toNat)).dropWhile
        (fun c => c = 0x20#8) =
          pfxOf base type ++ numberBody type base zeros back (magnitude num type).toNat := by
    intro front'
    apply dropSpaces
    rw [hhead]
    exact fun heq => hspace (Option.some.inj heq)
  have hplain : simpleStrtol (pfxOf base type ++
      numberBody type base zeros back (magnitude num type).toNat) base =
        simpleStrtoul (pfxOf base type ++
          numberBody type base zeros back (magnitude num type).toNat) base := by
    apply simpleStrtol_unsigned
    rw [hhead]
    exact fun heq => hminus (Option.some.inj heq)
  unfold PlusShown
  by_cases hsign : type.sign = true
  · by_cases hneg : num.slt 0#64 = true
    · have hminus : signOf num type = some 0x2d#8 := by
        unfold signOf
        rw [if_pos hsign, if_pos hneg]
      rw [hminus, dropSpaces (by exact fun heq => absurd (Option.some.inj heq) (by decide))]
      have hiff := @simpleStrtoul_iff type base zeros back (magnitude num type).toNat hbase
        (num.setWidth 32) (fun r => - r) (magnitude_neg ⟨hsign, hneg⟩)
      refine hiff.trans ⟨fun h => ⟨h, fun hplus => hplus.2.2 hneg⟩, fun h => h.1⟩
    · have hiff := @simpleStrtoul_iff type base zeros back (magnitude num type).toNat hbase
        (num.setWidth 32) (fun r => r) (magnitude_pos (fun h => hneg h.2))
      by_cases hplus : type.plus = true
      · have hshown : signOf num type = some 0x2b#8 := by
          unfold signOf
          rw [if_pos hsign, if_neg hneg, if_pos hplus]
        rw [hshown, dropSpaces (by exact fun heq => absurd (Option.some.inj heq) (by decide))]
        constructor
        · rintro ⟨back', hread⟩
          have hrest : 0x2b#8 :: (pfxOf base type ++
              numberBody type base zeros back (magnitude num type).toNat) =
                List.replicate back' 0x20#8 := by
            refine Eq.trans ?_ (congrArg Prod.snd hread)
            rcases hbase with rfl | rfl | rfl <;> rfl
          exact absurd (congrArg List.head? hrest).symm (spaces_head back' (by decide))
        · exact fun h => absurd ⟨hsign, hplus, hneg⟩ h.2
      · have hnone : ¬ (type.sign = true ∧ type.plus = true ∧ ¬ num.slt 0#64 = true) :=
          fun h => hplus h.2.1
        have hblank : exists front', (List.replicate front 0x20#8 ++ ((signOf num type).toList ++
            (pfxOf base type ++ numberBody type base zeros back (magnitude num type).toNat))) =
              List.replicate front' 0x20#8 ++ (pfxOf base type ++
                numberBody type base zeros back (magnitude num type).toNat) := by
          unfold signOf
          rw [if_pos hsign, if_neg hneg, if_neg hplus]
          split
          · refine ⟨front + 1, ?_⟩
            rw [List.replicate_add, List.append_assoc]
            rfl
          · exact ⟨front, rfl⟩
        rcases hblank with ⟨front', hfront⟩
        rw [hfront, hdrop, hplain]
        exact hiff.trans ⟨fun h => ⟨h, hnone⟩, fun h => h.1⟩
  · have hnone : signOf num type = none := if_neg hsign
    have hiff := @simpleStrtoul_iff type base zeros back (magnitude num type).toNat hbase
      (num.setWidth 32) (fun r => r) (magnitude_pos (fun h => hsign h.1))
    rw [hnone, Option.toList_none, List.nil_append, hdrop, hplain]
    exact hiff.trans ⟨fun h => ⟨h, fun hplus => hsign hplus.1⟩, fun h => h.1⟩

/--
A number that was written in a field is read back whole, with only spaces behind it, but not when
it has a capital `X` in front of it, or a plus sign.
-/
theorem number_read_back (num : BitVec 64) (hbase : IsBase base) (size precision : Int)
    (type : Flags) :
    (exists back, simpleStrtol
        ((number num base size precision type).dropWhile (fun c => c = 0x20#8)) base =
          (num.setWidth 32, List.replicate back 0x20#8)) <->
      type.Plain base ∧ ¬ PlusShown num type := by
  rcases number_shape num hbase size precision type with ⟨front, zeros, back, htext, _⟩
  have hiff := @simpleStrtol_signed type base zeros back num hbase front
  unfold numberBody at hiff
  rw [htext]
  simp only [List.append_assoc] at hiff ⊢
  exact hiff

theorem number_read_back_sample : exists back, simpleStrtol
    ((number 0xab#64 16 8 4 { Flags.none with left := true, small := true }).dropWhile
      (fun c => c = 0x20#8)) 16 = (0xab#32, List.replicate back 0x20#8) :=
  (number_read_back 0xab#64 (Or.inr (Or.inr rfl)) 8 4
    { Flags.none with left := true, small := true }).mpr
      ⟨fun h => absurd h (by decide), fun h => absurd h.1 (by decide)⟩

end Support
end Bab750
