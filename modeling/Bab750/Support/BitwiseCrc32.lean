import Bab750.Foundation.ShiftRegister
import Bab750.Support.Crc32

/-!
# CRC-32 bit by bit

`lib/crc32.c` for both byte orders: the board is big-endian, and the host that runs `mkimage` is
little-endian. Both compute the register of the reflected polynomial, one bit after the other.
-/

namespace Bab750
namespace Support

open Foundation

/-!
# The definition
-/

def crcPolynomial : BitVec 32 := 0xedb88320#32

def byteBits (b : Byte) : List Bool :=
  [b.getLsbD 0, b.getLsbD 1, b.getLsbD 2, b.getLsbD 3, b.getLsbD 4, b.getLsbD 5, b.getLsbD 6,
    b.getLsbD 7]

/-- The reflected CRC-32 of a buffer from a register on, without complements. -/
def crcBitwise (crc : BitVec 32) (buf : List Byte) : BitVec 32 :=
  feedbackBits crcPolynomial crc (buf.flatMap byteBits)

/-!
# The source, for both byte orders
-/

inductive ByteOrder where
  | little
  | big
deriving DecidableEq

/-- `cpu_to_le32` and `le32_to_cpu` -/
def cpuToLe32 (order : ByteOrder) (x : BitVec 32) : BitVec 32 :=
  match order with
  | .little => x
  | .big => tole x

/-- `p` of `make_crc_table`. -/
def crcTerms : List Nat := [0, 1, 2, 4, 5, 7, 8, 10, 11, 12, 16, 22, 23, 26]

/-- `poly` of `make_crc_table`. -/
def tablePoly : BitVec 32 :=
  crcTerms.foldl (fun poly n => poly ||| (1#32 <<< (31 - n))) 0#32

/-- The loop over the bits in `make_crc_table`. -/
def tableBits : Nat -> BitVec 32 -> BitVec 32
  | 0, c => c
  | k + 1, c => tableBits k (if c &&& 1#32 ≠ 0#32 then tablePoly ^^^ (c >>> 1) else c >>> 1)

/-- `make_crc_table`, before `tole`. -/
def makeCrcTable : List (BitVec 32) :=
  (List.range 256).map (fun n => tableBits 8 (BitVec.ofNat 32 n))

def crcTab (order : ByteOrder) (index : BitVec 32) : BitVec 32 :=
  cpuToLe32 order (crcConstants.getD index.toNat 0#32)

/-- `DO_CRC(x)` -/
def doCrcAt (order : ByteOrder) (crc x : BitVec 32) : BitVec 32 :=
  match order with
  | .little => crcTab .little ((crc ^^^ x) &&& 255#32) ^^^ (crc >>> 8)
  | .big => crcTab .big (((crc >>> 24) ^^^ x) &&& 255#32) ^^^ (crc <<< 8)

def loadWord (order : ByteOrder) (b0 b1 b2 b3 : Byte) : BitVec 32 :=
  match order with
  | .little => b3 ++ b2 ++ b1 ++ b0
  | .big => b0 ++ b1 ++ b2 ++ b3

/-- `DO_CRC(*p++)` -/
def crcByteAt (order : ByteOrder) (crc : BitVec 32) (b : Byte) : BitVec 32 :=
  doCrcAt order crc (b.setWidth 32)

def crcAlignAt (order : ByteOrder) (crc : BitVec 32) (addr : Nat) :
    List Byte -> BitVec 32 × List Byte
  | [] => (crc, [])
  | b :: rest =>
      if addr % 4 = 0 then (crc, b :: rest)
      else crcAlignAt order (crcByteAt order crc b) (addr + 1) rest

def crcWordsAt (order : ByteOrder) (crc : BitVec 32) : List Byte -> BitVec 32 × List Byte
  | b0 :: b1 :: b2 :: b3 :: rest =>
      let crc := crc ^^^ loadWord order b0 b1 b2 b3
      crcWordsAt order
        (doCrcAt order (doCrcAt order (doCrcAt order (doCrcAt order crc 0#32) 0#32) 0#32) 0#32)
        rest
  | rest => (crc, rest)

def crc32NoCompAt (order : ByteOrder) (crc : BitVec 32) (addr : Nat) (buf : List Byte) :
    BitVec 32 :=
  let aligned := crcAlignAt order (cpuToLe32 order crc) addr buf
  let words := crcWordsAt order aligned.1 aligned.2
  cpuToLe32 order (words.2.foldl (crcByteAt order) words.1)

def crc32At (order : ByteOrder) (crc : BitVec 32) (addr : Nat) (buf : List Byte) : BitVec 32 :=
  crc32NoCompAt order (crc ^^^ 0xffffffff#32) addr buf ^^^ 0xffffffff#32

/--
The loop of `crc32_wd` with a watchdog, for some passes. Pointers have 32 bits; `chunk` is an
`int`, which is compared as unsigned and moves `curr` modulo `2 ^ 32`.
-/
def crc32Chunks (order : ByteOrder) (chunkSz : BitVec 32) :
    Nat -> BitVec 32 -> Nat -> List Byte -> Option (BitVec 32)
  | _, crc, _, [] => some crc
  | 0, _, _, _ :: _ => none
  | fuel + 1, crc, addr, b :: rest =>
      let left := BitVec.ofNat 32 (b :: rest).length
      let chunk := if left > chunkSz then chunkSz else left
      crc32Chunks order chunkSz fuel (crc32At order crc addr ((b :: rest).take chunk.toNat))
        (addr + chunk.toNat) ((b :: rest).drop chunk.toNat)

/-- `crc32_wd`, with `CONFIG_HW_WATCHDOG` or `CONFIG_WATCHDOG` or without them. -/
def crc32Wd (order : ByteOrder) (watchdog : Bool) (fuel : Nat) (crc : BitVec 32) (addr : Nat)
    (buf : List Byte) (chunkSz : BitVec 32) : Option (BitVec 32) :=
  if watchdog then crc32Chunks order chunkSz fuel crc addr buf
  else some (crc32At order crc addr buf)

/-!
# The table
-/

theorem tablePoly_eq : tablePoly = crcPolynomial := by
  decide

theorem tableBits_eq (k : Nat) (c : BitVec 32) :
    tableBits k c = feedbackBits crcPolynomial c (List.replicate k false) := by
  induction k generalizing c with
  | zero =>
      rfl
  | succ k ih =>
      have hbit : (if c &&& 1#32 ≠ 0#32 then tablePoly ^^^ (c >>> 1) else c >>> 1) =
          feedbackBit crcPolynomial c false := by
        have hlow : c &&& 1#32 ≠ 0#32 <-> c.getLsbD 0 = true := by
          rw [BitVec.and_one_eq_setWidth_ofBool_getLsbD]
          cases c.getLsbD 0 <;> decide
        unfold feedbackBit
        rw [tablePoly_eq, Bool.false_bne, BitVec.xor_comm crcPolynomial]
        exact if_congr hlow rfl rfl
      rw [tableBits, ih, hbit]
      rfl

theorem crcConstants_eq : crcConstants = makeCrcTable := by
  decide +kernel

theorem crcTab_eq (order : ByteOrder) {index : BitVec 32} (h : index.toNat < 256) :
    crcTab order index =
      cpuToLe32 order (feedbackBits crcPolynomial index (List.replicate 8 false)) := by
  rw [crcTab, crcConstants_eq, makeCrcTable, List.getD_eq_getElem?_getD, List.getElem?_map,
    List.getElem?_range h, Option.map_some, Option.getD_some, tableBits_eq, BitVec.ofNat_toNat,
    BitVec.setWidth_eq]

/-!
# One byte
-/

theorem tole_getLsbD (x : BitVec 32) {i : Nat} (hi : i < 32) :
    (tole x).getLsbD i = x.getLsbD (8 * (3 - i / 8) + i % 8) := by
  simp only [tole, BitVec.getLsbD_append, BitVec.getLsbD_extractLsb']
  have hplace : i < 8 ∨ (8 <= i ∧ i < 16) ∨ (16 <= i ∧ i < 24) ∨ 24 <= i := by
    omega
  rcases hplace with h | h | h | h
  · simp [h, show 8 * (3 - i / 8) + i % 8 = 24 + i by omega]
  · simp [show ¬ i < 8 by omega, show i - 8 < 8 by omega,
      show 8 * (3 - i / 8) + i % 8 = 16 + (i - 8) by omega]
  · simp [show ¬ i < 8 by omega, show ¬ i - 8 < 8 by omega, show i - 8 - 8 < 8 by omega,
      show 8 * (3 - i / 8) + i % 8 = 8 + (i - 8 - 8) by omega]
  · simp [show ¬ i < 8 by omega, show ¬ i - 8 < 8 by omega, show ¬ i - 8 - 8 < 8 by omega,
      show i - 8 - 8 - 8 < 8 by omega, show 8 * (3 - i / 8) + i % 8 = i - 8 - 8 - 8 by omega]

theorem cpuToLe32_cpuToLe32 (order : ByteOrder) (x : BitVec 32) :
    cpuToLe32 order (cpuToLe32 order x) = x := by
  cases order with
  | little =>
      rfl
  | big =>
      apply BitVec.eq_of_getLsbD_eq
      intro i hi
      rw [cpuToLe32, cpuToLe32, tole_getLsbD _ hi, tole_getLsbD _ (by omega)]
      congr 1
      omega

theorem cpuToLe32_xor (order : ByteOrder) (x y : BitVec 32) :
    cpuToLe32 order (x ^^^ y) = cpuToLe32 order x ^^^ cpuToLe32 order y := by
  cases order with
  | little =>
      rfl
  | big =>
      apply BitVec.eq_of_getLsbD_eq
      intro i hi
      rw [cpuToLe32, cpuToLe32, cpuToLe32, BitVec.getLsbD_xor, tole_getLsbD _ hi,
        tole_getLsbD _ hi, tole_getLsbD _ hi, BitVec.getLsbD_xor]

theorem lowByte_getLsbD (i : Nat) : (255#32).getLsbD i = decide (i < 8) := by
  rw [BitVec.getLsbD_ofNat, show 255 = 2 ^ 8 - 1 from rfl, Nat.testBit_two_pow_sub_one]
  by_cases hi : i < 8
  · simp [hi, show i < 32 by omega]
  · simp [hi]

theorem feedbackBits_eight (c : BitVec 32) :
    feedbackBits crcPolynomial c (List.replicate 8 false) =
      feedbackBits crcPolynomial (c &&& 255#32) (List.replicate 8 false) ^^^ (c >>> 8) := by
  have hhigh : forall i, i < 8 -> ((c >>> 8) <<< 8).getLsbD i = false := by
    intro i hi
    simp [hi]
  have hsplit : (c &&& 255#32) ^^^ ((c >>> 8) <<< 8) = c := by
    apply BitVec.eq_of_getLsbD_eq
    intro i hi
    rw [BitVec.getLsbD_xor, BitVec.getLsbD_and, lowByte_getLsbD, BitVec.getLsbD_shiftLeft,
      BitVec.getLsbD_ushiftRight]
    by_cases hlow : i < 8
    · simp [hlow]
    · simp [hlow, hi, show 8 + (i - 8) = i by omega]
  have hshift : ((c >>> 8) <<< 8) >>> 8 = c >>> 8 := by
    apply BitVec.eq_of_getLsbD_eq
    intro i hi
    rw [BitVec.getLsbD_ushiftRight, BitVec.getLsbD_shiftLeft, BitVec.getLsbD_ushiftRight,
      BitVec.getLsbD_ushiftRight]
    by_cases hhigh : 8 + i < 32
    · simp [hhigh]
    · simp [hhigh, BitVec.getLsbD_of_ge c (8 + i) (by omega)]
  have h : feedbackBits crcPolynomial ((c &&& 255#32) ^^^ ((c >>> 8) <<< 8))
      (List.replicate 8 false) =
        feedbackBits crcPolynomial (c &&& 255#32) (List.replicate 8 false) ^^^
          (((c >>> 8) <<< 8) >>> 8) := feedbackBits_high 8 hhigh
  rw [hsplit, hshift] at h
  exact h

theorem doCrcAt_eq (order : ByteOrder) (c : BitVec 32) {x : BitVec 32} (hx : x >>> 8 = 0#32) :
    doCrcAt order (cpuToLe32 order c) x =
      cpuToLe32 order (feedbackBits crcPolynomial (c ^^^ x) (List.replicate 8 false)) := by
  have hindex : ((c ^^^ x) &&& 255#32).toNat < 256 :=
    Nat.lt_of_le_of_lt (Nat.and_le_right) (by decide)
  have hhigh : (c ^^^ x) >>> 8 = c >>> 8 := by
    rw [BitVec.ushiftRight_xor_distrib, hx, BitVec.xor_zero]
  rw [feedbackBits_eight, hhigh, cpuToLe32_xor, ← crcTab_eq order hindex]
  cases order with
  | little =>
      rfl
  | big =>
      have hlookup : ((tole c >>> 24) ^^^ x) &&& 255#32 = (c ^^^ x) &&& 255#32 := by
        apply BitVec.eq_of_getLsbD_eq
        intro i hi
        rw [BitVec.getLsbD_and, BitVec.getLsbD_and, BitVec.getLsbD_xor, BitVec.getLsbD_xor,
          lowByte_getLsbD, BitVec.getLsbD_ushiftRight]
        by_cases hlow : i < 8
        · rw [tole_getLsbD c (by omega), show 8 * (3 - (24 + i) / 8) + (24 + i) % 8 = i by omega]
        · simp [hlow]
      have hshift : tole c <<< 8 = tole (c >>> 8) := by
        apply BitVec.eq_of_getLsbD_eq
        intro i hi
        rw [BitVec.getLsbD_shiftLeft, tole_getLsbD _ hi, BitVec.getLsbD_ushiftRight]
        by_cases hlow : i < 8
        · rw [BitVec.getLsbD_of_ge c _ (by omega)]
          simp [hlow]
        · rw [tole_getLsbD c (by omega),
            show 8 * (3 - (i - 8) / 8) + (i - 8) % 8 = 8 + (8 * (3 - i / 8) + i % 8) by omega]
          simp [hi, hlow]
      rw [doCrcAt, cpuToLe32, hlookup, hshift]
      rfl

theorem byteBits_getD (b : Byte) (i : Nat) : (byteBits b).getD i false = b.getLsbD i := by
  by_cases hi : i < 8
  · have hcases : i = 0 ∨ i = 1 ∨ i = 2 ∨ i = 3 ∨ i = 4 ∨ i = 5 ∨ i = 6 ∨ i = 7 := by
      omega
    rcases hcases with rfl | rfl | rfl | rfl | rfl | rfl | rfl | rfl <;> rfl
  · have hlength : (byteBits b).length <= i := Nat.le_of_not_lt hi
    rw [List.getD_eq_default _ _ hlength, BitVec.getLsbD_of_ge b i (by omega)]

theorem byteBits_loads (b : Byte) : Loads (byteBits b) (b.setWidth 32) := by
  intro i hi
  rw [BitVec.getLsbD_setWidth, byteBits_getD, decide_eq_true hi, Bool.true_and]

theorem crcByteAt_eq (order : ByteOrder) (c : BitVec 32) (b : Byte) :
    crcByteAt order (cpuToLe32 order c) b =
      cpuToLe32 order (feedbackBits crcPolynomial c (byteBits b)) := by
  have hbyte : (b.setWidth 32) >>> 8 = 0#32 := by
    apply BitVec.eq_of_getLsbD_eq
    intro i _
    rw [BitVec.getLsbD_ushiftRight, BitVec.getLsbD_setWidth,
      BitVec.getLsbD_of_ge b (8 + i) (by omega), Bool.and_false, BitVec.getLsbD_zero]
  rw [crcByteAt, doCrcAt_eq order c hbyte,
    feedbackBits_load (by simp [byteBits]) (byteBits_loads b)]
  rfl

theorem crcBytesAt_eq (order : ByteOrder) (c : BitVec 32) (buf : List Byte) :
    buf.foldl (crcByteAt order) (cpuToLe32 order c) = cpuToLe32 order (crcBitwise c buf) := by
  induction buf generalizing c with
  | nil =>
      rfl
  | cons b buf ih =>
      rw [List.foldl_cons, crcByteAt_eq, ih, crcBitwise, crcBitwise, List.flatMap_cons,
        feedbackBits_append]

/-!
# The loops
-/

theorem crcAlignAt_foldl (order : ByteOrder) (crc : BitVec 32) (addr : Nat) (buf : List Byte) :
    (crcAlignAt order crc addr buf).2.foldl (crcByteAt order) (crcAlignAt order crc addr buf).1 =
      buf.foldl (crcByteAt order) crc := by
  induction buf generalizing crc addr with
  | nil =>
      rfl
  | cons b rest ih =>
      unfold crcAlignAt
      split
      · rfl
      · exact ih (crcByteAt order crc b) (addr + 1)

theorem loadWord_loads (order : ByteOrder) (b0 b1 b2 b3 : Byte) :
    Loads ([b0, b1, b2, b3].flatMap byteBits) (cpuToLe32 order (loadWord order b0 b1 b2 b3)) := by
  have hword : cpuToLe32 order (loadWord order b0 b1 b2 b3) = b3 ++ b2 ++ b1 ++ b0 := by
    cases order with
    | little =>
        rfl
    | big =>
        apply BitVec.eq_of_getLsbD_eq
        intro i hi
        rw [cpuToLe32, loadWord, tole_getLsbD _ hi]
        simp only [BitVec.getLsbD_append]
        have hplace : i < 8 ∨ (8 <= i ∧ i < 16) ∨ (16 <= i ∧ i < 24) ∨ 24 <= i := by
          omega
        grind
  rw [hword]
  intro i _
  have hbyte : forall b : Byte, (byteBits b).length = 8 := fun _ => rfl
  have hbits : [b0, b1, b2, b3].flatMap byteBits =
      byteBits b0 ++ (byteBits b1 ++ (byteBits b2 ++ byteBits b3)) := rfl
  simp only [BitVec.getLsbD_append, hbits]
  by_cases h0 : i < 8
  · rw [List.getD_append _ _ _ _ (by rw [hbyte]; omega), byteBits_getD, if_pos h0]
  · rw [List.getD_append_right _ _ _ _ (by rw [hbyte]; omega), hbyte, if_neg h0]
    by_cases h1 : i - 8 < 8
    · rw [List.getD_append _ _ _ _ (by rw [hbyte]; omega), byteBits_getD, if_pos h1]
    · rw [List.getD_append_right _ _ _ _ (by rw [hbyte]; omega), hbyte, if_neg h1]
      by_cases h2 : i - 8 - 8 < 8
      · rw [List.getD_append _ _ _ _ (by rw [hbyte]; omega), byteBits_getD, if_pos h2]
      · rw [List.getD_append_right _ _ _ _ (by rw [hbyte]; omega), hbyte, byteBits_getD,
          if_neg h2]

/-- Four times `DO_CRC(0)` behind the exclusive or with a word take its bytes. -/
theorem doCrcAt_word (order : ByteOrder) (crc : BitVec 32) (b0 b1 b2 b3 : Byte) :
    doCrcAt order (doCrcAt order (doCrcAt order (doCrcAt order
        (crc ^^^ loadWord order b0 b1 b2 b3) 0#32) 0#32) 0#32) 0#32 =
      [b0, b1, b2, b3].foldl (crcByteAt order) crc := by
  have hzero : forall d, doCrcAt order (cpuToLe32 order d) 0#32 =
      cpuToLe32 order (feedbackBits crcPolynomial d (List.replicate 8 false)) := by
    intro d
    rw [doCrcAt_eq order d rfl, BitVec.xor_zero]
  rcases (⟨cpuToLe32 order crc, (cpuToLe32_cpuToLe32 order crc).symm⟩ :
    exists c, crc = cpuToLe32 order c) with ⟨c, rfl⟩
  have hload : cpuToLe32 order c ^^^ loadWord order b0 b1 b2 b3 =
      cpuToLe32 order (c ^^^ cpuToLe32 order (loadWord order b0 b1 b2 b3)) := by
    rw [cpuToLe32_xor, cpuToLe32_cpuToLe32]
  have hlength : ([b0, b1, b2, b3].flatMap byteBits).length = 32 := rfl
  rw [hload, hzero, hzero, hzero, hzero, ← feedbackBits_append, ← feedbackBits_append,
    ← feedbackBits_append, crcBytesAt_eq, crcBitwise,
    feedbackBits_load (Nat.le_of_eq hlength) (loadWord_loads order b0 b1 b2 b3)]
  rfl

theorem crcWordsAt_foldl (order : ByteOrder) (crc : BitVec 32) (buf : List Byte) :
    (crcWordsAt order crc buf).2.foldl (crcByteAt order) (crcWordsAt order crc buf).1 =
      buf.foldl (crcByteAt order) crc := by
  induction crc, buf using crcWordsAt.induct order with
  | case1 crc b0 b1 b2 b3 rest word ih =>
      rw [crcWordsAt, ih, doCrcAt_word, ← List.foldl_append]
      rfl
  | case2 crc rest hrest =>
      rw [crcWordsAt]
      exact hrest

theorem crc32NoCompAt_eq (order : ByteOrder) (crc : BitVec 32) (addr : Nat) (buf : List Byte) :
    crc32NoCompAt order crc addr buf = crcBitwise crc buf := by
  unfold crc32NoCompAt
  simp only
  rw [crcWordsAt_foldl, crcAlignAt_foldl, crcBytesAt_eq, cpuToLe32_cpuToLe32]

theorem crc32At_big (crc : BitVec 32) (addr : Nat) (buf : List Byte) :
    crc32At .big crc addr buf = crc32 crc addr buf := by
  have hbytes := crcBytesAt_eq .big (crc ^^^ 0xffffffff#32) buf
  rw [crc32At, crc32, crc32NoCompAt_eq, crc32NoComp_eq_foldl,
    ← cpuToLe32_cpuToLe32 .big (crcBitwise _ buf), ← hbytes]
  rfl

/-!
# Checksums of parts
-/

theorem crc32At_append (order : ByteOrder) (crc : BitVec 32) (addr addr' addr'' : Nat)
    (first second : List Byte) :
    crc32At order (crc32At order crc addr first) addr' second =
      crc32At order crc addr'' (first ++ second) := by
  simp only [crc32At, crc32NoCompAt_eq, crcBitwise]
  rw [BitVec.xor_assoc, BitVec.xor_self, BitVec.xor_zero, List.flatMap_append,
    feedbackBits_append]

theorem crc32At_nil (order : ByteOrder) (crc : BitVec 32) (addr : Nat) :
    crc32At order crc addr [] = crc := by
  rw [crc32At, crc32NoCompAt_eq]
  show crc ^^^ 0xffffffff#32 ^^^ 0xffffffff#32 = crc
  rw [BitVec.xor_assoc, BitVec.xor_self, BitVec.xor_zero]

theorem crc32Chunks_eq (order : ByteOrder) {chunkSz : BitVec 32} (hchunk : 0#32 < chunkSz)
    (fuel : Nat) (crc : BitVec 32) (addr : Nat) (buf : List Byte) (hlength : buf.length < 2 ^ 32)
    (hfuel : buf.length <= fuel) :
    crc32Chunks order chunkSz fuel crc addr buf = some (crc32At order crc addr buf) := by
  induction fuel generalizing crc addr buf with
  | zero =>
      rw [List.length_eq_zero_iff.mp (Nat.le_zero.mp hfuel), crc32Chunks, crc32At_nil]
  | succ fuel ih =>
      cases buf with
      | nil =>
          rw [crc32Chunks, crc32At_nil]
      | cons b rest =>
          rw [crc32Chunks]
          generalize hc : (if BitVec.ofNat 32 (b :: rest).length > chunkSz then chunkSz
            else BitVec.ofNat 32 (b :: rest).length) = chunk
          have hpos : 0 < chunk.toNat := by
            rw [← hc]
            split
            · exact hchunk
            · rw [BitVec.toNat_ofNat, Nat.mod_eq_of_lt hlength]
              exact Nat.succ_pos _
          have hdrop : ((b :: rest).drop chunk.toNat).length <= fuel := by
            rw [List.length_drop]
            omega
          rw [ih _ _ _ (by rw [List.length_drop]; omega) hdrop,
            crc32At_append order crc addr _ addr, List.take_append_drop]

/--
The word-wise loop computes the register of the reflected polynomial for every alignment, and
the checksum of a buffer is the one of its parts one after the other, also in chunks.
-/
theorem crc32_bitwise (order : ByteOrder) (crc : BitVec 32) :
    (forall addr buf, crc32NoCompAt order crc addr buf = crcBitwise crc buf) ∧
    (forall addr addr' addr'' first second,
      crc32At order (crc32At order crc addr first) addr' second =
        crc32At order crc addr'' (first ++ second)) ∧
    forall watchdog fuel addr buf chunkSz, buf.length < 2 ^ 32 -> buf.length <= fuel ->
      0#32 < chunkSz ->
        crc32Wd order watchdog fuel crc addr buf chunkSz = some (crc32At order crc addr buf) := by
  refine ⟨crc32NoCompAt_eq order crc, crc32At_append order crc, ?_⟩
  intro watchdog fuel addr buf chunkSz hlength hfuel hchunk
  unfold crc32Wd
  split
  · exact crc32Chunks_eq order hchunk fuel crc addr buf hlength hfuel
  · rfl

/-- The check value of the CRC-32, in chunks of four bytes. -/
theorem crc32_bitwise_chunks :
    crc32Wd .big true 9 0#32 0 (ascii "123456789") 4#32 = some 0xcbf43926#32 := by
  have hwd := (crc32_bitwise .big 0#32).2.2 true 9 0 (ascii "123456789") 4#32
    (by decide) (by decide) (by decide)
  rw [hwd]
  decide +kernel

end Support
end Bab750
