import Bab750.Foundation.Bytes
import Bab750.Foundation.LeftRegister

/-!
# CRC-16

`cyg_crc16` of `lib/crc16.c`, which takes a byte at a time from a table. It is the register of
`x^16+x^12+x^5+1`, one bit after the other, and it tells texts apart that differ within 16
consecutive bits.
-/

namespace Bab750
namespace Load

open Foundation

def crc16Tab : List (BitVec 16) := [
    0x0000#16, 0x1021#16, 0x2042#16, 0x3063#16, 0x4084#16, 0x50a5#16, 0x60c6#16, 0x70e7#16,
    0x8108#16, 0x9129#16, 0xa14a#16, 0xb16b#16, 0xc18c#16, 0xd1ad#16, 0xe1ce#16, 0xf1ef#16,
    0x1231#16, 0x0210#16, 0x3273#16, 0x2252#16, 0x52b5#16, 0x4294#16, 0x72f7#16, 0x62d6#16,
    0x9339#16, 0x8318#16, 0xb37b#16, 0xa35a#16, 0xd3bd#16, 0xc39c#16, 0xf3ff#16, 0xe3de#16,
    0x2462#16, 0x3443#16, 0x0420#16, 0x1401#16, 0x64e6#16, 0x74c7#16, 0x44a4#16, 0x5485#16,
    0xa56a#16, 0xb54b#16, 0x8528#16, 0x9509#16, 0xe5ee#16, 0xf5cf#16, 0xc5ac#16, 0xd58d#16,
    0x3653#16, 0x2672#16, 0x1611#16, 0x0630#16, 0x76d7#16, 0x66f6#16, 0x5695#16, 0x46b4#16,
    0xb75b#16, 0xa77a#16, 0x9719#16, 0x8738#16, 0xf7df#16, 0xe7fe#16, 0xd79d#16, 0xc7bc#16,
    0x48c4#16, 0x58e5#16, 0x6886#16, 0x78a7#16, 0x0840#16, 0x1861#16, 0x2802#16, 0x3823#16,
    0xc9cc#16, 0xd9ed#16, 0xe98e#16, 0xf9af#16, 0x8948#16, 0x9969#16, 0xa90a#16, 0xb92b#16,
    0x5af5#16, 0x4ad4#16, 0x7ab7#16, 0x6a96#16, 0x1a71#16, 0x0a50#16, 0x3a33#16, 0x2a12#16,
    0xdbfd#16, 0xcbdc#16, 0xfbbf#16, 0xeb9e#16, 0x9b79#16, 0x8b58#16, 0xbb3b#16, 0xab1a#16,
    0x6ca6#16, 0x7c87#16, 0x4ce4#16, 0x5cc5#16, 0x2c22#16, 0x3c03#16, 0x0c60#16, 0x1c41#16,
    0xedae#16, 0xfd8f#16, 0xcdec#16, 0xddcd#16, 0xad2a#16, 0xbd0b#16, 0x8d68#16, 0x9d49#16,
    0x7e97#16, 0x6eb6#16, 0x5ed5#16, 0x4ef4#16, 0x3e13#16, 0x2e32#16, 0x1e51#16, 0x0e70#16,
    0xff9f#16, 0xefbe#16, 0xdfdd#16, 0xcffc#16, 0xbf1b#16, 0xaf3a#16, 0x9f59#16, 0x8f78#16,
    0x9188#16, 0x81a9#16, 0xb1ca#16, 0xa1eb#16, 0xd10c#16, 0xc12d#16, 0xf14e#16, 0xe16f#16,
    0x1080#16, 0x00a1#16, 0x30c2#16, 0x20e3#16, 0x5004#16, 0x4025#16, 0x7046#16, 0x6067#16,
    0x83b9#16, 0x9398#16, 0xa3fb#16, 0xb3da#16, 0xc33d#16, 0xd31c#16, 0xe37f#16, 0xf35e#16,
    0x02b1#16, 0x1290#16, 0x22f3#16, 0x32d2#16, 0x4235#16, 0x5214#16, 0x6277#16, 0x7256#16,
    0xb5ea#16, 0xa5cb#16, 0x95a8#16, 0x8589#16, 0xf56e#16, 0xe54f#16, 0xd52c#16, 0xc50d#16,
    0x34e2#16, 0x24c3#16, 0x14a0#16, 0x0481#16, 0x7466#16, 0x6447#16, 0x5424#16, 0x4405#16,
    0xa7db#16, 0xb7fa#16, 0x8799#16, 0x97b8#16, 0xe75f#16, 0xf77e#16, 0xc71d#16, 0xd73c#16,
    0x26d3#16, 0x36f2#16, 0x0691#16, 0x16b0#16, 0x6657#16, 0x7676#16, 0x4615#16, 0x5634#16,
    0xd94c#16, 0xc96d#16, 0xf90e#16, 0xe92f#16, 0x99c8#16, 0x89e9#16, 0xb98a#16, 0xa9ab#16,
    0x5844#16, 0x4865#16, 0x7806#16, 0x6827#16, 0x18c0#16, 0x08e1#16, 0x3882#16, 0x28a3#16,
    0xcb7d#16, 0xdb5c#16, 0xeb3f#16, 0xfb1e#16, 0x8bf9#16, 0x9bd8#16, 0xabbb#16, 0xbb9a#16,
    0x4a75#16, 0x5a54#16, 0x6a37#16, 0x7a16#16, 0x0af1#16, 0x1ad0#16, 0x2ab3#16, 0x3a92#16,
    0xfd2e#16, 0xed0f#16, 0xdd6c#16, 0xcd4d#16, 0xbdaa#16, 0xad8b#16, 0x9de8#16, 0x8dc9#16,
    0x7c26#16, 0x6c07#16, 0x5c64#16, 0x4c45#16, 0x3ca2#16, 0x2c83#16, 0x1ce0#16, 0x0cc1#16,
    0xef1f#16, 0xff3e#16, 0xcf5d#16, 0xdf7c#16, 0xaf9b#16, 0xbfba#16, 0x8fd9#16, 0x9ff8#16,
    0x6e17#16, 0x7e36#16, 0x4e55#16, 0x5e74#16, 0x2e93#16, 0x3eb2#16, 0x0ed1#16, 0x1ef0#16]

/-- The loop of `cyg_crc16`. -/
def crc16Byte (cksum : BitVec 16) (b : Byte) : BitVec 16 :=
  crc16Tab.getD (((cksum >>> 8) ^^^ b.setWidth 16) &&& 0xff#16).toNat 0#16 ^^^ (cksum <<< 8)

def cygCrc16 (buf : List Byte) : BitVec 16 := buf.foldl crc16Byte 0#16

/-!
# Bit by bit
-/

/-- `x^16+x^12+x^5+1`, without the top coefficient. -/
def crc16Poly : BitVec 16 := 0x1021#16

theorem crc16Tab_eq : crc16Tab = (List.range 256).map (fun k =>
    feedbackLefts crc16Poly (BitVec.ofNat 16 k <<< 8) (List.replicate 8 false)) := by
  decide +kernel

theorem crc16Tab_reverse {k : BitVec 16} (hk : k.toNat < 256) :
    (crc16Tab.getD k.toNat 0#16).reverse =
      feedbackBits crc16Poly.reverse (k <<< 8).reverse (List.replicate 8 false) := by
  rw [crc16Tab_eq, List.getD_eq_getElem?_getD, List.getElem?_map, List.getElem?_range hk,
    Option.map_some, Option.getD_some, feedbackLefts_reverse, BitVec.ofNat_toNat,
    BitVec.setWidth_eq]

theorem lowBits_getLsbD (i : Nat) : (0xff#16).getLsbD i = decide (i < 8) := by
  rw [BitVec.getLsbD_ofNat, show 255 = 2 ^ 8 - 1 from rfl, Nat.testBit_two_pow_sub_one]
  by_cases hi : i < 8
  · simp [hi, show i < 16 by omega]
  · simp [hi]

theorem split_register (c : BitVec 16) (b : Byte) :
    c ^^^ (b.setWidth 16 <<< 8) =
      ((((c >>> 8) ^^^ b.setWidth 16) &&& 0xff#16) <<< 8) ^^^ (c &&& 0xff#16) := by
  apply BitVec.eq_of_getLsbD_eq
  intro i hi
  simp only [BitVec.getLsbD_xor, BitVec.getLsbD_shiftLeft, BitVec.getLsbD_and,
    BitVec.getLsbD_ushiftRight, lowBits_getLsbD]
  by_cases hlow : i < 8
  · simp [hlow]
  · have hhigh : i - 8 < 8 := by omega
    have hindex : 8 + (i - 8) = i := by omega
    simp [hlow, hhigh, hindex, hi]

theorem loads_msbFirst (b : Byte) :
    Loads (msbFirst b) (b.setWidth 16 <<< 8 : BitVec 16).reverse := by
  intro i hi
  have hget : (msbFirst b).getD i false = if i < 8 then b.getLsbD (7 - i) else false := by
    unfold msbFirst
    rw [List.getD_eq_getElem?_getD, List.getElem?_map]
    split
    · rename_i hlow
      rw [List.getElem?_range hlow]
      rfl
    · rename_i hhigh
      rw [List.getElem?_eq_none (by rw [List.length_range]; omega)]
      rfl
  rw [hget, BitVec.getLsbD_reverse, BitVec.getMsbD_eq_getLsbD, BitVec.getLsbD_shiftLeft,
    BitVec.getLsbD_setWidth, decide_eq_true hi, Bool.true_and]
  split
  · have hfirst : 16 - 1 - i < 16 := by omega
    have hsecond : ¬ 16 - 1 - i < 8 := by omega
    have hindex : 16 - 1 - i - 8 = 7 - i := by omega
    have hthird : 7 - i < 16 := by omega
    simp [hfirst, hsecond, hindex, hthird]
  · have hlow : 16 - 1 - i < 8 := by omega
    simp [hlow]

theorem crc16Byte_eq (c : BitVec 16) (b : Byte) :
    crc16Byte c b = feedbackLefts crc16Poly c (msbFirst b) := by
  apply reverse_inj
  have hindex : (((c >>> 8) ^^^ b.setWidth 16) &&& 0xff#16).toNat < 256 :=
    Nat.lt_of_le_of_lt Nat.and_le_right (by decide)
  have hlow : forall i, i < 8 -> (c &&& 0xff#16).reverse.getLsbD i = false := by
    intro i hi
    rw [BitVec.getLsbD_reverse, BitVec.getMsbD_eq_getLsbD, BitVec.getLsbD_and, lowBits_getLsbD]
    have hhigh : ¬ 16 - 1 - i < 8 := by omega
    simp [hhigh]
  have hshift : (c &&& 0xff#16) <<< 8 = c <<< 8 := by
    apply BitVec.eq_of_getLsbD_eq
    intro i hi
    rw [BitVec.getLsbD_shiftLeft, BitVec.getLsbD_shiftLeft, BitVec.getLsbD_and, lowBits_getLsbD]
    by_cases hi8 : i < 8
    · simp [hi8]
    · have hsub : i - 8 < 8 := by omega
      simp [hi8, hsub]
  have hlength : (msbFirst b).length ≤ 16 := by
    rw [msbFirst_length]
    decide
  rw [feedbackLefts_reverse, feedbackBits_load hlength (loads_msbFirst b), ← reverse_xor,
    split_register, reverse_xor, msbFirst_length, feedbackBits_high 8 hlow, ← reverse_shiftLeft,
    hshift, ← crc16Tab_reverse hindex, ← reverse_xor]
  rfl

def textBits (buf : List Byte) : List Bool := buf.flatMap msbFirst

theorem feedbackLefts_append (c : BitVec 16) (first second : List Bool) :
    feedbackLefts crc16Poly c (first ++ second) =
      feedbackLefts crc16Poly (feedbackLefts crc16Poly c first) second := List.foldl_append

theorem crc16_bits (buf : List Byte) (c : BitVec 16) :
    buf.foldl crc16Byte c = feedbackLefts crc16Poly c (textBits buf) := by
  induction buf generalizing c with
  | nil => rfl
  | cons b buf ih =>
      show buf.foldl crc16Byte (crc16Byte c b) =
        feedbackLefts crc16Poly c (msbFirst b ++ textBits buf)
      rw [ih, feedbackLefts_append, crc16Byte_eq]

theorem cygCrc16_bitwise (buf : List Byte) :
    cygCrc16 buf = feedbackLefts crc16Poly 0#16 (textBits buf) := crc16_bits buf 0#16

/-!
# Texts with their checksum
-/

theorem crc16_top : crc16Poly.reverse.getLsbD (16 - 1) = true := by decide

theorem crc16_injective {a b : BitVec 16} (buf : List Byte)
    (h : buf.foldl crc16Byte a = buf.foldl crc16Byte b) : a = b := by
  rw [crc16_bits, crc16_bits] at h
  apply reverse_inj
  refine feedbackBits_injective crc16_top (textBits buf) _ _ ?_
  rw [← feedbackLefts_reverse, ← feedbackLefts_reverse, h]

theorem crc16_self (high low : Byte) : [high, low].foldl crc16Byte (high ++ low) = 0#16 := by
  have hfirst : crc16Byte (high ++ low) high = low.setWidth 16 <<< 8 := by
    have hindex : (((high ++ low : BitVec 16) >>> 8) ^^^ high.setWidth 16) = 0#16 := by
      apply BitVec.eq_of_getLsbD_eq
      intro i hi
      rw [BitVec.getLsbD_xor, BitVec.getLsbD_ushiftRight, BitVec.getLsbD_append,
        BitVec.getLsbD_setWidth, BitVec.getLsbD_zero]
      have hnot : ¬ 8 + i < 8 := by omega
      simp [hnot, hi]
    have hshift : (high ++ low : BitVec 16) <<< 8 = low.setWidth 16 <<< 8 := by
      apply BitVec.eq_of_getLsbD_eq
      intro i hi
      rw [BitVec.getLsbD_shiftLeft, BitVec.getLsbD_shiftLeft, BitVec.getLsbD_append,
        BitVec.getLsbD_setWidth]
      by_cases hlow : i < 8
      · simp [hlow]
      · have hsub : i - 8 < 8 := by omega
        have hsub' : i - 8 < 16 := by omega
        simp [hlow, hsub, hsub']
    unfold crc16Byte
    rw [hindex, hshift]
    exact BitVec.zero_xor
  have hsecond : crc16Byte (low.setWidth 16 <<< 8) low = 0#16 := by
    have hindex : ((low.setWidth 16 <<< 8 : BitVec 16) >>> 8) ^^^ low.setWidth 16 = 0#16 := by
      apply BitVec.eq_of_getLsbD_eq
      intro i hi
      rw [BitVec.getLsbD_xor, BitVec.getLsbD_ushiftRight, BitVec.getLsbD_shiftLeft,
        BitVec.getLsbD_setWidth, BitVec.getLsbD_setWidth, BitVec.getLsbD_zero]
      by_cases hlow : i < 8
      · have hfirst : 8 + i < 16 := by omega
        simp [hfirst, hi]
      · have hge : low.getLsbD i = false := BitVec.getLsbD_of_ge low i (by omega)
        simp [hge, hi]
    have hshift : (low.setWidth 16 <<< 8 : BitVec 16) <<< 8 = 0#16 := by
      apply BitVec.eq_of_getLsbD_eq
      intro i hi
      rw [BitVec.getLsbD_shiftLeft, BitVec.getLsbD_shiftLeft, BitVec.getLsbD_zero]
      by_cases hlow : i < 8
      · simp [hlow]
      · have hsub : i - 8 < 8 := by omega
        simp [hsub]
    unfold crc16Byte
    rw [hindex, hshift]
    rfl
  show crc16Byte (crc16Byte (high ++ low) high) low = 0#16
  rw [hfirst, hsecond]

theorem cygCrc16_checked (buf : List Byte) (high low : Byte) :
    cygCrc16 (buf ++ [high, low]) = 0#16 <-> cygCrc16 buf = high ++ low := by
  unfold cygCrc16
  rw [List.foldl_append]
  constructor
  · intro h
    exact crc16_injective [high, low] (h.trans (crc16_self high low).symm)
  · intro h
    rw [h, crc16_self]

theorem textBits_length (buf : List Byte) : (textBits buf).length = 8 * buf.length := by
  induction buf with
  | nil => rfl
  | cons b buf ih =>
      show (msbFirst b ++ textBits buf).length = 8 * (buf.length + 1)
      rw [List.length_append, msbFirst_length, ih]
      omega

theorem msbFirst_injective {x y : Byte} (h : msbFirst x = msbFirst y) : x = y := by
  apply BitVec.eq_of_getLsbD_eq
  intro i hi
  have hbit := congrArg (fun bits => bits[7 - i]?) h
  have hindex : 7 - (7 - i) = i := by omega
  have hlt : 7 - i < 8 := by omega
  simpa [msbFirst, hlt, hindex] using hbit

theorem textBits_injective (xs : List Byte) :
    forall ys, xs.length = ys.length -> textBits xs = textBits ys -> xs = ys := by
  induction xs with
  | nil =>
      intro ys hlength _
      exact (List.length_eq_zero_iff.mp hlength.symm).symm
  | cons x xs ih =>
      intro ys hlength h
      cases ys with
      | nil => cases hlength
      | cons y ys =>
          have h : msbFirst x ++ textBits xs = msbFirst y ++ textBits ys := h
          rcases List.append_inj h (by rw [msbFirst_length, msbFirst_length]) with ⟨hhead, htail⟩
          rw [msbFirst_injective hhead, ih ys (Nat.succ.inj hlength) htail]

def BurstApart (a b : List Byte) : Prop :=
  exists start, forall i, i < start ∨ start + 16 ≤ i -> (textBits a)[i]? = (textBits b)[i]?

theorem cygCrc16_burst {a b : List Byte} (hlength : a.length = b.length) (hne : a ≠ b)
    (hburst : BurstApart a b) : cygCrc16 a ≠ cygCrc16 b := by
  rcases hburst with ⟨start, hagree⟩
  intro h
  rw [cygCrc16_bitwise, cygCrc16_bitwise] at h
  refine feedbackBits_burst crc16_top (by decide) (textBits a) (textBits b) start
    (0#16).reverse (by rw [textBits_length, textBits_length, hlength])
    (fun heq => hne (textBits_injective a b hlength heq)) hagree ?_
  rw [← feedbackLefts_reverse, ← feedbackLefts_reverse, h]

end Load
end Bab750
