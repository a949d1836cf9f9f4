import Bab750.Environment.Copies
import Bab750.Support.VsprintfNumbers

/-!
# Texts of addresses

`ip_to_string` of `net/net.c`, `eth_parse_enetaddr` of `net/eth.c`, and the
addresses of `%p`. The board keeps numbers in the order of the network.
-/

namespace Bab750
namespace Network

open Foundation
open Support
open Environment (parseIpAddr ipStep stringToIp)

/-!
# Internet addresses
-/

/-- The part of an address from bit `k` on. -/
def quadOf (x : BitVec 32) (k : Nat) : BitVec 32 := (x >>> k) &&& 0xff#32

def ipToString (x : BitVec 32) : Option (List Byte) :=
  (vsprintf (ascii "%d.%d.%d.%d") [.word (quadOf x 24), .word (quadOf x 16), .word (quadOf x 8),
    .word (quadOf x 0)]).map Printed.text

def decimalBytesOf (d : Nat) : List Byte := ((digitList 10 d).map decimalDigit).reverse

/-- The four parts of an address, with points between them. -/
def dotted (a b c d : Nat) : List Byte :=
  decimalBytesOf a ++ 0x2e#8 :: (decimalBytesOf b ++ 0x2e#8 :: (decimalBytesOf c ++ 0x2e#8 ::
    decimalBytesOf d))

theorem quadOf_toNat (x : BitVec 32) (k : Nat) : (quadOf x k).toNat = x.toNat / 2 ^ k % 256 := by
  unfold quadOf
  rw [BitVec.toNat_and, BitVec.toNat_ushiftRight, Nat.shiftRight_eq_div_pow]
  exact Nat.and_two_pow_sub_one_eq_mod _ 8

theorem number_decimal {w : BitVec 32} (h : w.toNat < 2 ^ 31) :
    number (w.signExtend 64) 10 (-1) (-1) { Flags.none with sign := true } =
      decimalBytesOf w.toNat := by
  have hext : w.signExtend 64 = w.setWidth 64 := by
    apply BitVec.signExtend_eq_setWidth_of_msb_false
    rw [BitVec.msb_eq_decide]
    simpa using h
  have hnum : (w.signExtend 64).toNat = w.toNat := by
    rw [hext, BitVec.toNat_setWidth]
    omega
  have hneg : (w.signExtend 64).slt 0#64 = false := by
    rw [hext, BitVec.slt_zero_eq_msb, BitVec.msb_eq_decide, BitVec.toNat_setWidth]
    simp
    omega
  have hmagnitude : magnitude (w.signExtend 64) { Flags.none with sign := true } =
      w.signExtend 64 := by
    unfold magnitude
    rw [hneg]
    rfl
  have hsign : signOf (w.signExtend 64) { Flags.none with sign := true } = none := by
    unfold signOf
    rw [hneg]
    rfl
  rcases number_shape (w.signExtend 64) (Or.inr (Or.inl rfl)) (-1) (-1)
    { Flags.none with sign := true } with ⟨front, zeros, back, htext, hwidth⟩
  unfold leastWidth at hwidth
  rw [hmagnitude, hsign, hnum] at htext hwidth
  have hpfx : pfxOf 10 { Flags.none with sign := true } = [] := rfl
  rw [hpfx] at htext hwidth
  simp only [Option.toList_none, List.length_nil] at hwidth
  have hzero : front = 0 ∧ zeros = 0 ∧ back = 0 := by
    have hneg : (-1 : Int).toNat = 0 := rfl
    omega
  have hdigits : (digitList 10 w.toNat).map (numberDigit { Flags.none with sign := true }) =
      (digitList 10 w.toNat).map decimalDigit := by
    apply List.map_congr_left
    intro d hd
    exact numberDigit_decimal _ (digitList_lt (by decide) hd)
  rw [htext, hzero.1, hzero.2.1, hzero.2.2, hdigits]
  simp [decimalBytesOf]

theorem formatLoop_char {c : Byte} (hc : c ≠ 0x25#8) (fuel : Nat) (fmt : List Byte)
    (args : List Arg) (out : Printed) :
    formatLoop (fuel + 1) (c :: fmt) args out = formatLoop fuel fmt args (out.put [c]) :=
  if_pos hc

theorem formatLoop_decimal {w : BitVec 32} (h : w.toNat < 2 ^ 31) (fuel : Nat) (fmt : List Byte)
    (args : List Arg) (out : Printed) :
    formatLoop (fuel + 1) (0x25#8 :: 0x64#8 :: fmt) (.word w :: args) out =
      formatLoop fuel fmt args (out.put (decimalBytesOf w.toNat)) := by
  rw [← number_decimal h]
  rfl

theorem ipToString_eq (x : BitVec 32) :
    ipToString x = some (dotted (x.toNat / 2 ^ 24 % 256) (x.toNat / 2 ^ 16 % 256)
      (x.toNat / 2 ^ 8 % 256) (x.toNat % 256)) := by
  have hquad : forall k, (quadOf x k).toNat < 2 ^ 31 := by
    intro k
    rw [quadOf_toNat]
    omega
  have hlow : (quadOf x 0).toNat = x.toNat % 256 := by
    rw [quadOf_toNat, Nat.pow_zero, Nat.div_one]
  have hfmt : ascii "%d.%d.%d.%d" = [0x25#8, 0x64#8, 0x2e#8, 0x25#8, 0x64#8, 0x2e#8, 0x25#8,
    0x64#8, 0x2e#8, 0x25#8, 0x64#8] := rfl
  unfold ipToString vsprintf
  rw [hfmt]
  show Option.map Printed.text (formatLoop 12 _ _ _) = _
  rw [formatLoop_decimal (hquad 24), formatLoop_char (by decide), formatLoop_decimal (hquad 16),
    formatLoop_char (by decide), formatLoop_decimal (hquad 8), formatLoop_char (by decide),
    formatLoop_decimal (hquad 0), quadOf_toNat, quadOf_toNat, quadOf_toNat, hlow]
  unfold formatLoop Printed.put dotted
  simp

/-!
# Reading a part
-/

theorem decimalBytesOf_eq (d : Nat) :
    decimalBytesOf d = ((digitList 10 d).map (numberDigit .none)).reverse := by
  unfold decimalBytesOf
  congr 1
  apply List.map_congr_left
  intro e he
  exact (numberDigit_decimal _ (digitList_lt (by decide) he)).symm

def NoPrefix (text : List Byte) : Prop := forall c, c ∈ text -> c ≠ 0x78#8

theorem NoPrefix.append {first second : List Byte} (h : NoPrefix first) (h' : NoPrefix second) :
    NoPrefix (first ++ second) := by
  intro c hc
  rcases List.mem_append.mp hc with hc | hc
  · exact h c hc
  · exact h' c hc

theorem NoPrefix.cons {c : Byte} {rest : List Byte} (hc : c ≠ 0x78#8) (h : NoPrefix rest) :
    NoPrefix (c :: rest) := by
  intro e he
  rcases List.mem_cons.mp he with rfl | he
  · exact hc
  · exact h e he

theorem numberDigits_noPrefix (type : Flags) {base : Nat} (hbase : base ≤ 16) {ds : List Nat}
    (hds : forall d, d ∈ ds -> d < base) : NoPrefix (ds.map (numberDigit type)).reverse := by
  intro c hc
  rcases List.mem_map.mp (List.mem_reverse.mp hc) with ⟨d, hd, rfl⟩
  exact (numberDigit_value type (Nat.lt_of_lt_of_le (hds d hd) hbase)).2.2.1

theorem decimalBytesOf_noPrefix (d : Nat) : NoPrefix (decimalBytesOf d) := by
  rw [decimalBytesOf_eq]
  exact numberDigits_noPrefix .none (by decide) (fun e he => digitList_lt (by decide) he)

/-- What is behind a number that is read: nothing, or a separator. -/
def Stops (rest : List Byte) : Prop := forall c, rest.head? = some c -> isXDigit c = false

theorem strtoulDigits_stops {rest : List Byte} (h : Stops rest) (base : Nat) (r : BitVec 32) :
    strtoulDigits base r rest = (r, rest) := by
  cases rest with
  | nil => rfl
  | cons c rest =>
      unfold strtoulDigits
      rw [h c rfl]
      rfl

theorem simpleStrtoul_digits (type : Flags) {base : Nat} (hpos : 0 < base) (hbase : base ≤ 16)
    {ds : List Nat} (hds : forall d, d ∈ ds -> d < base) {rest : List Byte} (hstops : Stops rest)
    (hrest : NoPrefix rest) :
    simpleStrtoul ((ds.map (numberDigit type)).reverse ++ rest) base =
      (BitVec.ofNat 32 (Nat.ofDigits base ds), rest) := by
  have hread := strtoulDigits_numberDigits type hbase ds 0 rest hds
  rw [Nat.zero_mul, Nat.zero_add, strtoulDigits_stops hstops] at hread
  rw [simpleStrtoul_plain hpos ((numberDigits_noPrefix type hbase hds).append hrest)]
  exact hread

theorem simpleStrtoul_decimalBytesOf (d : Nat) {rest : List Byte} (hstops : Stops rest)
    (hrest : NoPrefix rest) :
    simpleStrtoul (decimalBytesOf d ++ rest) 10 = (BitVec.ofNat 32 d, rest) := by
  have hdigits : forall e, e ∈ digitList 10 d -> e < 10 := fun e he => digitList_lt (by decide) he
  have hread := simpleStrtoul_digits .none (by decide) (by decide) hdigits hstops hrest
  rw [← decimalBytesOf_eq, ofDigits_digitList] at hread
  exact hread

theorem ipStep_decimal (acc : BitVec 32) {d : Nat} (hd : d < 256) {rest : List Byte}
    (hstops : Stops rest) (hrest : NoPrefix rest) :
    ipStep (acc, decimalBytesOf d ++ rest) = ((acc <<< 8) ||| BitVec.ofNat 32 d, rest.tail) := by
  have hlow : BitVec.ofNat 32 d &&& 0xff#32 = BitVec.ofNat 32 d := by
    apply BitVec.eq_of_toNat_eq
    rw [BitVec.toNat_and, BitVec.toNat_ofNat, Nat.mod_eq_of_lt (show d < 2 ^ 32 by omega)]
    exact (Nat.and_two_pow_sub_one_eq_mod d 8).trans (Nat.mod_eq_of_lt hd)
  unfold ipStep
  rw [simpleStrtoul_decimalBytesOf d hstops hrest]
  dsimp only
  rw [hlow]

theorem stops_point (rest : List Byte) : Stops (0x2e#8 :: rest) := by
  intro c hc
  rw [← Option.some.inj hc]
  rfl

theorem shiftOr_toNat {acc : BitVec 32} (hacc : acc.toNat < 2 ^ 24) {d : Nat} (hd : d < 256) :
    ((acc <<< 8) ||| BitVec.ofNat 32 d).toNat = acc.toNat * 256 + d := by
  rw [BitVec.toNat_or, BitVec.toNat_shiftLeft, BitVec.toNat_ofNat,
    Nat.mod_eq_of_lt (show d < 2 ^ 32 by omega), Nat.shiftLeft_eq,
    Nat.mod_eq_of_lt (show acc.toNat * 2 ^ 8 < 2 ^ 32 by omega), ← Nat.shiftLeft_eq,
    ← Nat.shiftLeft_add_eq_or_of_lt (show d < 2 ^ 8 from hd), Nat.shiftLeft_eq]

theorem parseIpAddr_dotted {a b c d : Nat} (ha : a < 256) (hb : b < 256) (hc : c < 256)
    (hd : d < 256) :
    (parseIpAddr (dotted a b c d)).toNat = a * 2 ^ 24 + b * 2 ^ 16 + c * 2 ^ 8 + d := by
  have hlast := decimalBytesOf_noPrefix d
  have hthird : NoPrefix (0x2e#8 :: decimalBytesOf d) := hlast.cons (by decide)
  have hsecond : NoPrefix (0x2e#8 :: (decimalBytesOf c ++ 0x2e#8 :: decimalBytesOf d)) :=
    ((decimalBytesOf_noPrefix c).append hthird).cons (by decide)
  have hfirst : NoPrefix (0x2e#8 :: (decimalBytesOf b ++ 0x2e#8 :: (decimalBytesOf c ++ 0x2e#8 ::
      decimalBytesOf d))) := ((decimalBytesOf_noPrefix b).append hsecond).cons (by decide)
  have hnil : decimalBytesOf d = decimalBytesOf d ++ [] := (List.append_nil _).symm
  have hend : Stops [] := fun _ h => absurd h (by simp)
  unfold parseIpAddr dotted
  rw [ipStep_decimal _ ha (stops_point _) hfirst, List.tail_cons,
    ipStep_decimal _ hb (stops_point _) hsecond, List.tail_cons,
    ipStep_decimal _ hc (stops_point _) hthird, List.tail_cons, hnil,
    ipStep_decimal _ hd hend (fun _ h => absurd h List.not_mem_nil)]
  have h1 : (((0#32 : BitVec 32) <<< 8) ||| BitVec.ofNat 32 a).toNat = a := by
    rw [shiftOr_toNat (by decide) ha]
    exact Nat.zero_add a
  have h2 := shiftOr_toNat (show _ < 2 ^ 24 by rw [h1]; omega) hb
  have h3 := shiftOr_toNat (show _ < 2 ^ 24 by rw [h2, h1]; omega) hc
  rw [shiftOr_toNat (by rw [h3, h2, h1]; omega) hd, h3, h2, h1]
  omega

theorem stringToIp_ipToString (x : BitVec 32) :
    exists text, ipToString x = some text ∧ stringToIp (some text) = x := by
  refine ⟨_, ipToString_eq x, ?_⟩
  apply BitVec.eq_of_toNat_eq
  show (parseIpAddr _).toNat = x.toNat
  rw [parseIpAddr_dotted (Nat.mod_lt _ (by decide)) (Nat.mod_lt _ (by decide))
    (Nat.mod_lt _ (by decide)) (Nat.mod_lt _ (by decide))]
  have hlt := x.isLt
  omega

/-!
# Text in a field
-/

theorem takeWhile_text {t : List Byte} (h : 0#8 ∉ t) :
    (t ++ [0#8]).takeWhile (fun c => c ≠ 0#8) = t := by
  rw [List.takeWhile_append_of_pos]
  · simp
  · intro c hc
    simpa using fun heq : c = 0#8 => h (heq ▸ hc)

theorem string_text {t : List Byte} (h : 0#8 ∉ t) (flags : Flags) :
    string (t ++ [0#8]) (-1) (-1) flags = some t := by
  have hlen : strnlen (t ++ [0#8]) (-1) = some t.length := by
    have hneg : (-1 : Int) < 0 := by decide
    unfold strnlen
    rw [if_pos hneg, if_pos (Or.inl (List.mem_append_right t List.mem_cons_self)),
      takeWhile_text h]
  have hspace : ((-1 : Int) - (t.length : Int)).toNat = 0 := by omega
  unfold string
  rw [hlen, Option.bind_eq_bind, Option.bind_some]
  dsimp only
  rw [hspace, List.take_left' rfl]
  split
  · rw [List.replicate_zero, List.append_nil]
  · rfl

theorem decimalBytesOf_noNul (d : Nat) : 0#8 ∉ decimalBytesOf d := by
  intro hmem
  rcases List.mem_map.mp (List.mem_reverse.mp hmem) with ⟨e, he, hzero⟩
  have hall : forall e, e < 10 -> decimalDigit e ≠ 0#8 := by decide
  exact hall e (digitList_lt (by decide) he) hzero

theorem dotted_noNul (a b c d : Nat) : 0#8 ∉ dotted a b c d := by
  unfold dotted
  simp [decimalBytesOf_noNul]

theorem ip4AddrString_eq (x : BitVec 32) (flags : Flags) :
    ip4AddrString [x.extractLsb' 24 8, x.extractLsb' 16 8, x.extractLsb' 8 8, x.extractLsb' 0 8]
      (-1) (-1) flags = ipToString x := by
  have hpart : forall k, (putDecTrunc (x.extractLsb' k 8).toNat).reverse =
      decimalBytesOf (x.toNat / 2 ^ k % 256) := by
    intro k
    rw [BitVec.extractLsb'_toNat, Nat.shiftRight_eq_div_pow, putDecTrunc_digits (by omega)]
    rfl
  have hlow : x.toNat / 2 ^ 0 % 256 = x.toNat % 256 := by rw [Nat.pow_zero, Nat.div_one]
  rw [ipToString_eq]
  unfold ip4AddrString
  rw [if_neg (show ¬ List.length [_, _, _, _] < 4 from Nat.lt_irrefl 4)]
  simp only [List.take_succ_cons, List.take_zero, List.map_cons, List.map_nil, hpart, hlow]
  rw [← string_text (t := dotted (x.toNat / 2 ^ 24 % 256) (x.toNat / 2 ^ 16 % 256)
    (x.toNat / 2 ^ 8 % 256) (x.toNat % 256)) (dotted_noNul _ _ _ _)
    { flags with special := false }]
  unfold separated separated separated separated dotted
  simp

/-!
# Station addresses
-/

/-- The loop of `eth_parse_enetaddr`. -/
def enetaddrBytes : Nat -> Option (List Byte) -> List Byte
  | 0, _ => []
  | n + 1, none => 0#8 :: enetaddrBytes n none
  | n + 1, some addr =>
      (simpleStrtoul addr 16).1.setWidth 8 ::
        enetaddrBytes n (some (simpleStrtoul addr 16).2.tail)

def ethParseEnetaddr (addr : Option (List Byte)) : List Byte := enetaddrBytes 6 addr

def isValidEtherAddr (addr : List Byte) : Bool :=
  addr.getD 0 0#8 &&& 0x01#8 = 0#8 && addr.any (fun b => b ≠ 0#8)

def stationText (enetaddr : List Byte) : List Byte :=
  separated (some 0x3a#8) (enetaddr.map packHexByte)

theorem packHexByte_eq (b : Byte) :
    packHexByte b = (([b.toNat % 16, b.toNat / 16]).map
      (numberDigit { Flags.none with small := true })).reverse := by
  have hall : forall c : Byte, packHexByte c = (([c.toNat % 16, c.toNat / 16]).map
      (numberDigit { Flags.none with small := true })).reverse := by decide +kernel
  exact hall b

theorem packHexByte_digits (b : Byte) :
    forall d, d ∈ [b.toNat % 16, b.toNat / 16] -> d < 16 := by
  intro d hd
  have hlt := b.isLt
  simp only [List.mem_cons, List.not_mem_nil, or_false] at hd
  omega

theorem simpleStrtoul_packHexByte (b : Byte) {rest : List Byte} (hstops : Stops rest)
    (hrest : NoPrefix rest) :
    simpleStrtoul (packHexByte b ++ rest) 16 = (b.setWidth 32, rest) := by
  have hvalue : Nat.ofDigits 16 [b.toNat % 16, b.toNat / 16] = b.toNat := by
    rw [Nat.ofDigits_cons, Nat.ofDigits_cons, Nat.ofDigits_nil]
    omega
  have hwide : BitVec.ofNat 32 b.toNat = b.setWidth 32 := by
    apply BitVec.eq_of_toNat_eq
    rw [BitVec.toNat_ofNat, BitVec.toNat_setWidth]
  rw [packHexByte_eq, simpleStrtoul_digits _ (by decide) (by decide) (packHexByte_digits b) hstops
    hrest, hvalue, hwide]

theorem packHexByte_noPrefix (b : Byte) : NoPrefix (packHexByte b) := by
  rw [packHexByte_eq]
  exact numberDigits_noPrefix _ (by decide) (packHexByte_digits b)

theorem stationText_cons (b c : Byte) (m : List Byte) :
    stationText (b :: c :: m) = packHexByte b ++ 0x3a#8 :: stationText (c :: m) := by
  show packHexByte b ++ [0x3a#8] ++ stationText (c :: m) = _
  rw [List.append_assoc]
  rfl

theorem stationText_noPrefix (m : List Byte) : NoPrefix (stationText m) := by
  induction m with
  | nil => exact fun _ h => absurd h List.not_mem_nil
  | cons b m ih =>
      cases m with
      | nil => exact packHexByte_noPrefix b
      | cons c m =>
          rw [stationText_cons]
          exact (packHexByte_noPrefix b).append (ih.cons (by decide))

theorem enetaddrBytes_stationText (m : List Byte) :
    enetaddrBytes m.length (some (stationText m)) = m := by
  have hlow : forall b : Byte, (b.setWidth 32).setWidth 8 = b := by
    intro b
    apply BitVec.eq_of_toNat_eq
    rw [BitVec.toNat_setWidth, BitVec.toNat_setWidth]
    omega
  have hend : Stops [] := fun _ h => absurd h (by simp)
  induction m with
  | nil => rfl
  | cons b m ih =>
      cases m with
      | nil =>
          have hread := simpleStrtoul_packHexByte b hend (fun _ h => absurd h List.not_mem_nil)
          rw [List.append_nil] at hread
          show (simpleStrtoul (packHexByte b) 16).1.setWidth 8 :: [] = [b]
          rw [hread, hlow]
      | cons c m =>
          have hstops : Stops (0x3a#8 :: stationText (c :: m)) := by
            intro e he
            rw [← Option.some.inj he]
            rfl
          have hread := simpleStrtoul_packHexByte b hstops
            ((stationText_noPrefix (c :: m)).cons (by decide))
          rw [stationText_cons]
          show (simpleStrtoul _ 16).1.setWidth 8 ::
            enetaddrBytes (c :: m).length (some (simpleStrtoul _ 16).2.tail) = b :: c :: m
          rw [hread, hlow]
          exact congrArg (b :: ·) ih

end Network
end Bab750
