import Bab750.Foundation.OnesComplement
import Bab750.Network.Receive

/-!
# Sending datagrams

`NetSendUDPPacket` of `net/net.c` with `NetSetEther`, `NetSetIP`, and `ArpRequest`.
A frame for a station whose address is not known yet is kept until the answer to an
ARP request.  What is built is what `NetReceive` of another station takes, and the
checksum of the header notices every single bit.
-/

namespace Bab750
namespace Network

open Foundation

/-!
# The transmitter
-/

abbrev EtherAddr := { bytes : List Byte // bytes.length = 6 }

def netBcastAddr : EtherAddr := ⟨List.replicate 6 0xff#8, rfl⟩

def netEtherNullAddr : EtherAddr := ⟨List.replicate 6 0#8, rfl⟩

/-- The variables of the network code that sending reads and writes. -/
structure Transmitter where
  net : NetState
  netTxPacket : Buffer
  netIPID : BitVec 32
  netOurSubnetMask : BitVec 32
  netOurGatewayIP : BitVec 32
  etherLength : net.netOurEther.length = 6

def ipFlagsDfrag : BitVec 16 := 0x4000#16

def netEthHdrSize (s : NetState) : Nat :=
  if vlanSetting s.netOurVLAN &&& vlanIdmask = vlanNone then etherHdrSize
  else vlanEtherHdrSize

def ipHeader (netOurIP : BitVec 32) (netIPID dest : BitVec 32) (dport sport len : Nat) :
    List Byte :=
  [0x45#8, 0#8] ++ shortBytes (BitVec.ofNat 16 (ipHdrSize + len)) ++
    shortBytes (netIPID.setWidth 16) ++ shortBytes ipFlagsDfrag ++
    [255#8, 17#8, 0#8, 0#8] ++ wordBytes netOurIP ++ wordBytes dest ++
    shortBytes (BitVec.ofNat 16 sport) ++ shortBytes (BitVec.ofNat 16 dport) ++
    shortBytes (BitVec.ofNat 16 (8 + len)) ++ [0#8, 0#8]

/-- `NetSetIP`; the counter of packets is advanced by the caller. -/
def netSetIP (t : Transmitter) (buf : Buffer) (ip : Nat) (dest : BitVec 32)
    (dport sport len : Nat) : Buffer :=
  let buf := if len % 2 = 1 then copyTo buf (ip + ipHdrSize + len) [0#8] else buf
  let buf := copyTo buf ip (ipHeader t.net.netOurIP t.netIPID dest dport sport len)
  copyTo buf (ip + 10)
    (shortBytes ((~~~ netCksum buf ip (ipHdrSizeNoUdp / 2)).setWidth 16))

/-- The headers of a datagram in a buffer, and the place of the packet. -/
def setHeaders (t : Transmitter) (buf : Buffer) (ether : EtherAddr) (dest : BitVec 32)
    (dport sport len : Nat) : Buffer × Nat :=
  let header := netSetEther t.net buf ether.val protIp
  (netSetIP t header.1 header.2 dest dport sport len, header.2)

def ethSend (s : NetState) (frame : List Byte) : NetState :=
  { s with sent := s.sent ++ [frame] }

/-- The address that an ARP request asks for, and the warning on the console. -/
def arpTarget (t : Transmitter) : BitVec 32 × List Byte :=
  if t.net.netArpWaitPacketIP &&& t.netOurSubnetMask ≠
      t.net.netOurIP &&& t.netOurSubnetMask then
    if t.netOurGatewayIP = 0#32 then
      (t.net.netArpWaitPacketIP, ascii "## Warning: gatewayip needed but not set\n")
    else (t.netOurGatewayIP, [])
  else (t.net.netArpWaitPacketIP, [])

def arpRequestPacket (s : NetState) (target : BitVec 32) : List Byte :=
  shortBytes 1#16 ++ shortBytes protIp ++ [6#8, 4#8] ++ shortBytes 1#16 ++
    s.netOurEther ++ wordBytes s.netOurIP ++ List.replicate 6 0#8 ++ wordBytes target

def arpRequest (t : Transmitter) : Transmitter :=
  let header := netSetEther t.net t.netTxPacket netBcastAddr.val protArp
  let target := arpTarget t
  let packet := copyTo header.1 header.2 (arpRequestPacket t.net target.1)
  { t with
    netTxPacket := packet
    net := ethSend { t.net.print target.2 with netArpWaitReplyIP := target.1 }
      (bytesAt packet 0 (header.2 + arpHdrSize))
    etherLength := t.etherLength }

def newStyleDest (dest : BitVec 32) : BitVec 32 :=
  if dest = 0#32 then 0xffffffff#32 else dest

def etherFor (ether : EtherAddr) (dest : BitVec 32) : EtherAddr :=
  if dest = 0xffffffff#32 then netBcastAddr else ether

/--
`NetSendUDPPacket`: whether the packet waits for an ARP reply, and the state.  The
only address that can be the null address is `NetServerEther`.
-/
def netSendUDPPacket (t : Transmitter) (ether : EtherAddr) (dest : BitVec 32)
    (dport sport len : Nat) : Int × Transmitter :=
  let dest := newStyleDest dest
  let ether := etherFor ether dest
  if ether = netEtherNullAddr then
    let headers := setHeaders t t.net.netArpWaitTxPacket ether dest dport sport len
    let packet := copyTo headers.1 (headers.2 + ipHdrSize)
      (bytesAt t.netTxPacket (headers.2 + ipHdrSize) len)
    (1, arpRequest { t with
      net := { t.net with
        netArpWaitPacketIP := dest
        netArpWaitPacketMAC := true
        netArpWaitTxPacket := packet
        netArpWaitTxPacketSize := headers.2 + ipHdrSize + len }
      netIPID := t.netIPID + 1
      etherLength := t.etherLength })
  else
    let headers := setHeaders t t.netTxPacket ether dest dport sport len
    (0, { t with
      net := ethSend t.net (bytesAt headers.1 0 (headers.2 + ipHdrSize + len))
      netTxPacket := headers.1
      netIPID := t.netIPID + 1
      etherLength := t.etherLength })

/-- The frame that a call has built: the one it sent, or the one that waits. -/
def builtFrame (result : Int × Transmitter) : List Byte :=
  if result.1 = 0 then result.2.net.sent.getLastD []
  else bytesAt result.2.net.netArpWaitTxPacket 0 result.2.net.netArpWaitTxPacketSize

def inBuffer (rest : Buffer) (frame : List Byte) : Buffer := copyTo rest 0 frame

/-- One bit of a byte of a buffer is the other way round. -/
def flipBit (buf : Buffer) (i b : Nat) : Buffer :=
  fun k => if k = i then buf k ^^^ BitVec.twoPow 8 b else buf k

/-!
# The checksum as a sum
-/

def shorts (buf : Buffer) (ip : Nat) (i : Nat) : Nat := (shortAt buf (ip + 2 * i)).toNat

theorem netCksumSum_toNat (buf : Buffer) (ptr len : Nat) (xsum : BitVec 32)
    (h : xsum.toNat + len * 65535 < 2 ^ 32) :
    (netCksumSum buf ptr len xsum).toNat = xsum.toNat + wordSum (shorts buf ptr) len := by
  induction len generalizing ptr xsum with
  | zero =>
      rfl
  | succ len ih =>
      have hshort := (shortAt buf ptr).isLt
      have hadd : (xsum + (shortAt buf ptr).setWidth 32).toNat =
          xsum.toNat + (shortAt buf ptr).toNat := by
        rw [BitVec.toNat_add, BitVec.toNat_setWidth]
        omega
      have hrest : wordSum (shorts buf ptr) (len + 1) =
          (shortAt buf ptr).toNat + wordSum (shorts buf (ptr + 2)) len := by
        unfold wordSum
        rw [Finset.sum_range_succ', Nat.add_comm]
        congr 1
        refine Finset.sum_congr rfl (fun i _ => ?_)
        unfold shorts
        rw [show ptr + 2 * (i + 1) = ptr + 2 + 2 * i by omega]
      rw [netCksumSum, ih _ _ (by rw [hadd]; omega), hadd, hrest]
      omega

theorem fold_toNat {x : BitVec 32} (h : x.toNat < 2 ^ 32 - 65536) :
    ((x &&& 0xffff#32) + (x >>> 16)).toNat = foldCarry 65536 x.toNat := by
  rw [BitVec.toNat_add, BitVec.toNat_and, BitVec.toNat_ushiftRight,
    show (0xffff#32).toNat = 2 ^ 16 - 1 from rfl, Nat.and_two_pow_sub_one_eq_mod,
    Nat.shiftRight_eq_div_pow]
  unfold foldCarry
  omega

theorem netCksum_toNat (buf : Buffer) (ptr : Nat) :
    (netCksum buf ptr 10).toNat =
      foldCarry 65536 (foldCarry 65536 (wordSum (shorts buf ptr) 10)) := by
  have hle : wordSum (shorts buf ptr) 10 <= 10 * 65535 :=
    wordSum_le (fun i => by have := (shortAt buf (ptr + 2 * i)).isLt; unfold shorts; omega) 10
  have hsum := netCksumSum_toNat buf ptr 10 0#32 (by decide)
  rw [BitVec.toNat_zero, Nat.zero_add] at hsum
  have hfirst := fold_toNat (x := netCksumSum buf ptr 10 0#32) (by omega)
  rw [hsum] at hfirst
  have hone : foldCarry 65536 (wordSum (shorts buf ptr) 10) < 2 * 65536 - 1 := by
    unfold foldCarry
    omega
  have hsecond := fold_toNat (x := (netCksumSum buf ptr 10 0#32 &&& 0xffff#32) +
    (netCksumSum buf ptr 10 0#32 >>> 16)) (by omega)
  rw [hfirst] at hsecond
  have htwo := foldCarry_lt hone
  unfold netCksum
  dsimp only
  rw [BitVec.toNat_and, hsecond, show (0xffff#32).toNat = 2 ^ 16 - 1 from rfl,
    Nat.and_two_pow_sub_one_eq_mod]
  exact Nat.mod_eq_of_lt htwo

theorem netCksum_lt (buf : Buffer) (ptr : Nat) : (netCksum buf ptr 10).toNat < 65536 := by
  unfold netCksum
  dsimp only
  rw [BitVec.toNat_and, show (0xffff#32).toNat = 2 ^ 16 - 1 from rfl,
    Nat.and_two_pow_sub_one_eq_mod]
  omega

theorem netCksum_mod (buf : Buffer) (ptr : Nat) :
    (netCksum buf ptr 10).toNat % 65535 = wordSum (shorts buf ptr) 10 % 65535 := by
  have hmod := foldCarry_mod (show 0 < 65536 by decide)
  rw [netCksum_toNat, hmod, hmod]

theorem netCksumOk_iff (buf : Buffer) (ptr : Nat) :
    netCksumOk buf ptr 10 = true <-> wordSum (shorts buf ptr) 10 % 65535 = 0 := by
  have hlt := netCksum_lt buf ptr
  rw [← netCksum_mod]
  unfold netCksumOk
  generalize netCksum buf ptr 10 = x at hlt
  rw [decide_eq_true_iff, ← BitVec.toNat_inj, BitVec.toNat_and, BitVec.toNat_add]
  have hmask : forall n, n < 65537 -> (n &&& 0xfffe = 0 <-> n <= 1 ∨ n = 65536) := by
    intro n hn
    have hsplit : n &&& 0xfffe = 2 * (n / 2 % 32768) := by
      apply Nat.eq_of_testBit_eq
      intro i
      rw [Nat.testBit_and]
      cases i with
      | zero =>
          simp
      | succ i =>
          rw [Nat.testBit_succ, Nat.testBit_succ, Nat.testBit_succ,
            Nat.mul_div_cancel_left _ (by decide), show (0xfffe : Nat) / 2 = 2 ^ 15 - 1 from rfl,
            show 32768 = 2 ^ 15 from rfl, Nat.testBit_mod_two_pow, Nat.testBit_two_pow_sub_one,
            Bool.and_comm]
    rw [hsplit]
    omega
  have h := hmask (x.toNat + 1) (by omega)
  rw [show (1#32).toNat = 1 from rfl, show (0xfffe#32).toNat = 0xfffe from rfl,
    show (0#32).toNat = 0 from rfl, Nat.mod_eq_of_lt (by omega), h]
  omega

/-!
# Single bits
-/

theorem shortAt_toNat (buf : Buffer) (i : Nat) :
    (shortAt buf i).toNat = (buf i).toNat * 256 + (buf (i + 1)).toNat := by
  have hlow := (buf (i + 1)).isLt
  unfold shortAt
  rw [BitVec.toNat_append, Nat.shiftLeft_eq, Nat.mul_comm, ← Nat.two_pow_add_eq_or_of_lt hlow]

theorem xor_twoPow_toNat (x : Byte) {b : Nat} (hb : b < 8) :
    (x ^^^ BitVec.twoPow 8 b).toNat = x.toNat + 2 ^ b ∨
      x.toNat = (x ^^^ BitVec.twoPow 8 b).toNat + 2 ^ b := by
  have hall : forall (b : Fin 8) (x : Byte),
      (x ^^^ BitVec.twoPow 8 b).toNat = x.toNat + 2 ^ b.val ∨
        x.toNat = (x ^^^ BitVec.twoPow 8 b).toNat + 2 ^ b.val := by
    decide +kernel
  exact hall ⟨b, hb⟩ x

theorem shorts_flipBit (buf : Buffer) (ip : Nat) {i b : Nat} (hb : b < 8) :
    (forall j, j ≠ i / 2 -> shorts buf ip j = shorts (flipBit buf (ip + i) b) ip j) ∧
      exists d, 0 < d ∧ d < 65535 ∧
        (shorts (flipBit buf (ip + i) b) ip (i / 2) = shorts buf ip (i / 2) + d ∨
          shorts buf ip (i / 2) = shorts (flipBit buf (ip + i) b) ip (i / 2) + d) := by
  have hother : forall k, k ≠ ip + i -> flipBit buf (ip + i) b k = buf k :=
    fun k hk => if_neg hk
  have hself : flipBit buf (ip + i) b (ip + i) = buf (ip + i) ^^^ BitVec.twoPow 8 b :=
    if_pos rfl
  have hpow : 0 < 2 ^ b ∧ 2 ^ b <= 128 :=
    ⟨Nat.two_pow_pos b, Nat.pow_le_pow_right (by decide) (show b <= 7 by omega)⟩
  have hchange := xor_twoPow_toNat (buf (ip + i)) hb
  rw [← hself] at hchange
  constructor
  · intro j hj
    unfold shorts
    rw [shortAt_toNat, shortAt_toNat, hother _ (by omega), hother _ (by omega)]
  · unfold shorts
    rw [shortAt_toNat, shortAt_toNat]
    rcases Nat.mod_two_eq_zero_or_one i with heven | hodd
    · -- the upper byte of a short
      rw [show ip + 2 * (i / 2) = ip + i by omega, hother (ip + i + 1) (by omega)]
      refine ⟨2 ^ b * 256, by omega, by omega, ?_⟩
      omega
    · rw [show ip + 2 * (i / 2) + 1 = ip + i by omega, hother (ip + 2 * (i / 2)) (by omega)]
      refine ⟨2 ^ b, by omega, by omega, ?_⟩
      omega

theorem netCksumOk_flipBit {buf : Buffer} {ip i b : Nat}
    (hok : netCksumOk buf ip 10 = true) (hi : i < 20) (hb : b < 8) :
    netCksumOk (flipBit buf (ip + i) b) ip 10 = false := by
  rcases shorts_flipBit buf ip (i := i) hb with ⟨hother, d, hpos, hlt, hchange⟩
  rw [Bool.eq_false_iff, ne_eq, netCksumOk_iff]
  exact wordSum_detects (show i / 2 < 10 by omega) (fun j _ hj => hother j hj) ⟨hpos, hlt⟩
    hchange ((netCksumOk_iff buf ip).mp hok)

theorem receiveIp_checksum_bad {s : NetState} {buf : Buffer} {ip : Nat} {len : Int}
    (h : netCksumOk buf ip 10 = false) : (receiveIp s buf ip len).2 = none := by
  have hbad : netCksumOk buf ip (ipHdrSizeNoUdp / 2) = false := h
  unfold receiveIp
  rw [hbad]
  split_ifs with h1 h2 h3 h4 h5
  · rfl
  · rfl
  · rfl
  · rfl
  · rfl
  all_goals exact absurd rfl h5

/-!
# The headers in the buffer
-/

theorem copyTo_inside (buf : Buffer) {i k : Nat} {bytes : List Byte} (hk : i <= k)
    (hlt : k - i < bytes.length) : copyTo buf i bytes k = bytes.get ⟨k - i, hlt⟩ := by
  unfold copyTo
  rw [if_pos hk, List.getD_eq_getElem?_getD, List.getElem?_eq_getElem hlt, Option.getD_some]
  rfl

theorem copyTo_outside (buf : Buffer) {i k : Nat} {bytes : List Byte}
    (h : k < i ∨ i + bytes.length <= k) : copyTo buf i bytes k = buf k := by
  unfold copyTo
  split
  case isTrue hk =>
      rw [List.getD_eq_getElem?_getD, List.getElem?_eq_none (by omega), Option.getD_none]
  case isFalse =>
      rfl

theorem bytesAt_congr {first second : Buffer} {i j count : Nat}
    (h : forall k, k < count -> first (i + k) = second (j + k)) :
    bytesAt first i count = bytesAt second j count := by
  unfold bytesAt
  refine List.map_congr_left (fun k hk => ?_)
  exact h k (List.mem_range.mp hk)

@[simp] theorem bytesAt_length (buf : Buffer) (i count : Nat) :
    (bytesAt buf i count).length = count := by
  unfold bytesAt
  rw [List.length_map, List.length_range]

theorem inBuffer_bytesAt (rest buf : Buffer) {count k : Nat} (hk : k < count) :
    inBuffer rest (bytesAt buf 0 count) k = buf k := by
  unfold inBuffer
  rw [copyTo_inside rest (Nat.zero_le k) (by rw [bytesAt_length]; exact hk)]
  simp [bytesAt]

theorem shortBytes_append (x : BitVec 16) :
    x.extractLsb' 8 8 ++ x.extractLsb' 0 8 = x := by
  apply BitVec.eq_of_getLsbD_eq
  intro i hi
  simp
  grind

theorem netCksumOk_checksum {buf : Buffer} {ip : Nat} (hhigh : buf (ip + 10) = 0#8)
    (hlow : buf (ip + 11) = 0#8) :
    netCksumOk (copyTo buf (ip + 10) (shortBytes ((~~~ netCksum buf ip 10).setWidth 16)))
      ip 10 = true := by
  have hlt := netCksum_lt buf ip
  have hmod := netCksum_mod buf ip
  generalize hsum : (~~~ netCksum buf ip 10).setWidth 16 = sum
  have hvalue : sum.toNat = 65535 - (netCksum buf ip 10).toNat := by
    rw [← hsum, BitVec.toNat_setWidth, BitVec.toNat_not]
    omega
  have hfield : shorts (copyTo buf (ip + 10) (shortBytes sum)) ip 5 = sum.toNat := by
    show (shortAt _ (ip + 10)).toNat = _
    unfold shortAt
    rw [copyTo_inside buf (Nat.le_refl _) (by simp [shortBytes]),
      copyTo_inside buf (show ip + 10 <= ip + 10 + 1 by omega) (by simp [shortBytes])]
    simp only [Nat.sub_self, Nat.add_sub_cancel_left]
    exact congrArg BitVec.toNat (shortBytes_append sum)
  have hblank : shorts buf ip 5 = 0 := by
    show (shortAt buf (ip + 10)).toNat = 0
    rw [shortAt_toNat, hhigh, hlow]
    rfl
  have hother : forall i, i < 10 -> i ≠ 5 ->
      shorts buf ip i = shorts (copyTo buf (ip + 10) (shortBytes sum)) ip i := by
    intro i _ hi
    have hlength : (shortBytes sum).length = 2 := rfl
    unfold shorts shortAt
    rw [copyTo_outside buf (by omega), copyTo_outside buf (by omega)]
  have hreplace := wordSum_replace (show 5 < 10 by decide) hother
  rw [hfield, hblank] at hreplace
  rw [netCksumOk_iff]
  omega

/-- What stands behind a place of a buffer is a given header with some checksum. -/
def HeaderAt (buf : Buffer) (ip : Nat) (header : List Byte) : Prop :=
  forall k, k < 28 -> k ≠ 10 -> k ≠ 11 -> buf (ip + k) = header.getD k 0#8

theorem netSetIP_header (t : Transmitter) (buf : Buffer) (ip : Nat) (dest : BitVec 32)
    (dport sport len : Nat) :
    HeaderAt (netSetIP t buf ip dest dport sport len) ip
      (ipHeader t.net.netOurIP t.netIPID dest dport sport len) := by
  intro k hk hhigh hlow
  have hlength : (ipHeader t.net.netOurIP t.netIPID dest dport sport len).length = 28 := rfl
  unfold netSetIP
  rw [copyTo_outside _ (by simp [shortBytes]; omega),
    copyTo_inside _ (Nat.le_add_right ip k) (by rw [hlength]; omega)]
  simp only [Nat.add_sub_cancel_left]
  rw [List.getD_eq_getElem?_getD, List.getElem?_eq_getElem (by rw [hlength]; omega),
    Option.getD_some]
  rfl

theorem netSetIP_checksum (t : Transmitter) (buf : Buffer) (ip : Nat) (dest : BitVec 32)
    (dport sport len : Nat) :
    netCksumOk (netSetIP t buf ip dest dport sport len) ip 10 = true := by
  have hlength : (ipHeader t.net.netOurIP t.netIPID dest dport sport len).length = 28 := rfl
  apply netCksumOk_checksum
  · rw [copyTo_inside _ (Nat.le_add_right ip 10) (by rw [hlength]; omega)]
    simp only [Nat.add_sub_cancel_left]
    rfl
  · rw [copyTo_inside _ (Nat.le_add_right ip 11) (by rw [hlength]; omega)]
    simp only [Nat.add_sub_cancel_left]
    rfl

/-- In front of the packet and in its payload, the buffer is as it was. -/
theorem netSetIP_outside (t : Transmitter) (buf : Buffer) (ip : Nat) (dest : BitVec 32)
    (dport sport : Nat) {len k : Nat} (h : k < ip ∨ (ip + 28 <= k ∧ k < ip + 28 + len)) :
    netSetIP t buf ip dest dport sport len k = buf k := by
  have hlength : (ipHeader t.net.netOurIP t.netIPID dest dport sport len).length = 28 := rfl
  have hsize : ipHdrSize = 28 := rfl
  unfold netSetIP
  rw [copyTo_outside _ (by simp [shortBytes]; omega),
    copyTo_outside _ (by rw [hlength]; omega)]
  split
  · exact copyTo_outside _ (by rw [hsize]; omega)
  · rfl

/-!
# Receiving what was sent
-/

theorem receiveIp_header {s : NetState} {buf : Buffer} {ip : Nat}
    {ourIP netIPID dest : BitVec 32} {dport sport len : Nat}
    (hheader : HeaderAt buf ip (ipHeader ourIP netIPID dest dport sport len))
    (hok : netCksumOk buf ip 10 = true) (hlen : len < 65508)
    (hours : s.netOurIP = dest) :
    receiveIp s buf ip (ipHdrSize + len) = (s, some (udpCall buf ip)) := by
  have hversion : buf ip = 0x45#8 := hheader 0 (by decide) (by decide) (by decide)
  have htotal : ipLen buf ip = BitVec.ofNat 16 (ipHdrSize + len) := by
    unfold ipLen shortAt
    rw [hheader 2 (by decide) (by decide) (by decide),
      show ip + 2 + 1 = ip + 3 from rfl, hheader 3 (by decide) (by decide) (by decide)]
    exact shortBytes_append _
  have hoff : shortAt buf (ip + 6) = ipFlagsDfrag := by
    unfold shortAt
    rw [hheader 6 (by decide) (by decide) (by decide),
      show ip + 6 + 1 = ip + 7 from rfl, hheader 7 (by decide) (by decide) (by decide)]
    exact shortBytes_append _
  have hprotocol : buf (ip + 9) = 17#8 := hheader 9 (by decide) (by decide) (by decide)
  have hdest : netReadIP buf (ip + 16) = dest := by
    unfold netReadIP
    rw [hheader 16 (by decide) (by decide) (by decide),
      show ip + 16 + 1 = ip + 17 from rfl, hheader 17 (by decide) (by decide) (by decide),
      show ip + 16 + 2 = ip + 18 from rfl, hheader 18 (by decide) (by decide) (by decide),
      show ip + 16 + 3 = ip + 19 from rfl, hheader 19 (by decide) (by decide) (by decide)]
    exact bytesWord_wordBytes dest
  have hsize : (ipHdrSize : Int) = 28 := rfl
  have hnat : ipHdrSize = 28 := rfl
  have hchecksum : netCksumOk buf ip (ipHdrSizeNoUdp / 2) = true := hok
  unfold receiveIp
  rw [if_neg (by rw [BitVec.toNat_ofInt, hsize, hnat]; omega),
    if_neg (by rw [htotal, BitVec.toNat_ofNat, hsize, hnat]; omega),
    if_neg (by rw [hversion]; decide), if_neg (by rw [hversion]; decide),
    if_neg (by rw [hchecksum]; decide), if_neg (by rw [hdest, hours]; simp),
    if_neg (by rw [hoff]; decide), if_neg (by rw [hprotocol]; decide),
    if_neg (by rw [hprotocol]; decide)]

theorem udpCall_header {buf : Buffer} {ip : Nat} {ourIP netIPID dest : BitVec 32}
    {dport sport len : Nat}
    (hheader : HeaderAt buf ip (ipHeader ourIP netIPID dest dport sport len))
    (hdport : dport < 65536) (hsport : sport < 65536) (hlen : len < 65508) :
    udpCall buf ip = {
      payload := some (ip + ipHdrSize)
      dest := BitVec.ofNat 32 dport
      src := BitVec.ofNat 32 sport
      len := BitVec.ofNat 32 len } := by
  have hwide : forall n, n < 65536 ->
      (BitVec.ofNat 16 n).setWidth 32 = BitVec.ofNat 32 n := by
    intro n hn
    apply BitVec.eq_of_toNat_eq
    rw [BitVec.toNat_setWidth, BitVec.toNat_ofNat, BitVec.toNat_ofNat]
    omega
  have hsrc : shortAt buf (ip + 20) = BitVec.ofNat 16 sport := by
    unfold shortAt
    rw [hheader 20 (by decide) (by decide) (by decide),
      show ip + 20 + 1 = ip + 21 from rfl, hheader 21 (by decide) (by decide) (by decide)]
    exact shortBytes_append _
  have hdst : shortAt buf (ip + 22) = BitVec.ofNat 16 dport := by
    unfold shortAt
    rw [hheader 22 (by decide) (by decide) (by decide),
      show ip + 22 + 1 = ip + 23 from rfl, hheader 23 (by decide) (by decide) (by decide)]
    exact shortBytes_append _
  have hudp : udpLen buf ip = BitVec.ofNat 16 (8 + len) := by
    unfold udpLen shortAt
    rw [hheader 24 (by decide) (by decide) (by decide),
      show ip + 24 + 1 = ip + 25 from rfl, hheader 25 (by decide) (by decide) (by decide)]
    exact shortBytes_append _
  unfold udpCall
  rw [hsrc, hdst, hudp, hwide _ hdport, hwide _ hsport, hwide _ (by omega)]
  congr 1
  apply BitVec.eq_of_toNat_eq
  rw [BitVec.toNat_sub, BitVec.toNat_ofNat, BitVec.toNat_ofNat, BitVec.toNat_ofNat]
  omega

/-!
# The frame
-/

theorem netSetEther_size (s : NetState) (buf : Buffer) (addr : List Byte)
    (prot : BitVec 16) : (netSetEther s buf addr prot).2 = netEthHdrSize s := by
  unfold netSetEther netEthHdrSize
  dsimp only
  split
  · rfl
  · rfl

theorem vlanSetting_none (vlan : BitVec 16) :
    vlanSetting vlan &&& vlanIdmask = vlanNone <-> vlan &&& vlanIdmask = vlanNone := by
  unfold vlanSetting
  split
  case isTrue hunset =>
      rw [hunset]
      decide
  case isFalse =>
      exact Iff.rfl

theorem copyTo_behind_addresses (buf : Buffer) {addr ours rest : List Byte}
    (haddr : addr.length = 6) (hours : ours.length = 6) {k : Nat}
    (hk : k < rest.length) :
    copyTo buf 0 (addr ++ ours ++ rest) (12 + k) = rest.get ⟨k, hk⟩ := by
  have hlength : (addr ++ ours ++ rest).length = 12 + rest.length := by
    rw [List.length_append, List.length_append, haddr, hours]
  rw [copyTo_inside buf (Nat.zero_le _) (by rw [hlength]; omega)]
  simp only [Nat.sub_zero, List.get_eq_getElem]
  rw [List.getElem_append_right (by rw [List.length_append, haddr, hours]; omega)]
  congr 1
  rw [List.length_append, haddr, hours]
  omega

/-- The header of Ethernet in a buffer, as the transmitter writes it. -/
def EtherIn (t : Transmitter) (buf : Buffer) : Prop :=
  exists (base : Buffer) (addr : EtherAddr), forall k, k < netEthHdrSize t.net ->
    buf k = (netSetEther t.net base addr.val protIp).1 k

/-- The headers of a datagram in a buffer, as the transmitter writes them. -/
structure HeadersIn (t : Transmitter) (dest : BitVec 32) (dport sport len : Nat)
    (buf : Buffer) : Prop where
  ether : EtherIn t buf
  header : HeaderAt buf (netEthHdrSize t.net)
    (ipHeader t.net.netOurIP t.netIPID dest dport sport len)
  checksum : netCksumOk buf (netEthHdrSize t.net) 10 = true

def PayloadIn (t : Transmitter) (len : Nat) (buf : Buffer) : Prop :=
  forall k, k < len -> buf (netEthHdrSize t.net + ipHdrSize + k) =
    t.netTxPacket (netEthHdrSize t.net + ipHdrSize + k)

theorem netCksumOk_congr {first second : Buffer} {ip : Nat}
    (h : forall k, k < 20 -> first (ip + k) = second (ip + k)) :
    netCksumOk first ip 10 = netCksumOk second ip 10 := by
  have hsum : wordSum (shorts first ip) 10 = wordSum (shorts second ip) 10 := by
    refine wordSum_congr (fun i hi => ?_)
    unfold shorts shortAt
    rw [h (2 * i) (by omega), show ip + 2 * i + 1 = ip + (2 * i + 1) from rfl,
      h (2 * i + 1) (by omega)]
  rw [Bool.eq_iff_iff, netCksumOk_iff, netCksumOk_iff, hsum]

theorem HeadersIn.congr {t : Transmitter} {dest : BitVec 32} {dport sport len : Nat}
    {first second : Buffer} (h : HeadersIn t dest dport sport len first)
    (hsame : forall k, k < netEthHdrSize t.net + ipHdrSize -> second k = first k) :
    HeadersIn t dest dport sport len second := by
  have hsize : ipHdrSize = 28 := rfl
  rcases h.ether with ⟨base, addr, hether⟩
  refine ⟨⟨base, addr, ?_⟩, ?_, ?_⟩
  · intro k hk
    rw [hsame k (by omega), hether k hk]
  · intro k hk hhigh hlow
    rw [hsame _ (by omega), h.header k hk hhigh hlow]
  · rw [netCksumOk_congr (fun k hk => hsame _ (by omega)), h.checksum]

theorem setHeaders_headers (t : Transmitter) (base : Buffer) (addr : EtherAddr)
    (dest : BitVec 32) (dport sport len : Nat) :
    HeadersIn t dest dport sport len (setHeaders t base addr dest dport sport len).1 := by
  unfold setHeaders
  dsimp only
  rw [netSetEther_size]
  refine ⟨⟨base, addr, ?_⟩, netSetIP_header _ _ _ _ _ _ _, netSetIP_checksum _ _ _ _ _ _ _⟩
  intro k hk
  exact netSetIP_outside _ _ _ _ _ _ (Or.inl hk)

theorem setHeaders_payload (t : Transmitter) (base : Buffer) (addr : EtherAddr)
    (dest : BitVec 32) (dport sport : Nat) {len k : Nat} (hk : k < len) :
    (setHeaders t base addr dest dport sport len).1
        (netEthHdrSize t.net + ipHdrSize + k) =
      base (netEthHdrSize t.net + ipHdrSize + k) := by
  have hsize : ipHdrSize = 28 := rfl
  have haddr := addr.property
  have hours := t.etherLength
  unfold setHeaders
  dsimp only
  rw [netSetEther_size, netSetIP_outside _ _ _ _ _ _ (by rw [hsize]; omega)]
  unfold netSetEther netEthHdrSize
  dsimp only
  split
  · dsimp only
    refine copyTo_outside _ (Or.inr ?_)
    simp only [List.length_append, haddr, hours, List.length_cons, List.length_nil]
    unfold etherHdrSize
    omega
  · dsimp only
    refine copyTo_outside _ (Or.inr ?_)
    simp only [List.length_append, haddr, hours, List.length_cons, List.length_nil]
    unfold vlanEtherHdrSize
    omega

/-- The frame of a call is a datagram of the size of its parts. -/
theorem netSendUDPPacket_built (t : Transmitter) (ether : EtherAddr) (dest : BitVec 32)
    (dport sport len : Nat) :
    exists buf, builtFrame (netSendUDPPacket t ether dest dport sport len) =
        bytesAt buf 0 (netEthHdrSize t.net + ipHdrSize + len) ∧
      HeadersIn t (newStyleDest dest) dport sport len buf ∧ PayloadIn t len buf := by
  have hplace : forall base addr dest, (setHeaders t base addr dest dport sport len).2 =
      netEthHdrSize t.net := fun base addr _ => netSetEther_size t.net base addr.val protIp
  unfold netSendUDPPacket
  dsimp only
  generalize newStyleDest dest = dest
  generalize etherFor ether dest = addr
  split
  · -- the payload is copied behind the headers of the packet that waits
    refine ⟨copyTo (setHeaders t t.net.netArpWaitTxPacket addr dest dport sport len).1
      (netEthHdrSize t.net + ipHdrSize)
      (bytesAt t.netTxPacket (netEthHdrSize t.net + ipHdrSize) len), ?_, ?_, ?_⟩
    · rw [hplace]
      rfl
    · have hheaders := setHeaders_headers t t.net.netArpWaitTxPacket addr dest dport sport len
      exact hheaders.congr (fun k hk => copyTo_outside _ (Or.inl hk))
    · intro k hk
      rw [copyTo_inside _ (by omega) (by rw [bytesAt_length]; omega)]
      simp [bytesAt]
  · refine ⟨(setHeaders t t.netTxPacket addr dest dport sport len).1, ?_, ?_, ?_⟩
    · rw [hplace]
      unfold builtFrame ethSend
      simp
    · exact setHeaders_headers t _ addr dest dport sport len
    · exact fun k hk => setHeaders_payload t _ addr dest dport sport hk

/-- A station with the same VLAN sees a packet of IP behind the header of Ethernet. -/
theorem framing_ether {t : Transmitter} {peer : NetState} {buf : Buffer}
    (h : EtherIn t buf) (hvlan : peer.netOurVLAN = t.net.netOurVLAN) {size : Int}
    (hsize : netEthHdrSize t.net <= size) :
    exists vlanid, framing peer buf size = some {
        prot := protIp, vlanid := vlanid, ip := netEthHdrSize t.net
        len := size - netEthHdrSize t.net } ∧
      vlanMatches peer vlanid = true := by
  rcases h with ⟨base, addr, hether⟩
  have haddr := addr.property
  have hours := t.etherLength
  have hnone := vlanSetting_none t.net.netOurVLAN
  unfold netEthHdrSize at hether hsize ⊢
  unfold netSetEther at hether
  unfold framing vlanMatches
  dsimp only at hether ⊢
  rw [hvlan]
  split at hether
  case isTrue hplain =>
      rw [if_pos hplain] at hsize ⊢
      dsimp only at hether
      have hbytes : forall k, (hk : k < 2) -> buf (12 + k) =
          (shortBytes protIp).get ⟨k, hk⟩ := by
        intro k hk
        rw [hether (12 + k) (by unfold etherHdrSize; omega)]
        exact copyTo_behind_addresses base haddr hours hk
      have hprot : shortAt buf 12 = protIp := by
        unfold shortAt
        rw [hbytes 0 (by decide), hbytes 1 (by decide)]
        exact shortBytes_append protIp
      refine ⟨vlanNone, ?_, ?_⟩
      · rw [hprot, if_neg (by decide), if_pos (by decide)]
      · rw [if_neg (by rw [hplain]; simp)]
  case isFalse htagged =>
      rw [if_neg htagged] at hsize ⊢
      dsimp only at hether
      generalize htag : vlanSetting t.net.netOurVLAN &&& vlanIdmask = tag at *
      have hbytes : forall k, (hk : k < 6) -> buf (12 + k) =
          ([protVlan.extractLsb' 8 8, protVlan.extractLsb' 0 8, tag.extractLsb' 8 8,
            tag.extractLsb' 0 8, protIp.extractLsb' 8 8, protIp.extractLsb' 0 8]).get
              ⟨k, hk⟩ := by
        intro k hk
        rw [hether (12 + k) (by unfold vlanEtherHdrSize; omega), List.append_assoc]
        exact copyTo_behind_addresses base haddr hours hk
      have htype : shortAt buf 12 = protVlan := by
        unfold shortAt
        rw [hbytes 0 (by decide), hbytes 1 (by decide)]
        exact shortBytes_append protVlan
      have hid : shortAt buf 14 = tag := by
        unfold shortAt
        rw [hbytes 2 (by decide), hbytes 3 (by decide)]
        exact shortBytes_append tag
      have hprot : shortAt buf 16 = protIp := by
        unfold shortAt
        rw [hbytes 4 (by decide), hbytes 5 (by decide)]
        exact shortBytes_append protIp
      have hmasked : tag &&& vlanIdmask = tag := by
        rw [← htag, BitVec.and_assoc, BitVec.and_self]
      refine ⟨tag, ?_, ?_⟩
      · rw [htype, hid, hprot, hmasked, if_neg (by decide), if_neg (by simp),
          if_neg (by omega), if_neg (fun h => htagged (hnone.mpr h))]
      · rw [if_pos htagged, if_neg htagged]
        simp

theorem netReceive_ether {t : Transmitter} {peer : NetState} {buf : Buffer}
    (h : EtherIn t buf) (hvlan : peer.netOurVLAN = t.net.netOurVLAN) {size : Int}
    (hsize : netEthHdrSize t.net <= size) :
    netReceive peer buf size =
      receiveIp peer buf (netEthHdrSize t.net) (size - netEthHdrSize t.net) := by
  rcases framing_ether h hvlan hsize with ⟨vlanid, hframing, hmatches⟩
  have hether : etherHdrSize <= netEthHdrSize t.net := by
    unfold netEthHdrSize
    split
    · exact Nat.le_refl _
    · decide
  unfold netReceive
  rw [if_neg (by omega), hframing]
  dsimp only
  rw [hmatches, if_neg (by decide), if_neg (by decide), if_neg (by decide), if_pos rfl]

theorem flipBit_ether {t : Transmitter} {buf : Buffer} (h : EtherIn t buf) (i b : Nat) :
    EtherIn t (flipBit buf (netEthHdrSize t.net + i) b) := by
  rcases h with ⟨base, addr, hether⟩
  refine ⟨base, addr, fun k hk => ?_⟩
  rw [← hether k hk]
  exact if_neg (by omega)

/--
What `NetSendUDPPacket` builds, `NetReceive` of the station it is meant for passes on:
the ports, the length, and the bytes of the payload.  With one bit of the header
flipped it passes nothing on.
-/
theorem udp_round_trip (t : Transmitter) (ether : EtherAddr) (dest : BitVec 32)
    (dport sport len : Nat) (peer : NetState) (rest : Buffer)
    (hdport : dport < 65536) (hsport : sport < 65536)
    (hfits : netEthHdrSize t.net + ipHdrSize + len <= pktsizeAlign)
    (hdest : dest ≠ 0#32) (hpeer : peer.netOurIP = dest)
    (hvlan : peer.netOurVLAN = t.net.netOurVLAN) :
    let frame := builtFrame (netSendUDPPacket t ether dest dport sport len)
    let payload := netEthHdrSize t.net + ipHdrSize
    netReceive peer (inBuffer rest frame) frame.length =
        (peer, some {
          payload := some payload
          dest := BitVec.ofNat 32 dport
          src := BitVec.ofNat 32 sport
          len := BitVec.ofNat 32 len }) ∧
      bytesAt (inBuffer rest frame) payload len = bytesAt t.netTxPacket payload len ∧
        forall i b, i < ipHdrSizeNoUdp -> b < 8 ->
          (netReceive peer (flipBit (inBuffer rest frame) (netEthHdrSize t.net + i) b)
            frame.length).2 = none := by
  intro frame payload
  have hlen : len < 65508 := by
    unfold pktsizeAlign at hfits
    omega
  have hsame : newStyleDest dest = dest := if_neg hdest
  rcases netSendUDPPacket_built t ether dest dport sport len with
    ⟨buf, hframe, hheaders, hpayload⟩
  rw [hsame] at hheaders
  have hbytes : forall k, k < netEthHdrSize t.net + ipHdrSize + len ->
      inBuffer rest frame k = buf k := by
    intro k hk
    show inBuffer rest (builtFrame _) k = _
    rw [hframe]
    exact inBuffer_bytesAt rest buf hk
  have hlength : (frame.length : Int) = netEthHdrSize t.net + (ipHdrSize + len) := by
    show ((builtFrame _).length : Int) = _
    rw [hframe, bytesAt_length]
    omega
  have hreceived := hheaders.congr (fun k hk => hbytes k (by omega))
  have hpacket : (netEthHdrSize t.net + (ipHdrSize + len) : Int) - netEthHdrSize t.net =
      ipHdrSize + len := by omega
  refine ⟨?_, ?_, ?_⟩
  · rw [hlength, netReceive_ether hreceived.ether hvlan (by omega), hpacket,
      receiveIp_header hreceived.header hreceived.checksum hlen hpeer,
      udpCall_header hreceived.header hdport hsport hlen]
  · refine bytesAt_congr (fun k hk => ?_)
    rw [hbytes _ (by omega)]
    exact hpayload k hk
  · intro i b hi hb
    rw [hlength, netReceive_ether (flipBit_ether hreceived.ether i b) hvlan (by omega)]
    exact receiveIp_checksum_bad (netCksumOk_flipBit hreceived.checksum hi hb)

/-- A transmitter without VLAN, and a payload of three bytes in its buffer. -/
def sampleTransmitter : Transmitter where
  net := sampleNet
  netTxPacket := copyTo (fun _ => 0#8) 42 [1#8, 2#8, 3#8]
  netIPID := 7#32
  netOurSubnetMask := 0xffffff00#32
  netOurGatewayIP := 0#32
  etherLength := rfl

theorem udp_round_trip_sample :
    (netReceive { sampleNet with netOurIP := 0xc0a80064#32 }
        (inBuffer (fun _ => 0#8) (builtFrame
          (netSendUDPPacket sampleTransmitter netBcastAddr 0xc0a80064#32 69 1024 3)))
        (builtFrame (netSendUDPPacket sampleTransmitter netBcastAddr 0xc0a80064#32 69
          1024 3)).length).2 =
      some { payload := some 42, dest := 69#32, src := 1024#32, len := 3#32 } := by
  have hround := udp_round_trip sampleTransmitter netBcastAddr 0xc0a80064#32 69 1024 3
    { sampleNet with netOurIP := 0xc0a80064#32 } (fun _ => 0#8) (by decide) (by decide)
    (by decide) (by decide) rfl rfl
  rw [hround.left]
  rfl

end Network
end Bab750
