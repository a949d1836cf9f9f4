import Bab750.Foundation.Words

/-!
# Receiving frames

`NetReceive` of `net/net.c` as it is configured for the board: no ping, no
discovery protocol, no multicast, no defragmentation, no checksum over UDP, and
no network console.  A frame lies in a receive buffer that is longer than the
frame; what stands behind the frame is left over from earlier ones.
-/

namespace Bab750
namespace Network

open Foundation

/-!
# Buffers and headers
-/

/-- The bytes of a receive buffer, counted from the start of the frame. -/
abbrev Buffer := Nat -> Byte

/-- The short at an offset, in the byte order of the network. -/
def shortAt (buf : Buffer) (i : Nat) : BitVec 16 :=
  buf i ++ buf (i + 1)

def shortBytes (x : BitVec 16) : List Byte := [x.extractLsb' 8 8, x.extractLsb' 0 8]

def netReadIP (buf : Buffer) (i : Nat) : BitVec 32 :=
  bytesWord [buf i, buf (i + 1), buf (i + 2), buf (i + 3)]

def bytesAt (buf : Buffer) (i count : Nat) : List Byte :=
  (List.range count).map (fun k => buf (i + k))

def copyTo (buf : Buffer) (i : Nat) (bytes : List Byte) : Buffer :=
  fun k => if i <= k then bytes.getD (k - i) (buf k) else buf k

def pktsizeAlign : Nat := 1536

def etherHdrSize : Nat := 14

def e802HdrSize : Nat := 22

def vlanEtherHdrSize : Nat := 18

def ipHdrSize : Nat := 28

def ipHdrSizeNoUdp : Nat := 20

def arpHdrSize : Nat := 28

def protIp : BitVec 16 := 0x0800#16
def protArp : BitVec 16 := 0x0806#16
def protRarp : BitVec 16 := 0x8035#16
def protVlan : BitVec 16 := 0x8100#16

def vlanNone : BitVec 16 := 4095#16

def vlanIdmask : BitVec 16 := 0x0fff#16

/-!
# State
-/

/-- The variables of the network code that `NetReceive` reads and writes. -/
structure NetState where
  netOurIP : BitVec 32
  netServerIP : BitVec 32
  netOurEther : List Byte
  netServerEther : List Byte
  netOurVLAN : BitVec 16
  netOurNativeVLAN : BitVec 16
  netArpWaitPacketIP : BitVec 32
  netArpWaitReplyIP : BitVec 32
  /-- `NetArpWaitPacketMAC` points to `NetServerEther`; it is NULL otherwise. -/
  netArpWaitPacketMAC : Bool
  netArpWaitTxPacket : Buffer
  netArpWaitTxPacketSize : Nat
  /-- Frames handed to `eth_send`. -/
  sent : List (List Byte)
  /-- Console text printed so far. -/
  output : List Byte

/-- A call of the packet handler; `payload` is an offset into the frame or NULL. -/
structure HandlerCall where
  payload : Option Nat
  dest : BitVec 32
  src : BitVec 32
  len : BitVec 32
deriving DecidableEq

def NetState.print (s : NetState) (text : List Byte) : NetState :=
  { s with output := s.output ++ text }

def vlanSetting (vlan : BitVec 16) : BitVec 16 :=
  if vlan = 0xffff#16 then vlanNone else vlan

/-- `NetSetEther`: the frame with its header, and the size of the header. -/
def netSetEther (s : NetState) (buf : Buffer) (addr : List Byte)
    (prot : BitVec 16) : Buffer × Nat :=
  let myvlanid := vlanSetting s.netOurVLAN
  let protBytes := [prot.extractLsb' 8 8, prot.extractLsb' 0 8]
  if myvlanid &&& vlanIdmask = vlanNone then
    (copyTo buf 0 (addr ++ s.netOurEther ++ protBytes), etherHdrSize)
  else
    let tag := myvlanid &&& vlanIdmask
    (copyTo buf 0 (addr ++ s.netOurEther ++
      [protVlan.extractLsb' 8 8, protVlan.extractLsb' 0 8,
        tag.extractLsb' 8 8, tag.extractLsb' 0 8] ++ protBytes), vlanEtherHdrSize)

/-!
# Checksum of the header
-/

def netCksumSum (buf : Buffer) (ptr : Nat) : Nat -> BitVec 32 -> BitVec 32
  | 0, xsum => xsum
  | len + 1, xsum =>
      netCksumSum buf (ptr + 2) len (xsum + (shortAt buf ptr).setWidth 32)

def netCksum (buf : Buffer) (ptr len : Nat) : BitVec 32 :=
  let xsum := netCksumSum buf ptr len 0#32
  let xsum := (xsum &&& 0xffff#32) + (xsum >>> 16)
  let xsum := (xsum &&& 0xffff#32) + (xsum >>> 16)
  xsum &&& 0xffff#32

def netCksumOk (buf : Buffer) (ptr len : Nat) : Bool :=
  (netCksum buf ptr len + 1#32) &&& 0xfffe#32 = 0#32

/-!
# Framing
-/

/-- What the framing says: the protocol, the VLAN, and where the packet starts. -/
structure Framing where
  prot : BitVec 16
  vlanid : BitVec 16
  ip : Nat
  len : Int
deriving DecidableEq

/-- The three kinds of framing, for a frame that has an Ethernet header. -/
def framing (s : NetState) (buf : Buffer) (len : Int) : Option Framing :=
  let protlen := shortAt buf 12
  if protlen.toNat < 1514 then
    some { prot := shortAt buf 20, vlanid := vlanNone
           ip := e802HdrSize, len := len - e802HdrSize }
  else if protlen ≠ protVlan then
    some { prot := protlen, vlanid := vlanNone
           ip := etherHdrSize, len := len - etherHdrSize }
  else if len < vlanEtherHdrSize then none
  else if s.netOurVLAN &&& vlanIdmask = vlanNone then none
  else
    some { prot := shortAt buf 16, vlanid := shortAt buf 14 &&& vlanIdmask
           ip := vlanEtherHdrSize, len := len - vlanEtherHdrSize }

def vlanMatches (s : NetState) (vlanid : BitVec 16) : Bool :=
  let myvlanid := vlanSetting s.netOurVLAN
  let mynvlanid := vlanSetting s.netOurNativeVLAN
  if myvlanid &&& vlanIdmask ≠ vlanNone then
    (if vlanid = vlanNone then mynvlanid &&& vlanIdmask else vlanid) =
      myvlanid &&& vlanIdmask
  else true

/-!
# Protocols
-/

def arpHeaderOk (buf : Buffer) (arp : Nat) : Bool :=
  shortAt buf arp = 1#16 && shortAt buf (arp + 2) = protIp &&
    buf (arp + 4) = 6#8 && buf (arp + 5) = 4#8

def badArpLength (len : Int) : List Byte :=
  ascii "bad length " ++ ascii (toString len) ++ ascii " < " ++
    ascii (toString arpHdrSize) ++ ascii "\n"

def arpAnswer (s : NetState) (buf : Buffer) (arp : Nat) : NetState :=
  let sender := bytesAt buf (arp + 8) 6
  let senderIP := bytesAt buf (arp + 14) 4
  let header := netSetEther s buf (bytesAt buf 6 6) protArp
  let buf := copyTo header.1 (arp + 6) [0#8, 2#8]
  let buf := copyTo buf (arp + 18) sender
  let buf := copyTo buf (arp + 24) senderIP
  let buf := copyTo buf (arp + 8) s.netOurEther
  let buf := copyTo buf (arp + 14) (wordBytes s.netOurIP)
  { s with sent := s.sent ++ [bytesAt buf 0 (header.2 + arpHdrSize)] }

/-- Take the answer to our own ARP request and send the packet that waited for it. -/
def arpTakeReply (s : NetState) (buf : Buffer) (arp : Nat) : NetState :=
  if s.netArpWaitPacketIP = 0#32 || !s.netArpWaitPacketMAC then s
  else if netReadIP buf (arp + 14) = s.netArpWaitReplyIP then
    let mac := bytesAt buf (arp + 8) 6
    let packet := copyTo s.netArpWaitTxPacket 0 mac
    { s with
      netServerEther := mac
      netArpWaitTxPacket := packet
      sent := s.sent ++ [bytesAt packet 0 s.netArpWaitTxPacketSize]
      netArpWaitPacketIP := 0#32
      netArpWaitTxPacketSize := 0
      netArpWaitPacketMAC := false }
  else s

/-- `case PROT_ARP`. -/
def receiveArp (s : NetState) (buf : Buffer) (arp : Nat) (len : Int) : NetState :=
  if len < arpHdrSize then s.print (badArpLength len)
  else if !arpHeaderOk buf arp then s
  else if s.netOurIP = 0#32 then s
  else if netReadIP buf (arp + 24) ≠ s.netOurIP then s
  else if shortAt buf (arp + 6) = 1#16 then arpAnswer s buf arp
  else if shortAt buf (arp + 6) = 2#16 then arpTakeReply s buf arp
  else s

/-- `case PROT_RARP`. -/
def receiveRarp (s : NetState) (buf : Buffer) (arp : Nat) (len : Int) :
    NetState × Option HandlerCall :=
  if len < arpHdrSize then (s.print (badArpLength len), none)
  else if shortAt buf (arp + 6) ≠ 4#16 || !arpHeaderOk buf arp then
    (s.print (ascii "invalid RARP header\n"), none)
  else
    ({ s with
        netOurIP := netReadIP buf (arp + 24)
        netServerIP :=
          if s.netServerIP = 0#32 then netReadIP buf (arp + 14) else s.netServerIP
        netServerEther := bytesAt buf (arp + 8) 6 },
      some { payload := none, dest := 0#32, src := 0#32, len := 0#32 })

def receiveIcmp (s : NetState) (buf : Buffer) (ip : Nat) : NetState :=
  if buf (ip + 20) = 5#8 then
    if buf (ip + 21) = 1#8 then
      s.print (ascii " ICMP Host Redirect to " ++
        ascii (toString (buf (ip + 24)).toNat) ++ ascii "." ++
        ascii (toString (buf (ip + 25)).toNat) ++ ascii "." ++
        ascii (toString (buf (ip + 26)).toNat) ++ ascii "." ++
        ascii (toString (buf (ip + 27)).toNat) ++ ascii " ")
    else s
  else s

def ipLen (buf : Buffer) (ip : Nat) : BitVec 16 := shortAt buf (ip + 2)

def udpLen (buf : Buffer) (ip : Nat) : BitVec 16 := shortAt buf (ip + 24)

def udpCall (buf : Buffer) (ip : Nat) : HandlerCall where
  payload := some (ip + ipHdrSize)
  dest := (shortAt buf (ip + 22)).setWidth 32
  src := (shortAt buf (ip + 20)).setWidth 32
  len := (udpLen buf ip).setWidth 32 - 8#32

/--
`case PROT_IP`.  `IP_HDR_SIZE` is of an unsigned type, so that a negative length
passes the first comparison; it fails the second one.
-/
def receiveIp (s : NetState) (buf : Buffer) (ip : Nat) (len : Int) :
    NetState × Option HandlerCall :=
  if (BitVec.ofInt 32 len).toNat < ipHdrSize then (s, none)
  else if len < (ipLen buf ip).toNat then
    (s.print (ascii "len bad " ++ ascii (toString len) ++ ascii " < " ++
      ascii (toString (ipLen buf ip).toNat) ++ ascii "\n"), none)
  else if buf ip &&& 0xf0#8 ≠ 0x40#8 then (s, none)
  else if 0x05#8 < buf ip &&& 0x0f#8 then (s, none)
  else if !netCksumOk buf ip (ipHdrSizeNoUdp / 2) then
    (s.print (ascii "checksum bad\n"), none)
  else if s.netOurIP ≠ 0#32 && netReadIP buf (ip + 16) ≠ s.netOurIP &&
      netReadIP buf (ip + 16) ≠ 0xffffffff#32 then (s, none)
  else if shortAt buf (ip + 6) &&& 0x3fff#16 ≠ 0#16 then (s, none)
  else if buf (ip + 9) = 1#8 then (receiveIcmp s buf ip, none)
  else if buf (ip + 9) ≠ 17#8 then (s, none)
  else (s, some (udpCall buf ip))

/-- `NetReceive`: the state and the call of the packet handler, if there is one. -/
def netReceive (s : NetState) (buf : Buffer) (len : Int) :
    NetState × Option HandlerCall :=
  if len < etherHdrSize then (s, none)
  else
    match framing s buf len with
    | none => (s, none)
    | some f =>
        if !vlanMatches s f.vlanid then (s, none)
        else if f.prot = protArp then (receiveArp s buf f.ip f.len, none)
        else if f.prot = protRarp then receiveRarp s buf f.ip f.len
        else if f.prot = protIp then receiveIp s buf f.ip f.len
        else (s, none)

/-!
# Containment of the payload
-/

def packetStart (buf : Buffer) : Nat :=
  if (shortAt buf 12).toNat < 1514 then e802HdrSize
  else if shortAt buf 12 ≠ protVlan then etherHdrSize
  else vlanEtherHdrSize

/-- The payload lies inside the frame and inside the packet the IP header claims. -/
def Contained (buf : Buffer) (len : Int) (call : HandlerCall) : Prop :=
  exists off, call.payload = some off ∧ 0 <= call.len.toInt ∧
    off + call.len.toInt <= packetStart buf + (ipLen buf (packetStart buf)).toNat ∧
      off + call.len.toInt <= len

theorem framing_some {s : NetState} {buf : Buffer} {len : Int} {f : Framing}
    (h : framing s buf len = some f) :
    f.ip = packetStart buf ∧ f.len = len - packetStart buf := by
  unfold framing at h
  unfold packetStart
  dsimp only at h
  split at h
  case isTrue h802 =>
      rw [if_pos h802]
      cases h
      exact ⟨rfl, rfl⟩
  case isFalse h802 =>
      rw [if_neg h802]
      split at h
      case isTrue hvlan =>
          rw [if_pos hvlan]
          cases h
          exact ⟨rfl, rfl⟩
      case isFalse hvlan =>
          rw [if_neg hvlan]
          split at h
          case isTrue =>
              cases h
          case isFalse =>
              split at h
              case isTrue =>
                  cases h
              case isFalse =>
                  cases h
                  exact ⟨rfl, rfl⟩

theorem receiveIp_call {s : NetState} {buf : Buffer} {ip : Nat} {len : Int}
    {call : HandlerCall} (h : (receiveIp s buf ip len).2 = some call) :
    call = udpCall buf ip ∧ ipHdrSize <= len ∧ (ipLen buf ip).toNat <= len := by
  unfold receiveIp at h
  split at h
  case isTrue =>
      cases h
  case isFalse hheader =>
      split at h
      case isTrue =>
          cases h
      case isFalse hlen =>
          have hpos : 0 <= len := by omega
          have hunsigned : (BitVec.ofInt 32 len).toNat <= len := by
            rw [BitVec.toNat_ofInt]
            omega
          have hcall : some (udpCall buf ip) = some call := by
            split_ifs at h
            exact h
          refine ⟨(Option.some.inj hcall).symm, ?_, ?_⟩
          · omega
          · omega

theorem receiveRarp_call {s : NetState} {buf : Buffer} {arp : Nat} {len : Int}
    {call : HandlerCall} (h : (receiveRarp s buf arp len).2 = some call) :
    call.payload = none := by
  unfold receiveRarp at h
  split at h
  case isTrue =>
      cases h
  case isFalse =>
      split at h
      case isTrue =>
          cases h
      case isFalse =>
          cases h
          rfl

/-- Every call with a payload is the one for the datagram of the frame. -/
theorem netReceive_udp {s : NetState} {buf : Buffer} {len : Int} {call : HandlerCall}
    (h : (netReceive s buf len).2 = some call) (hudp : call.payload ≠ none) :
    call = udpCall buf (packetStart buf) ∧ packetStart buf + ipHdrSize <= len ∧
      packetStart buf + (ipLen buf (packetStart buf)).toNat <= len := by
  unfold netReceive at h
  split at h
  case isTrue =>
      cases h
  case isFalse =>
      cases hframing : framing s buf len with
      | none =>
          simp [hframing] at h
      | some f =>
          rcases framing_some hframing with ⟨hip, hlen⟩
          simp only [hframing] at h
          split at h
          case isTrue =>
              cases h
          case isFalse =>
              split at h
              case isTrue =>
                  cases h
              case isFalse =>
                  split at h
                  case isTrue =>
                      -- the answer to RARP passes no payload
                      exact absurd (receiveRarp_call h) hudp
                  case isFalse =>
                      split at h
                      case isTrue =>
                          rcases receiveIp_call h with ⟨hcall, hheader, htotal⟩
                          rw [hip] at hcall htotal
                          refine ⟨hcall, ?_, ?_⟩
                          · omega
                          · omega
                      case isFalse =>
                          cases h

theorem udpCall_len (buf : Buffer) (ip : Nat) :
    (udpCall buf ip).len.toInt = (udpLen buf ip).toNat - 8 := by
  have hlt := (udpLen buf ip).isLt
  show ((udpLen buf ip).setWidth 32 - 8#32).toInt = _
  have hwide : ((udpLen buf ip).setWidth 32).toInt = (udpLen buf ip).toNat := by
    rw [BitVec.toInt_setWidth, Int.bmod_eq_of_le] <;> omega
  rw [BitVec.toInt_sub, hwide, show (8#32).toInt = 8 from rfl, Int.bmod_eq_of_le]
  · omega
  · omega

/--
A datagram that `NetReceive` passes to the handler lies inside the received
packet exactly when its own length covers its header and fits into the length of
the packet.
-/
theorem netReceive_contained_iff {s : NetState} {buf : Buffer} {len : Int}
    {call : HandlerCall} (h : (netReceive s buf len).2 = some call)
    (hudp : call.payload ≠ none) :
    Contained buf len call <->
      8 <= (udpLen buf (packetStart buf)).toNat ∧
        (udpLen buf (packetStart buf)).toNat + ipHdrSizeNoUdp <=
          (ipLen buf (packetStart buf)).toNat := by
  rcases netReceive_udp h hudp with ⟨rfl, hheader, htotal⟩
  have hlen := udpCall_len buf (packetStart buf)
  unfold Contained
  rw [hlen]
  have hsizes : (ipHdrSize : Int) = 28 ∧ ipHdrSizeNoUdp = 20 := ⟨rfl, rfl⟩
  constructor
  · rintro ⟨off, hoff, hpos, hpacket, hframe⟩
    have hoff' : packetStart buf + ipHdrSize = off := Option.some.inj hoff
    have hoffInt : (off : Int) = packetStart buf + 28 := by
      rw [← hoff']
      rfl
    rw [hsizes.right]
    omega
  · rintro ⟨hpos, hpacket⟩
    rw [hsizes.right] at hpacket
    refine ⟨packetStart buf + ipHdrSize, rfl, ?_, ?_, ?_⟩
    · omega
    · rw [Int.natCast_add, hsizes.left]
      omega
    · rw [Int.natCast_add, hsizes.left]
      omega

/-- A board at 192.168.0.105 without VLAN and without a pending request. -/
def sampleNet : NetState where
  netOurIP := 0xc0a80069#32
  netServerIP := 0xc0a80064#32
  netOurEther := [0x00#8, 0x00#8, 0x5b#8, 0xee#8, 0xde#8, 0xad#8]
  netServerEther := [0#8, 0#8, 0#8, 0#8, 0#8, 0#8]
  netOurVLAN := vlanNone
  netOurNativeVLAN := vlanNone
  netArpWaitPacketIP := 0#32
  netArpWaitReplyIP := 0#32
  netArpWaitPacketMAC := false
  netArpWaitTxPacket := fun _ => 0#8
  netArpWaitTxPacketSize := 0
  sent := []
  output := []

/-- A frame of 42 bytes whose UDP header claims the given length. -/
def datagramFrame (udpLength : Byte) : Buffer := fun i =>
  ([0x00#8, 0x00#8, 0x5b#8, 0xee#8, 0xde#8, 0xad#8,
    0x00#8, 0x10#8, 0x20#8, 0x30#8, 0x40#8, 0x50#8, 0x08#8, 0x00#8,
    0x45#8, 0x00#8, 0x00#8, 0x1c#8, 0x00#8, 0x00#8, 0x40#8, 0x00#8,
    0xff#8, 0x11#8, 0xf9#8, 0xb2#8, 0xc0#8, 0xa8#8, 0x00#8, 0x64#8,
    0xc0#8, 0xa8#8, 0x00#8, 0x69#8,
    0x00#8, 0x45#8, 0x04#8, 0x00#8, 0x00#8, udpLength, 0x00#8, 0x00#8]).getD i 0#8

theorem netReceive_contained_minimal :
    Contained (datagramFrame 8#8) 42 (udpCall (datagramFrame 8#8) 14) := by
  have hcall : (netReceive sampleNet (datagramFrame 8#8) 42).2 =
      some (udpCall (datagramFrame 8#8) 14) := by
    decide +kernel
  have hpayload : (udpCall (datagramFrame 8#8) 14).payload ≠ none := by
    decide
  apply (netReceive_contained_iff hcall hpayload).mpr
  decide

theorem netReceive_not_contained :
    ¬ (forall (s : NetState) (buf : Buffer) (len : Int) (call : HandlerCall),
      (netReceive s buf len).2 = some call -> call.payload ≠ none ->
        Contained buf len call) := by
  intro hclaim
  have hcall : (netReceive sampleNet (datagramFrame 9#8) 42).2 =
      some (udpCall (datagramFrame 9#8) 14) := by
    decide +kernel
  rcases hclaim sampleNet (datagramFrame 9#8) 42 _ hcall (by decide) with
    ⟨off, hoff, _, _, hframe⟩
  have hoff' : off = 42 := (Option.some.inj hoff).symm
  have hlen : (udpCall (datagramFrame 9#8) 14).len.toInt = 1 := by
    decide
  rw [hoff', hlen] at hframe
  exact absurd hframe (by decide)

end Network
end Bab750
