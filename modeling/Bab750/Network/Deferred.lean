import Bab750.Network.Send

/-!
# Deferred datagrams

A datagram for a station whose Ethernet address is not known waits in one buffer for the
answer to an ARP request: `NetSendUDPPacket`, `ArpTimeoutCheck`, and the ARP part of
`NetReceive` of `net/net.c`, in any order.  The waiting frame is the one that the direct
path builds, but for the address in front.
-/

namespace Bab750
namespace Network

open Foundation

/-!
# The client
-/

def arpTimeout : BitVec 32 := 5000#32

def arpTimeoutCount : Nat := 5

structure ArpClient where
  transmitter : Transmitter
  netArpWaitTimerStart : BitVec 32
  netArpWaitTry : Nat
  /-- How often `NetStartAgain` was called. -/
  startAgain : Nat

/-- A call of `NetSendUDPPacket`, with the transmit buffer as the caller has filled it. -/
structure SendCall where
  netTxPacket : Buffer
  ether : EtherAddr
  dest : BitVec 32
  dport : Nat
  sport : Nat
  len : Nat

/-- What happens to the client: a call, a look at the clock, or a frame from the network. -/
inductive ArpEvent where
  | send (call : SendCall) (now : BitVec 32)
  | timeout (now : BitVec 32)
  | receive (buf : Buffer) (len : Int)

def Transmitter.filled (t : Transmitter) (call : SendCall) : Transmitter :=
  { t with netTxPacket := call.netTxPacket, etherLength := t.etherLength }

/-- `NetSendUDPPacket` with the retries that a deferred packet starts. -/
def ArpClient.sendUDP (c : ArpClient) (call : SendCall) (now : BitVec 32) :
    Int × ArpClient :=
  let result := netSendUDPPacket (c.transmitter.filled call) call.ether call.dest
    call.dport call.sport call.len
  if result.1 = 1 then
    (1, { c with
      transmitter := result.2
      netArpWaitTry := 1
      netArpWaitTimerStart := now })
  else (result.1, { c with transmitter := result.2 })

def Transmitter.withNet (t : Transmitter) (net : NetState)
    (h : net.netOurEther = t.net.netOurEther) : Transmitter :=
  { t with net := net, etherLength := by rw [h]; exact t.etherLength }

def ArpClient.arpTimeoutCheck (c : ArpClient) (now : BitVec 32) : ArpClient :=
  if c.transmitter.net.netArpWaitPacketIP = 0#32 then c
  else if arpTimeout < now - c.netArpWaitTimerStart then
    if arpTimeoutCount <= c.netArpWaitTry + 1 then
      { c with
        transmitter := c.transmitter.withNet
          (c.transmitter.net.print (ascii "\nARP Retry count exceeded; starting again\n")) rfl
        netArpWaitTry := 0
        startAgain := c.startAgain + 1 }
    else
      { c with
        transmitter := arpRequest c.transmitter
        netArpWaitTry := c.netArpWaitTry + 1
        netArpWaitTimerStart := now }
  else c

/-!
# What a received frame can change
-/

variable {s : NetState} {buf : Buffer} {len : Int}

/-- A frame with an ARP packet or with none that this client looks at. -/
def NotRarp (s : NetState) (buf : Buffer) (len : Int) : Prop :=
  forall f, framing s buf len = some f -> f.prot ≠ protRarp

def SameButSent (s s' : NetState) : Prop :=
  s' = { s with sent := s'.sent, output := s'.output }

/-- An ARP reply for our address, with the addresses of its sender. -/
def ArpReply (s : NetState) (buf : Buffer) (len : Int) (sender : BitVec 32)
    (mac : List Byte) : Prop :=
  exists f, framing s buf len = some f ∧ f.prot = protArp ∧ arpHdrSize <= f.len ∧
    arpHeaderOk buf f.ip = true ∧ shortAt buf (f.ip + 6) = 2#16 ∧
    netReadIP buf (f.ip + 24) = s.netOurIP ∧ netReadIP buf (f.ip + 14) = sender ∧
    mac = bytesAt buf (f.ip + 8) 6

def frameProt (s : NetState) (frame : List Byte) : BitVec 16 :=
  shortAt (fun k => frame.getD k 0#8) (netEthHdrSize s - 2)

/-- What `NetReceive` does with a frame. -/
inductive Received (s : NetState) (buf : Buffer) (len : Int) : NetState -> Prop where
  | quiet {s' : NetState} (same : SameButSent s s') (nothing : s'.sent = s.sent) :
      Received s buf len s'
  | answered {s' : NetState} (frame : List Byte) (same : SameButSent s s')
      (sent : s'.sent = s.sent ++ [frame]) (prot : frameProt s frame = protArp) :
      Received s buf len s'
  | taken (mac : List Byte) (reply : ArpReply s buf len s.netArpWaitReplyIP mac)
      (waiting : s.netArpWaitPacketIP ≠ 0#32) (pointer : s.netArpWaitPacketMAC = true) :
      Received s buf len { s with
        netServerEther := mac
        netArpWaitTxPacket := copyTo s.netArpWaitTxPacket 0 mac
        sent := s.sent ++
          [bytesAt (copyTo s.netArpWaitTxPacket 0 mac) 0 s.netArpWaitTxPacketSize]
        netArpWaitPacketIP := 0#32
        netArpWaitTxPacketSize := 0
        netArpWaitPacketMAC := false }

theorem netSetEther_prot (s : NetState) (buf : Buffer) {addr : List Byte} (prot : BitVec 16)
    (haddr : addr.length = 6) (hours : s.netOurEther.length = 6) :
    shortAt (netSetEther s buf addr prot).1 (netEthHdrSize s - 2) = prot := by
  unfold netSetEther netEthHdrSize shortAt
  dsimp only
  split
  · have hbytes : forall k, (hk : k < 2) ->
        copyTo buf 0 (addr ++ s.netOurEther ++ shortBytes prot) (12 + k) =
          (shortBytes prot).get ⟨k, hk⟩ :=
      fun k hk => copyTo_behind_addresses buf haddr hours hk
    exact (congrArg₂ (· ++ ·) (hbytes 0 (by decide)) (hbytes 1 (by decide))).trans
      (shortBytes_append prot)
  · dsimp only
    generalize vlanSetting s.netOurVLAN &&& vlanIdmask = tag
    have hbytes : forall k, (hk : k < 6) ->
        copyTo buf 0 (addr ++ s.netOurEther ++ (shortBytes protVlan ++ shortBytes tag ++
          shortBytes prot)) (12 + k) =
          (shortBytes protVlan ++ shortBytes tag ++ shortBytes prot).get ⟨k, hk⟩ :=
      fun k hk => copyTo_behind_addresses buf haddr hours hk
    rw [List.append_assoc (addr ++ s.netOurEther)]
    exact (congrArg₂ (· ++ ·) (hbytes 4 (by decide)) (hbytes 5 (by decide))).trans
      (shortBytes_append prot)

theorem bytesAt_getD (buf : Buffer) {count k : Nat} (hk : k < count) :
    (bytesAt buf 0 count).getD k 0#8 = buf k := by
  unfold bytesAt
  rw [List.getD_eq_getElem?_getD, List.getElem?_map, List.getElem?_range hk]
  simp

theorem frameProt_bytesAt {s : NetState} {built : Buffer} (buf : Buffer) {addr : List Byte}
    {prot : BitVec 16} {count : Nat} (haddr : addr.length = 6)
    (hours : s.netOurEther.length = 6) (hcount : netEthHdrSize s <= count)
    (hsame : forall k, k < netEthHdrSize s -> built k = (netSetEther s buf addr prot).1 k) :
    frameProt s (bytesAt built 0 count) = prot := by
  have hsize : 14 <= netEthHdrSize s := by
    unfold netEthHdrSize
    split
    · decide
    · decide
  rw [<- netSetEther_prot s buf prot haddr hours]
  unfold frameProt shortAt
  dsimp only
  rw [bytesAt_getD built (by omega), bytesAt_getD built (by omega), hsame _ (by omega),
    hsame _ (by omega)]

theorem receiveIcmp_quiet (s : NetState) (buf : Buffer) (ip : Nat) :
    SameButSent s (receiveIcmp s buf ip) ∧ (receiveIcmp s buf ip).sent = s.sent := by
  unfold receiveIcmp
  split_ifs
  · exact ⟨rfl, rfl⟩
  · exact ⟨rfl, rfl⟩
  · exact ⟨rfl, rfl⟩

theorem receiveIp_quiet (s : NetState) (buf : Buffer) (ip : Nat) (len : Int) :
    SameButSent s (receiveIp s buf ip len).1 ∧ (receiveIp s buf ip len).1.sent = s.sent := by
  unfold receiveIp
  split_ifs
  all_goals first | exact receiveIcmp_quiet s buf ip | exact ⟨rfl, rfl⟩

theorem netEthHdrSize_le (s : NetState) : netEthHdrSize s <= 18 := by
  unfold netEthHdrSize
  split
  · decide
  · decide

theorem arpAnswer_received {arp : Nat} (hours : s.netOurEther.length = 6) (harp : 14 <= arp) :
    Received s buf len (arpAnswer s buf arp) := by
  have hle := netEthHdrSize_le s
  refine .answered _ rfl rfl ?_
  have haddr : (bytesAt buf 6 6).length = 6 := bytesAt_length buf 6 6
  refine frameProt_bytesAt buf haddr hours ?_ ?_
  · rw [netSetEther_size]
    exact Nat.le_add_right _ _
  · intro k hk
    rw [copyTo_outside _ (by omega), copyTo_outside _ (by omega), copyTo_outside _ (by omega),
      copyTo_outside _ (by omega), copyTo_outside _ (by omega)]

theorem packetStart_ge (buf : Buffer) : 14 <= packetStart buf := by
  unfold packetStart
  split_ifs
  · decide
  · decide
  · decide

theorem receiveArp_received {f : Framing} (hframing : framing s buf len = some f)
    (hprot : f.prot = protArp) (hours : s.netOurEther.length = 6) :
    Received s buf len (receiveArp s buf f.ip f.len) := by
  unfold receiveArp
  split_ifs with hshort hheader hunset hother hrequest hreply
  · exact .quiet rfl rfl
  · exact .quiet rfl rfl
  · exact .quiet rfl rfl
  · exact .quiet rfl rfl
  · have hstart := packetStart_ge buf
    rw [<- (framing_some hframing).left] at hstart
    exact arpAnswer_received hours hstart
  · unfold arpTakeReply
    split_ifs with hidle hsender
    · exact .quiet rfl rfl
    · simp only [Bool.or_eq_true, decide_eq_true_eq, Bool.not_eq_true', not_or,
        Bool.not_eq_false] at hidle
      exact .taken _ ⟨f, hframing, hprot, Int.not_lt.mp hshort, by simpa using hheader, hreply,
        not_not.mp hother, hsender, rfl⟩ hidle.left hidle.right
    · exact .quiet rfl rfl
  · exact .quiet rfl rfl

theorem netReceive_received (hrarp : NotRarp s buf len) (hours : s.netOurEther.length = 6) :
    Received s buf len (netReceive s buf len).1 := by
  unfold netReceive
  split
  · exact .quiet rfl rfl
  · cases hframing : framing s buf len with
    | none =>
        exact .quiet rfl rfl
    | some f =>
        dsimp only
        split_ifs with hvlan harp hrarp' hip
        · exact .quiet rfl rfl
        · exact receiveArp_received hframing harp hours
        · exact absurd hrarp' (hrarp f hframing)
        · exact .quiet (receiveIp_quiet s buf f.ip f.len).left
            (receiveIp_quiet s buf f.ip f.len).right
        · exact .quiet rfl rfl

theorem netReceive_netOurEther (s : NetState) (buf : Buffer) (len : Int) :
    (netReceive s buf len).1.netOurEther = s.netOurEther := by
  unfold netReceive
  split
  · rfl
  · cases framing s buf len with
    | none =>
        rfl
    | some f =>
        dsimp only
        split_ifs
        · rfl
        · unfold receiveArp arpTakeReply
          split_ifs
          all_goals rfl
        · unfold receiveRarp
          split_ifs
          all_goals rfl
        · have hsame := (receiveIp_quiet s buf f.ip f.len).left
          unfold SameButSent at hsame
          rw [hsame]
        · rfl

/-- `NetReceive`. -/
def ArpClient.receive (c : ArpClient) (buf : Buffer) (len : Int) : ArpClient :=
  { c with
    transmitter := c.transmitter.withNet (netReceive c.transmitter.net buf len).1
      (netReceive_netOurEther c.transmitter.net buf len) }

def ArpClient.step (c : ArpClient) : ArpEvent -> ArpClient
  | .send call now => (c.sendUDP call now).2
  | .timeout now => c.arpTimeoutCheck now
  | .receive buf len => c.receive buf len

/-!
# The frame that waits
-/

def directFrame (t : Transmitter) (mac : EtherAddr) (dest : BitVec 32)
    (dport sport len : Nat) : List Byte :=
  bytesAt (setHeaders t t.netTxPacket mac dest dport sport len).1 0
    (netEthHdrSize t.net + ipHdrSize + len)

theorem netSendUDPPacket_direct (t : Transmitter) (ether : EtherAddr) (dest : BitVec 32)
    (dport sport len : Nat)
    (hknown : etherFor ether (newStyleDest dest) ≠ netEtherNullAddr) :
    (netSendUDPPacket t ether dest dport sport len).1 = 0 ∧
      (netSendUDPPacket t ether dest dport sport len).2.net = ethSend t.net
        (directFrame t (etherFor ether (newStyleDest dest)) (newStyleDest dest) dport sport
          len) := by
  have hplace : forall addr, (setHeaders t t.netTxPacket addr (newStyleDest dest) dport sport
      len).2 = netEthHdrSize t.net := fun addr => netSetEther_size t.net _ addr.val protIp
  unfold netSendUDPPacket directFrame
  dsimp only
  rw [if_neg hknown, hplace]
  exact ⟨rfl, rfl⟩

theorem netCksumSum_congr {first second : Buffer} {ptr len : Nat} (xsum : BitVec 32)
    (h : forall k, ptr <= k -> k < ptr + 2 * len -> first k = second k) :
    netCksumSum first ptr len xsum = netCksumSum second ptr len xsum := by
  induction len generalizing ptr xsum with
  | zero =>
      rfl
  | succ len ih =>
      have hshort : shortAt first ptr = shortAt second ptr := by
        unfold shortAt
        rw [h ptr (by omega) (by omega), h (ptr + 1) (by omega) (by omega)]
      unfold netCksumSum
      rw [hshort]
      exact ih _ (fun k hk hlt => h k (by omega) (by omega))

/-- The headers of IP and UDP do not depend on what was in the buffer. -/
theorem netSetIP_same (t : Transmitter) (first second : Buffer) (ip : Nat) (dest : BitVec 32)
    (dport sport len : Nat) {k : Nat} (hge : ip <= k) (hlt : k < ip + 28) :
    netSetIP t first ip dest dport sport len k = netSetIP t second ip dest dport sport len k := by
  have hlength : (ipHeader t.net.netOurIP t.netIPID dest dport sport len).length = 28 := rfl
  have hwritten : forall base other : Buffer, forall j, ip <= j -> j < ip + 28 ->
      copyTo base ip (ipHeader t.net.netOurIP t.netIPID dest dport sport len) j =
        copyTo other ip (ipHeader t.net.netOurIP t.netIPID dest dport sport len) j := by
    intro base other j hj hj'
    rw [copyTo_inside base hj (by rw [hlength]; omega),
      copyTo_inside other hj (by rw [hlength]; omega)]
  unfold netSetIP netCksum
  dsimp only
  rw [netCksumSum_congr 0#32 (fun j hj hj' => hwritten _ _ j hj (by
    unfold ipHdrSizeNoUdp at hj'
    omega))]
  generalize (BitVec.setWidth 16 _) = sum
  have hsize : (shortBytes sum).length = 2 := rfl
  by_cases hsum : ip + 10 <= k ∧ k < ip + 12
  · rw [copyTo_inside _ hsum.left (by omega), copyTo_inside _ hsum.left (by omega)]
  · have houtside : forall base : Buffer, copyTo base (ip + 10) (shortBytes sum) k = base k :=
      fun base => copyTo_outside base (by omega)
    rw [houtside, houtside]
    exact hwritten _ _ k hge hlt

/-- Behind the address, a header does not depend on the address or on the buffer. -/
theorem copyTo_same (first second : Buffer) {addr other rest : List Byte}
    (haddr : addr.length = 6) (hother : other.length = 6) {k : Nat} (hge : 6 <= k)
    (hlt : k < 6 + rest.length) :
    copyTo first 0 (addr ++ rest) k = copyTo second 0 (other ++ rest) k := by
  rw [copyTo_inside first (Nat.zero_le k) (by rw [List.length_append]; omega),
    copyTo_inside second (Nat.zero_le k) (by rw [List.length_append]; omega)]
  simp only [Nat.sub_zero, List.get_eq_getElem]
  rw [List.getElem_append_right (by omega), List.getElem_append_right (by omega)]
  simp only [haddr, hother]

theorem netSetEther_same (s : NetState) (first second : Buffer) {addr other : List Byte}
    (prot : BitVec 16) (haddr : addr.length = 6) (hother : other.length = 6)
    (hours : s.netOurEther.length = 6) {k : Nat} (hge : 6 <= k) (hlt : k < netEthHdrSize s) :
    (netSetEther s first addr prot).1 k = (netSetEther s second other prot).1 k := by
  unfold netSetEther
  unfold netEthHdrSize at hlt
  dsimp only
  split
  case isTrue hplain =>
      rw [if_pos hplain] at hlt
      dsimp only
      simp only [List.append_assoc]
      refine copyTo_same first second haddr hother hge ?_
      simp only [List.length_append, hours, List.length_cons, List.length_nil]
      exact hlt
  case isFalse htagged =>
      rw [if_neg htagged] at hlt
      dsimp only
      simp only [List.append_assoc]
      refine copyTo_same first second haddr hother hge ?_
      simp only [List.length_append, hours, List.length_cons, List.length_nil]
      exact hlt

theorem netSetEther_front (s : NetState) (buf : Buffer) {addr : List Byte} (prot : BitVec 16)
    (haddr : addr.length = 6) {k : Nat} (hk : k < 6) :
    (netSetEther s buf addr prot).1 k = addr.getD k 0#8 := by
  have hfront : forall rest, copyTo buf 0 (addr ++ rest) k = addr.getD k 0#8 := by
    intro rest
    rw [copyTo_inside buf (Nat.zero_le k) (by rw [List.length_append]; omega)]
    simp only [Nat.sub_zero, List.get_eq_getElem]
    rw [List.getElem_append_left (by omega), List.getD_eq_getElem?_getD,
      List.getElem?_eq_getElem (by omega), Option.getD_some]
  unfold netSetEther
  dsimp only
  split
  · dsimp only
    rw [List.append_assoc]
    exact hfront _
  · dsimp only
    rw [List.append_assoc, List.append_assoc]
    exact hfront _

/--
With the learned address in front, the frame that waits is the direct one: the headers are
the same behind the address, and the payload was copied at the call.
-/
theorem waiting_frame (t : Transmitter) (base : Buffer) (ether mac : EtherAddr)
    (dest : BitVec 32) (dport sport len : Nat) :
    bytesAt (copyTo (copyTo (setHeaders t base ether dest dport sport len).1
        (netEthHdrSize t.net + ipHdrSize)
        (bytesAt t.netTxPacket (netEthHdrSize t.net + ipHdrSize) len)) 0 mac.val) 0
      (netEthHdrSize t.net + ipHdrSize + len) = directFrame t mac dest dport sport len := by
  have hsize : ipHdrSize = 28 := rfl
  have hmac := mac.property
  have hours := t.etherLength
  have hether : 14 <= netEthHdrSize t.net := by
    unfold netEthHdrSize
    split
    · decide
    · decide
  unfold directFrame
  refine bytesAt_congr (fun k hk => ?_)
  rw [Nat.zero_add]
  by_cases hpayload : netEthHdrSize t.net + ipHdrSize <= k
  · obtain ⟨j, rfl⟩ := Nat.exists_eq_add_of_le hpayload
    rw [setHeaders_payload t _ mac dest dport sport (show j < len by omega),
      copyTo_outside _ (by rw [hmac]; omega),
      copyTo_inside _ (Nat.le_add_right _ _) (by rw [bytesAt_length]; omega)]
    simp [bytesAt]
  · have hheader : forall buf addr, (setHeaders t buf addr dest dport sport len).1 k =
        netSetIP t (netSetEther t.net buf addr.val protIp).1 (netEthHdrSize t.net) dest dport
          sport len k := by
      intro buf addr
      unfold setHeaders
      dsimp only
      rw [netSetEther_size]
    rw [hheader]
    by_cases hfront : k < 6
    · rw [netSetIP_outside _ _ _ _ _ _ (Or.inl (by omega)),
        netSetEther_front t.net _ protIp hmac hfront,
        copyTo_inside _ (Nat.zero_le k) (by omega), List.getD_eq_getElem?_getD,
        List.getElem?_eq_getElem (by omega), Option.getD_some]
      rfl
    · rw [copyTo_outside _ (by rw [hmac]; omega), copyTo_outside _ (Or.inl (by omega)), hheader]
      by_cases hip : netEthHdrSize t.net <= k
      · exact netSetIP_same t _ _ _ dest dport sport len hip (by omega)
      · rw [netSetIP_outside _ _ _ _ _ _ (Or.inl (by omega)),
          netSetIP_outside _ _ _ _ _ _ (Or.inl (by omega))]
        exact netSetEther_same t.net _ _ protIp ether.property hmac hours (by omega) (by omega)

/-!
# What waits
-/

/-- A deferred call, and the transmitter that it found with the payload in its buffer. -/
structure Deferral where
  transmitter : Transmitter
  call : SendCall

def Deferral.frame (d : Deferral) (mac : EtherAddr) : List Byte :=
  directFrame d.transmitter mac (newStyleDest d.call.dest) d.call.dport d.call.sport d.call.len

def SendCall.Unknown (call : SendCall) : Prop :=
  etherFor call.ether (newStyleDest call.dest) = netEtherNullAddr

/--
The address that has to answer: the gateway for a destination outside of our subnet, and
the destination otherwise, or when no gateway is set.
-/
def awaited (t : Transmitter) (dest : BitVec 32) : BitVec 32 :=
  if dest &&& t.netOurSubnetMask ≠ t.net.netOurIP &&& t.netOurSubnetMask ∧
      t.netOurGatewayIP ≠ 0#32 then t.netOurGatewayIP
  else dest

structure SameSettings (t u : Transmitter) : Prop where
  netOurIP : u.net.netOurIP = t.net.netOurIP
  netOurVLAN : u.net.netOurVLAN = t.net.netOurVLAN
  netOurSubnetMask : u.netOurSubnetMask = t.netOurSubnetMask
  netOurGatewayIP : u.netOurGatewayIP = t.netOurGatewayIP

structure Pending (t : Transmitter) (d : Deferral) : Prop where
  packetIP : t.net.netArpWaitPacketIP = newStyleDest d.call.dest
  pointer : t.net.netArpWaitPacketMAC = true
  replyIP : t.net.netArpWaitReplyIP = awaited d.transmitter (newStyleDest d.call.dest)
  frame : forall mac : EtherAddr, bytesAt (copyTo t.net.netArpWaitTxPacket 0 mac.val) 0
    t.net.netArpWaitTxPacketSize = d.frame mac

def ArpEvent.Direct : ArpEvent -> Prop
  | .send call _ => ¬ call.Unknown
  | _ => False

/-- The frames that an event hands to `eth_send`. -/
def ArpClient.newFrames (c : ArpClient) (event : ArpEvent) : List (List Byte) :=
  (c.step event).transmitter.net.sent.drop c.transmitter.net.sent.length

/-- An event transmits a deferred datagram: no ARP packet, and not the frame of its own call. -/
def ArpClient.Transmits (c : ArpClient) (event : ArpEvent) (frame : List Byte) : Prop :=
  ¬ event.Direct ∧ frame ∈ c.newFrames event ∧ frameProt c.transmitter.net frame ≠ protArp

variable {t : Transmitter} {c : ArpClient} {d : Deferral} {event : ArpEvent}

theorem awaited_same {u : Transmitter} (h : SameSettings t u) (dest : BitVec 32) :
    awaited u dest = awaited t dest := by
  unfold awaited
  rw [h.netOurIP, h.netOurSubnetMask, h.netOurGatewayIP]

theorem arpTarget_awaited (t : Transmitter) :
    (arpTarget t).1 = awaited t t.net.netArpWaitPacketIP := by
  unfold arpTarget awaited
  split_ifs with h1 h2 h3 h4 h5
  · exact absurd h2 h3.right
  · rfl
  · rfl
  · exact absurd ⟨h1, h2⟩ h4
  · exact absurd h5.left h1
  · rfl

theorem arpRequest_sent (t : Transmitter) :
    exists frame, (arpRequest t).net.sent = t.net.sent ++ [frame] ∧
      frameProt t.net frame = protArp := by
  refine ⟨_, rfl, ?_⟩
  refine frameProt_bytesAt t.netTxPacket netBcastAddr.property t.etherLength ?_ ?_
  · rw [netSetEther_size]
    exact Nat.le_add_right _ _
  · intro k hk
    rw [copyTo_outside _ (Or.inl (by rw [netSetEther_size]; exact hk))]

theorem arpRequest_settings (t : Transmitter) : SameSettings t (arpRequest t) :=
  ⟨rfl, rfl, rfl, rfl⟩

theorem newFrames_of_sent {frames : List (List Byte)}
    (h : (c.step event).transmitter.net.sent = c.transmitter.net.sent ++ frames) :
    c.newFrames event = frames := by
  unfold ArpClient.newFrames
  rw [h, List.drop_left]

theorem not_transmits {frames : List (List Byte)}
    (h : (c.step event).transmitter.net.sent = c.transmitter.net.sent ++ frames)
    (harp : forall frame, frame ∈ frames -> frameProt c.transmitter.net frame = protArp)
    (frame : List Byte) : ¬ c.Transmits event frame := by
  rintro ⟨_, hmem, hprot⟩
  rw [newFrames_of_sent h] at hmem
  exact hprot (harp frame hmem)

/-!
# Steps
-/

theorem send_unknown (c : ArpClient) (call : SendCall) (now : BitVec 32)
    (hunknown : call.Unknown) :
    SameSettings c.transmitter (c.step (.send call now)).transmitter ∧
      Pending (c.step (.send call now)).transmitter ⟨c.transmitter.filled call, call⟩ ∧
      forall frame, ¬ c.Transmits (.send call now) frame := by
  unfold SendCall.Unknown at hunknown
  generalize ht : c.transmitter.filled call = t
  have hnet : t.net = c.transmitter.net := by
    rw [<- ht]
    rfl
  have hplace : (setHeaders t t.net.netArpWaitTxPacket netEtherNullAddr
      (newStyleDest call.dest) call.dport call.sport call.len).2 = netEthHdrSize t.net :=
    netSetEther_size t.net _ _ protIp
  have hsend : netSendUDPPacket t call.ether call.dest call.dport call.sport call.len =
      (1, arpRequest { t with
        net := { t.net with
          netArpWaitPacketIP := newStyleDest call.dest
          netArpWaitPacketMAC := true
          netArpWaitTxPacket := copyTo (setHeaders t t.net.netArpWaitTxPacket
            netEtherNullAddr (newStyleDest call.dest) call.dport call.sport call.len).1
            (netEthHdrSize t.net + ipHdrSize)
            (bytesAt t.netTxPacket (netEthHdrSize t.net + ipHdrSize) call.len)
          netArpWaitTxPacketSize := netEthHdrSize t.net + ipHdrSize + call.len }
        netIPID := t.netIPID + 1
        etherLength := t.etherLength }) := by
    unfold netSendUDPPacket
    dsimp only
    rw [if_pos hunknown, hunknown, hplace]
  have hstep : (c.step (.send call now)).transmitter =
      (netSendUDPPacket t call.ether call.dest call.dport call.sport call.len).2 := by
    show (c.sendUDP call now).2.transmitter = _
    unfold ArpClient.sendUDP
    dsimp only
    rw [ht, hsend, if_pos rfl]
  rw [hsend] at hstep
  generalize hu : ({ t with
      net := _, netIPID := _, etherLength := _ } : Transmitter) = u at hstep
  have husent : u.net.sent = c.transmitter.net.sent := by
    rw [<- hu, <- hnet]
  rcases arpRequest_sent u with ⟨request, hsent, hprot⟩
  have hprot' : frameProt c.transmitter.net request = protArp := by
    rw [<- hnet]
    rw [<- hu] at hprot
    exact hprot
  refine ⟨?_, ⟨?_, ?_, ?_, ?_⟩, ?_⟩
  · rw [hstep, <- hu, <- ht]
    exact ⟨rfl, rfl, rfl, rfl⟩
  · rw [hstep, <- hu]
    rfl
  · rw [hstep, <- hu]
    rfl
  · have hreply : (arpRequest u).net.netArpWaitReplyIP = (arpTarget u).1 := rfl
    rw [hstep, hreply, arpTarget_awaited, <- hu]
    rfl
  · intro mac
    rw [hstep, <- hu]
    exact waiting_frame t t.net.netArpWaitTxPacket netEtherNullAddr mac
      (newStyleDest call.dest) call.dport call.sport call.len
  · have hnew : (c.step (.send call now)).transmitter.net.sent =
        c.transmitter.net.sent ++ [request] := by
      rw [hstep, <- husent]
      exact hsent
    refine not_transmits hnew ?_
    intro frame hframe
    rw [List.mem_singleton.mp hframe]
    exact hprot'

def ArpEvent.Defers : ArpEvent -> Prop
  | .send call _ => call.Unknown
  | _ => False

/-- What any other event can do to the packet that waits. -/
inductive Outcome (c : ArpClient) (event : ArpEvent) : Prop where
  | kept (settings : SameSettings c.transmitter (c.step event).transmitter)
      (packetIP : (c.step event).transmitter.net.netArpWaitPacketIP =
        c.transmitter.net.netArpWaitPacketIP)
      (pointer : (c.step event).transmitter.net.netArpWaitPacketMAC =
        c.transmitter.net.netArpWaitPacketMAC)
      (packet : (c.step event).transmitter.net.netArpWaitTxPacket =
        c.transmitter.net.netArpWaitTxPacket)
      (size : (c.step event).transmitter.net.netArpWaitTxPacketSize =
        c.transmitter.net.netArpWaitTxPacketSize)
      (replyIP : (c.step event).transmitter.net.netArpWaitReplyIP =
          c.transmitter.net.netArpWaitReplyIP ∨
        (c.step event).transmitter.net.netArpWaitReplyIP =
          awaited c.transmitter c.transmitter.net.netArpWaitPacketIP)
      (nothing : forall frame, ¬ c.Transmits event frame) : Outcome c event
  | taken (settings : SameSettings c.transmitter (c.step event).transmitter)
      (buf : Buffer) (len : Int) (mac : EtherAddr) (received : event = .receive buf len)
      (reply : ArpReply c.transmitter.net buf len c.transmitter.net.netArpWaitReplyIP mac.val)
      (waiting : c.transmitter.net.netArpWaitPacketIP ≠ 0#32)
      (idle : (c.step event).transmitter.net.netArpWaitPacketIP = 0#32)
      (frames : c.newFrames event = [bytesAt
        (copyTo c.transmitter.net.netArpWaitTxPacket 0 mac.val) 0
          c.transmitter.net.netArpWaitTxPacketSize]) : Outcome c event

theorem send_known (c : ArpClient) (call : SendCall) (now : BitVec 32)
    (hknown : ¬ call.Unknown) : Outcome c (.send call now) := by
  have hsend : (c.step (.send call now)).transmitter =
      (netSendUDPPacket (c.transmitter.filled call) call.ether call.dest call.dport
        call.sport call.len).2 := by
    show (c.sendUDP call now).2.transmitter = _
    unfold ArpClient.sendUDP
    dsimp only
    split
    · rfl
    · rfl
  have hdirect := netSendUDPPacket_direct (c.transmitter.filled call) call.ether call.dest
    call.dport call.sport call.len hknown
  have hrest : SameSettings c.transmitter (netSendUDPPacket (c.transmitter.filled call)
      call.ether call.dest call.dport call.sport call.len).2 := by
    have haddr : etherFor call.ether (newStyleDest call.dest) ≠ netEtherNullAddr := hknown
    unfold netSendUDPPacket
    dsimp only
    rw [if_neg haddr]
    exact ⟨rfl, rfl, rfl, rfl⟩
  refine .kept ?_ ?_ ?_ ?_ ?_ (Or.inl ?_) (fun frame htransmits => htransmits.left hknown)
  · rw [hsend]
    exact hrest
  all_goals
    rw [hsend, hdirect.right]
    rfl

theorem timeout_outcome (c : ArpClient) (now : BitVec 32) : Outcome c (.timeout now) := by
  have hquiet : forall c' : ArpClient, c.step (.timeout now) = c' ->
      SameSettings c.transmitter c'.transmitter ->
      c'.transmitter.net.netArpWaitPacketIP = c.transmitter.net.netArpWaitPacketIP ->
      c'.transmitter.net.netArpWaitPacketMAC = c.transmitter.net.netArpWaitPacketMAC ->
      c'.transmitter.net.netArpWaitTxPacket = c.transmitter.net.netArpWaitTxPacket ->
      c'.transmitter.net.netArpWaitTxPacketSize =
        c.transmitter.net.netArpWaitTxPacketSize ->
      (c'.transmitter.net.netArpWaitReplyIP = c.transmitter.net.netArpWaitReplyIP ∨
        c'.transmitter.net.netArpWaitReplyIP =
          awaited c.transmitter c.transmitter.net.netArpWaitPacketIP) ->
      (exists frames, c'.transmitter.net.sent = c.transmitter.net.sent ++ frames ∧
        forall frame, frame ∈ frames -> frameProt c.transmitter.net frame = protArp) ->
      Outcome c (.timeout now) := by
    rintro c' rfl hsettings hip hpointer hpacket hsize hreply ⟨frames, hsent, harp⟩
    exact .kept hsettings hip hpointer hpacket hsize hreply (not_transmits hsent harp)
  have hstep : c.step (.timeout now) = c.arpTimeoutCheck now := rfl
  unfold ArpClient.arpTimeoutCheck at hstep
  have hnone : forall frame : List Byte, frame ∈ ([] : List (List Byte)) ->
      frameProt c.transmitter.net frame = protArp := fun _ h => absurd h List.not_mem_nil
  split_ifs at hstep with hidle hlate hgiveUp
  · exact hquiet _ hstep ⟨rfl, rfl, rfl, rfl⟩ rfl rfl rfl rfl (Or.inl rfl)
      ⟨[], (List.append_nil _).symm, hnone⟩
  · exact hquiet _ hstep ⟨rfl, rfl, rfl, rfl⟩ rfl rfl rfl rfl (Or.inl rfl)
      ⟨[], (List.append_nil _).symm, hnone⟩
  · rcases arpRequest_sent c.transmitter with ⟨request, hsent, hprot⟩
    refine hquiet _ hstep (arpRequest_settings c.transmitter) rfl rfl rfl rfl
      (Or.inr (arpTarget_awaited c.transmitter)) ⟨[request], hsent, ?_⟩
    intro frame hframe
    rw [List.mem_singleton.mp hframe]
    exact hprot
  · exact hquiet _ hstep ⟨rfl, rfl, rfl, rfl⟩ rfl rfl rfl rfl (Or.inl rfl)
      ⟨[], (List.append_nil _).symm, hnone⟩

theorem receive_outcome (c : ArpClient) (buf : Buffer) (len : Int)
    (hrarp : NotRarp c.transmitter.net buf len) : Outcome c (.receive buf len) := by
  have hstep : (c.step (.receive buf len)).transmitter.net =
      (netReceive c.transmitter.net buf len).1 := rfl
  have hours := c.transmitter.etherLength
  have hquiet : forall frames, SameButSent c.transmitter.net
      (netReceive c.transmitter.net buf len).1 ->
      (netReceive c.transmitter.net buf len).1.sent = c.transmitter.net.sent ++ frames ->
      (forall frame, frame ∈ frames -> frameProt c.transmitter.net frame = protArp) ->
      Outcome c (.receive buf len) := by
    intro frames hsame hsent harp
    have hnothing := not_transmits (hstep ▸ hsent) harp
    unfold SameButSent at hsame
    refine .kept ⟨?_, ?_, rfl, rfl⟩ ?_ ?_ ?_ ?_ (Or.inl ?_) hnothing
    all_goals
      rw [hstep, hsame]
  have hreceived := netReceive_received hrarp hours
  generalize hnext : (netReceive c.transmitter.net buf len).1 = next at hreceived
  cases hreceived with
  | quiet same nothing =>
      refine hquiet [] (hnext ▸ same) ?_ (fun _ h => absurd h List.not_mem_nil)
      rw [hnext, nothing, List.append_nil]
  | answered frame same sent prot =>
      refine hquiet [frame] (hnext ▸ same) (hnext ▸ sent) ?_
      intro other hother
      rw [List.mem_singleton.mp hother]
      exact prot
  | taken mac reply waiting pointer =>
      have hmac : mac.length = 6 := by
        rcases reply with ⟨f, _, _, _, _, _, _, _, hmac⟩
        rw [hmac]
        exact bytesAt_length _ _ _
      rw [<- hstep] at hnext
      refine .taken ⟨?_, ?_, rfl, rfl⟩ buf len ⟨mac, hmac⟩ rfl reply waiting ?_
        (newFrames_of_sent ?_)
      all_goals
        rw [hnext]

theorem step_outcome (c : ArpClient) (event : ArpEvent) (hdefers : ¬ event.Defers)
    (hrarp : forall buf len, event = .receive buf len -> NotRarp c.transmitter.net buf len) :
    Outcome c event := by
  cases event with
  | send call now =>
      exact send_known c call now hdefers
  | timeout now =>
      exact timeout_outcome c now
  | receive buf len =>
      exact receive_outcome c buf len (hrarp buf len rfl)

/-!
# Runs
-/

def ArpClient.run (c : ArpClient) (events : List ArpEvent) : ArpClient :=
  events.foldl ArpClient.step c

theorem run_snoc (c : ArpClient) (events : List ArpEvent) (event : ArpEvent) :
    c.run (events ++ [event]) = (c.run events).step event := by
  unfold ArpClient.run
  rw [List.foldl_append]
  rfl

/--
The most recent deferred call of a run, with no later one, and with no datagram
transmitted since.
-/
def Latest (first : ArpClient) (events : List ArpEvent) (d : Deferral) : Prop :=
  exists before now between,
    events = before ++ .send d.call now :: between ∧ d.call.Unknown ∧
      d.transmitter = (first.run before).transmitter.filled d.call ∧
      forall front event back, between = front ++ event :: back -> ¬ event.Defers ∧
        forall frame, ¬ (first.run (before ++ .send d.call now :: front)).Transmits event frame

inductive Waits (first : ArpClient) (events : List ArpEvent) : Prop where
  | idle (none : (first.run events).transmitter.net.netArpWaitPacketIP = 0#32) :
      Waits first events
  | pending (d : Deferral) (latest : Latest first events d)
      (settings : SameSettings first.transmitter d.transmitter)
      (pending : Pending (first.run events).transmitter d) : Waits first events

theorem Latest.new (first : ArpClient) (events : List ArpEvent) (call : SendCall)
    (now : BitVec 32) (hunknown : call.Unknown) :
    Latest first (events ++ [.send call now])
      ⟨(first.run events).transmitter.filled call, call⟩ := by
  refine ⟨events, now, [], rfl, hunknown, rfl, ?_⟩
  intro front event back hnil
  cases front with
  | nil =>
      cases hnil
  | cons e front =>
      cases hnil

theorem Latest.snoc {first : ArpClient} {events : List ArpEvent} (h : Latest first events d)
    (hdefers : ¬ event.Defers)
    (hnothing : forall frame, ¬ (first.run events).Transmits event frame) :
    Latest first (events ++ [event]) d := by
  rcases h with ⟨before, now, between, rfl, hunknown, hfound, hbetween⟩
  refine ⟨before, now, between ++ [event], by simp, hunknown, hfound, ?_⟩
  intro front other back hsplit
  rcases List.eq_nil_or_concat back with rfl | ⟨back, last, rfl⟩
  · have hboth := List.append_inj' hsplit rfl
    cases hboth.left
    cases hboth.right
    exact ⟨hdefers, hnothing⟩
  · rw [List.concat_eq_append, <- List.cons_append, <- List.append_assoc] at hsplit
    exact hbetween front other back (List.append_inj' hsplit rfl).left

theorem SameSettings.trans {u v : Transmitter} (h : SameSettings t u) (h' : SameSettings u v) :
    SameSettings t v :=
  ⟨h'.netOurIP.trans h.netOurIP, h'.netOurVLAN.trans h.netOurVLAN,
    h'.netOurSubnetMask.trans h.netOurSubnetMask, h'.netOurGatewayIP.trans h.netOurGatewayIP⟩

theorem NotRarp.same {s' : NetState} (h : NotRarp s buf len)
    (hvlan : s'.netOurVLAN = s.netOurVLAN) : NotRarp s' buf len := by
  intro f hframing
  refine h f ?_
  unfold framing at hframing ⊢
  rw [<- hvlan]
  exact hframing

theorem Pending.kept {u : Transmitter} (h : Pending t d)
    (hsettings : SameSettings d.transmitter t)
    (hip : u.net.netArpWaitPacketIP = t.net.netArpWaitPacketIP)
    (hpointer : u.net.netArpWaitPacketMAC = t.net.netArpWaitPacketMAC)
    (hpacket : u.net.netArpWaitTxPacket = t.net.netArpWaitTxPacket)
    (hsize : u.net.netArpWaitTxPacketSize = t.net.netArpWaitTxPacketSize)
    (hreply : u.net.netArpWaitReplyIP = t.net.netArpWaitReplyIP ∨
      u.net.netArpWaitReplyIP = awaited t t.net.netArpWaitPacketIP) : Pending u d := by
  refine ⟨hip.trans h.packetIP, hpointer.trans h.pointer, ?_, ?_⟩
  · rcases hreply with hsame | hasked
    · exact hsame.trans h.replyIP
    · rw [hasked, h.packetIP, awaited_same hsettings]
  · intro mac
    rw [hpacket, hsize]
    exact h.frame mac

def ArpEvent.NotRarp (first : ArpClient) (event : ArpEvent) : Prop :=
  forall buf len, event = .receive buf len -> Network.NotRarp first.transmitter.net buf len

theorem settings_step (c : ArpClient) (event : ArpEvent)
    (hrarp : forall buf len, event = .receive buf len -> NotRarp c.transmitter.net buf len) :
    SameSettings c.transmitter (c.step event).transmitter := by
  by_cases hdefers : event.Defers
  · cases event with
    | send call now =>
        exact (send_unknown c call now hdefers).left
    | timeout now =>
        exact absurd hdefers id
    | receive buf len =>
        exact absurd hdefers id
  · cases step_outcome c event hdefers hrarp with
    | kept settings =>
        exact settings
    | taken settings =>
        exact settings

theorem settings_run (first : ArpClient) (events : List ArpEvent)
    (hevents : forall event, event ∈ events -> event.NotRarp first) :
    SameSettings first.transmitter (first.run events).transmitter := by
  induction events using List.reverseRecOn with
  | nil =>
      exact ⟨rfl, rfl, rfl, rfl⟩
  | append_singleton events event ih =>
      have hbefore := ih (fun e he => hevents e (List.mem_append_left _ he))
      have hevent := hevents event (by simp)
      rw [run_snoc]
      refine hbefore.trans (settings_step _ event ?_)
      intro buf len hreceive
      exact (hevent buf len hreceive).same hbefore.netOurVLAN

theorem Waits.step {first : ArpClient} {events : List ArpEvent} (h : Waits first events)
    (hsettings : SameSettings first.transmitter (first.run events).transmitter)
    (hrarp : forall buf len, event = .receive buf len ->
      NotRarp (first.run events).transmitter.net buf len) :
    Waits first (events ++ [event]) := by
  by_cases hdefers : event.Defers
  · cases event with
    | send call now =>
        have hstep := send_unknown (first.run events) call now hdefers
        refine .pending _ (Latest.new first events call now hdefers) ?_ ?_
        · exact ⟨hsettings.netOurIP, hsettings.netOurVLAN, hsettings.netOurSubnetMask,
            hsettings.netOurGatewayIP⟩
        · rw [run_snoc]
          exact hstep.right.left
    | timeout now =>
        exact absurd hdefers id
    | receive buf len =>
        exact absurd hdefers id
  · cases step_outcome (first.run events) event hdefers hrarp with
    | kept settings packetIP pointer packet size replyIP nothing =>
        cases h with
        | idle none =>
            refine .idle ?_
            rw [run_snoc, packetIP, none]
        | pending d latest same pending =>
            have hfound : SameSettings d.transmitter (first.run events).transmitter :=
              ⟨hsettings.netOurIP.trans same.netOurIP.symm,
                hsettings.netOurVLAN.trans same.netOurVLAN.symm,
                hsettings.netOurSubnetMask.trans same.netOurSubnetMask.symm,
                hsettings.netOurGatewayIP.trans same.netOurGatewayIP.symm⟩
            refine .pending d (latest.snoc hdefers nothing) same ?_
            rw [run_snoc]
            exact pending.kept hfound packetIP pointer packet size replyIP
    | taken settings buf len mac received reply waiting idle frames =>
        refine .idle ?_
        rw [run_snoc, idle]

theorem waits_run (first : ArpClient) (events : List ArpEvent)
    (hfirst : first.transmitter.net.netArpWaitPacketIP = 0#32)
    (hevents : forall event, event ∈ events -> event.NotRarp first) :
    Waits first events := by
  induction events using List.reverseRecOn with
  | nil =>
      exact .idle hfirst
  | append_singleton events event ih =>
      have hbefore : forall e, e ∈ events -> e.NotRarp first :=
        fun e he => hevents e (List.mem_append_left _ he)
      have hsettings := settings_run first events hbefore
      refine (ih hbefore).step hsettings ?_
      intro buf len hreceive
      exact (hevents event (by simp) buf len hreceive).same hsettings.netOurVLAN

/-- With an address for a destination that was unknown, the direct path sends the frame. -/
theorem Deferral.frame_direct (d : Deferral) (mac : EtherAddr) (hunknown : d.call.Unknown)
    (hmac : mac ≠ netEtherNullAddr) :
    (netSendUDPPacket d.transmitter mac d.call.dest d.call.dport d.call.sport
      d.call.len).2.net = ethSend d.transmitter.net (d.frame mac) := by
  have hunicast : newStyleDest d.call.dest ≠ 0xffffffff#32 := by
    intro hbroadcast
    unfold SendCall.Unknown etherFor at hunknown
    rw [if_pos hbroadcast] at hunknown
    exact absurd hunknown (by decide)
  have hsame : etherFor mac (newStyleDest d.call.dest) = mac := if_neg hunicast
  have hdirect := netSendUDPPacket_direct d.transmitter mac d.call.dest d.call.dport
    d.call.sport d.call.len (by rw [hsame]; exact hmac)
  rw [hsame] at hdirect
  exact hdirect.right

/--
Behind any run, an event transmits a deferred datagram only if it is an ARP reply to our
address from the address that the most recent deferred call waits for.  It is then one
frame, the one that the direct path would have built at that call with the learned
address, and the call was not transmitted before.
-/
theorem deferred_transmitted_once (first : ArpClient) (events : List ArpEvent)
    (event : ArpEvent) (frame : List Byte)
    (hfirst : first.transmitter.net.netArpWaitPacketIP = 0#32)
    (hevents : forall e, e ∈ events ++ [event] -> e.NotRarp first)
    (htransmits : (first.run events).Transmits event frame) :
    exists (d : Deferral) (buf : Buffer) (len : Int) (mac : EtherAddr),
      Latest first events d ∧ event = .receive buf len ∧
        ArpReply (first.run events).transmitter.net buf len
          (awaited d.transmitter (newStyleDest d.call.dest)) mac.val ∧
        (first.run events).newFrames event = [frame] ∧ frame = d.frame mac ∧
        (mac ≠ netEtherNullAddr ->
          (netSendUDPPacket d.transmitter mac d.call.dest d.call.dport d.call.sport
            d.call.len).2.net = ethSend d.transmitter.net frame) := by
  have hbefore : forall e, e ∈ events -> e.NotRarp first :=
    fun e he => hevents e (List.mem_append_left _ he)
  have hsettings := settings_run first events hbefore
  have hrarp : forall buf len, event = .receive buf len ->
      NotRarp (first.run events).transmitter.net buf len := by
    intro buf len hreceive
    exact (hevents event (by simp) buf len hreceive).same hsettings.netOurVLAN
  have hdefers : ¬ event.Defers := by
    intro hdefers
    cases event with
    | send call now =>
        exact (send_unknown (first.run events) call now hdefers).right.right frame htransmits
    | timeout now =>
        exact hdefers
    | receive buf len =>
        exact hdefers
  cases step_outcome (first.run events) event hdefers hrarp with
  | kept settings packetIP pointer packet size replyIP nothing =>
      exact absurd htransmits (nothing frame)
  | taken settings buf len mac received reply waiting idle frames =>
      cases waits_run first events hfirst hbefore with
      | idle none =>
          exact absurd none waiting
      | pending d latest same pending =>
          rw [pending.frame mac] at frames
          rw [pending.replyIP] at reply
          have hmem := htransmits.right.left
          rw [frames, List.mem_singleton] at hmem
          have hunknown : d.call.Unknown := by
            rcases latest with ⟨before, now, between, _, hunknown, _⟩
            exact hunknown
          refine ⟨d, buf, len, mac, latest, received, reply, ?_, hmem, ?_⟩
          · rw [frames, hmem]
          · intro hmac
            rw [hmem]
            exact d.frame_direct mac hunknown hmac

def sampleClient : ArpClient where
  transmitter := sampleTransmitter
  netArpWaitTimerStart := 0#32
  netArpWaitTry := 0
  startAgain := 0

def sampleSend : ArpEvent :=
  .send {
    netTxPacket := sampleTransmitter.netTxPacket
    ether := netEtherNullAddr
    dest := 0xc0a80064#32
    dport := 69
    sport := 1024
    len := 3 } 10#32

def sampleReply : Buffer := fun i =>
  ([0x00#8, 0x00#8, 0x5b#8, 0xee#8, 0xde#8, 0xad#8,
    0x00#8, 0x10#8, 0x20#8, 0x30#8, 0x40#8, 0x50#8, 0x08#8, 0x06#8,
    0x00#8, 0x01#8, 0x08#8, 0x00#8, 0x06#8, 0x04#8, 0x00#8, 0x02#8,
    0x00#8, 0x10#8, 0x20#8, 0x30#8, 0x40#8, 0x50#8, 0xc0#8, 0xa8#8, 0x00#8, 0x64#8,
    0x00#8, 0x00#8, 0x5b#8, 0xee#8, 0xde#8, 0xad#8, 0xc0#8, 0xa8#8, 0x00#8, 0x69#8]).getD i 0#8

/-- The request is repeated once before the answer comes. -/
theorem deferred_transmitted_once_reply :
    exists frame d mac,
      (sampleClient.run [sampleSend, .timeout 6000#32]).Transmits (.receive sampleReply 42)
        frame ∧
      Latest sampleClient [sampleSend, .timeout 6000#32] d ∧ frame = d.frame mac := by
  have hframe : exists frame, (sampleClient.run [sampleSend, .timeout 6000#32]).newFrames
      (.receive sampleReply 42) = [frame] ∧ frameProt sampleNet frame = protIp :=
    ⟨((sampleClient.run [sampleSend, .timeout 6000#32]).newFrames
      (.receive sampleReply 42)).headD [], by decide +kernel, by decide +kernel⟩
  rcases hframe with ⟨frame, hnew, hprot⟩
  have htransmits : (sampleClient.run [sampleSend, .timeout 6000#32]).Transmits
      (.receive sampleReply 42) frame := by
    refine ⟨id, by simp [hnew], ?_⟩
    have hsame : frameProt (sampleClient.run
        [sampleSend, .timeout 6000#32]).transmitter.net frame = frameProt sampleNet frame := rfl
    rw [hsame, hprot]
    decide
  have hrarp : forall e, e ∈ [sampleSend, .timeout 6000#32] ++ [.receive sampleReply 42] ->
      e.NotRarp sampleClient := by
    intro e he buf len hreceive f hframing
    have hprot' : framing sampleNet sampleReply 42 =
        some { prot := protArp, vlanid := vlanNone, ip := 14, len := 28 } := by
      decide +kernel
    subst hreceive
    have hlast : buf = sampleReply ∧ len = 42 := by
      simpa [sampleSend] using he
    rcases hlast with ⟨rfl, rfl⟩
    rw [show sampleClient.transmitter.net = sampleNet from rfl, hprot'] at hframing
    cases hframing
    decide
  rcases deferred_transmitted_once sampleClient [sampleSend, .timeout 6000#32]
    (.receive sampleReply 42) frame rfl hrarp htransmits with
    ⟨d, buf, len, mac, hlatest, _, _, _, hsame, _⟩
  exact ⟨frame, d, mac, htransmits, hlatest, hsame⟩

end Network
end Bab750
