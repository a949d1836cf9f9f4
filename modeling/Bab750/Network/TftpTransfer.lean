import Bab750.Foundation.Run
import Bab750.Network.Tftp
import Mathlib.Tactic.Ring

/-!
# A transfer with one server

The client of `net/tftp.c` against a stop-and-wait server.  The server sends block
after block, the next one when the last one is acknowledged.  The network may
lose, repeat, and delay what the server has sent, an acknowledgement may be lost,
and the timeout of the client may fire at any time.
-/

namespace Bab750
namespace Network

open Foundation
open Support

/-!
# Blocks
-/

/-- The number of blocks of a file: the last one is short, and may be empty. -/
def blockCount (size : Nat) (file : List Byte) : Nat :=
  file.length / size + 1

def blockBytes (size : Nat) (file : List Byte) (n : Nat) : List Byte :=
  (file.drop ((n - 1) * size)).take size

def dataPacket (size : Nat) (file : List Byte) (n : Nat) : List Byte :=
  shortBytes 3#16 ++ shortBytes (BitVec.ofNat 16 n) ++ blockBytes size file n

def ackNumber : List Byte -> Option (BitVec 16)
  | [0#8, 4#8, a, b] => some (a ++ b)
  | _ => none

/-!
# The system
-/

structure Session where
  file : List Byte
  /-- The block size in force. -/
  size : Nat
  /-- The port of the server. -/
  port : BitVec 32

/-- The client, the last block the server has sent, and the last one delivered. -/
structure Transfer where
  client : TftpClient
  sentBlocks : Nat
  delivered : Nat

/-- What can happen; `answered` says whether the answer of the client arrives. -/
inductive TransferEvent where
  | deliver (n : Nat) (stale : Buffer) (answered : Bool)
  | timeout (answered : Bool)

/-- The server sends the next block when its last one is acknowledged. -/
def serverReceive (x : Session) (sentBlocks : Nat) (packet : UdpPacket) : Nat :=
  if ackNumber packet.payload = some (BitVec.ofNat 16 sentBlocks) ∧
      sentBlocks < blockCount x.size x.file then sentBlocks + 1
  else sentBlocks

def serverAnswer (x : Session) (sentBlocks : Nat) (before after : TftpClient)
    (answered : Bool) : Nat :=
  if answered then
    (after.sent.drop before.sent.length).foldl (serverReceive x) sentBlocks
  else sentBlocks

def clientNext (x : Session) (t : Transfer) : TransferEvent -> TftpClient
  | .deliver n stale _ =>
      tftpHandler t.client (packetBuffer (dataPacket x.size x.file n) stale)
        t.client.tftpOurPort x.port
        (BitVec.ofNat 32 (dataPacket x.size x.file n).length)
  | .timeout _ => tftpTimeout t.client

def transferNext (x : Session) (t : Transfer) (event : TransferEvent) : Transfer :=
  match event with
  | .deliver n _ answered =>
      { client := clientNext x t event
        sentBlocks := serverAnswer x t.sentBlocks t.client (clientNext x t event) answered
        delivered := max t.delivered n }
  | .timeout answered =>
      { client := clientNext x t event
        sentBlocks := serverAnswer x t.sentBlocks t.client (clientNext x t event) answered
        delivered := t.delivered }

/-- Only blocks that the server has sent can be delivered. -/
def TransferEnabled (t : Transfer) : TransferEvent -> Prop
  | .deliver n _ _ => 1 <= n ∧ n <= t.sentBlocks
  | .timeout _ => True

def TransferStep (x : Session) (t : Transfer) (event : TransferEvent)
    (u : Transfer) : Prop :=
  TransferEnabled t event ∧ t.client.startedAgain = 0 ∧ u = transferNext x t event

/--
A block belongs to the same round of block numbers as the last one delivered, and
is not the one whose number is zero.
-/
def SameRound (delivered n : Nat) : Prop :=
  n % 65536 ≠ 0 ∧ n / 65536 = delivered / 65536

/-- A delivery brings the next block, or repeats one of the same round. -/
def Timely (t : Transfer) : TransferEvent -> Prop
  | .deliver n _ _ => n = t.delivered + 1 ∨ SameRound t.delivered n
  | .timeout _ => True

def TimelyStep (x : Session) (t : Transfer) (event : TransferEvent)
    (u : Transfer) : Prop :=
  Timely t event ∧ TransferStep x t event u

/-- The client when the options are settled and the first block is not there yet. -/
structure TransferStart (x : Session) (t : Transfer) : Prop where
  size : t.client.tftpBlkSize.toNat = x.size
  sizePos : 0 < x.size
  phase : t.client.tftpState = .rrq ∨
    (t.client.tftpState = .oack ∧ t.client.tftpServerPort = x.port)
  block : t.client.tftpBlock = 0#32
  xferSize : t.client.netBootFileXferSize = 0#32
  netState : t.client.netState = .continue
  sentBlocks : t.sentBlocks = 1
  delivered : t.delivered = 0

/-!
# Facts about blocks
-/

theorem blockBytes_length (size : Nat) (file : List Byte) (n : Nat) :
    (blockBytes size file n).length = min size (file.length - (n - 1) * size) := by
  simp [blockBytes]

theorem blockBytes_short_iff {size : Nat} {file : List Byte} {n : Nat}
    (hsize : 0 < size) (hn : 1 <= n) :
    (blockBytes size file n).length < size <-> blockCount size file <= n := by
  rw [blockBytes_length]
  unfold blockCount
  have hdiv : file.length / size < n <-> file.length < n * size :=
    Nat.div_lt_iff_lt_mul hsize
  have hmul : n * size = (n - 1) * size + size := by
    rw [Nat.sub_mul, Nat.one_mul, Nat.sub_add_cancel]
    exact Nat.le_mul_of_pos_left size hn
  constructor
  · intro h
    have hlt : file.length < n * size := by omega
    exact hdiv.mpr hlt
  · intro h
    have hlt := hdiv.mp h
    omega

theorem blockBytes_le (size : Nat) (file : List Byte) (n : Nat) :
    (blockBytes size file n).length <= size := by
  rw [blockBytes_length]
  exact Nat.min_le_left _ _

theorem take_blockCount {size : Nat} (hsize : 0 < size) (file : List Byte) :
    file.take (blockCount size file * size) = file := by
  apply List.take_of_length_le
  unfold blockCount
  have hlt : file.length < (file.length / size + 1) * size :=
    (Nat.div_lt_iff_lt_mul hsize).mp (Nat.lt_succ_self _)
  omega

/-!
# The handler on a DATA packet
-/

theorem shortAt_shortBytes (x : BitVec 16) (buf : Buffer) (i : Nat)
    (h0 : buf i = x.extractLsb' 8 8) (h1 : buf (i + 1) = x.extractLsb' 0 8) :
    shortAt buf i = x := by
  unfold shortAt
  rw [h0, h1]
  apply BitVec.eq_of_getLsbD_eq
  intro k hk
  simp
  grind

theorem bytesAt_shift (buf : Buffer) (shift i count : Nat) :
    bytesAt (fun k => buf (k + shift)) i count = bytesAt buf (i + shift) count := by
  unfold bytesAt
  apply List.map_congr_left
  intro k _
  rw [Nat.add_right_comm]

theorem bytesAt_packetBuffer (pre bytes : List Byte) (stale : Buffer) :
    bytesAt (packetBuffer (pre ++ bytes) stale) pre.length bytes.length = bytes := by
  unfold bytesAt packetBuffer
  apply List.ext_getElem
  · simp
  · intro k hk hk'
    simp [List.getElem?_append_right, List.getElem?_eq_getElem hk']

theorem tftpHandler_data (x : Session) (s : TftpClient) (n : Nat) (stale : Buffer)
    (hport : s.tftpState = .rrq ∨ s.tftpServerPort = x.port)
    (hsize : x.size < 65536) :
    tftpHandler s (packetBuffer (dataPacket x.size x.file n) stale) s.tftpOurPort
        x.port (BitVec.ofNat 32 (dataPacket x.size x.file n).length) =
      tftpData s x.port (BitVec.ofNat 16 n) (blockBytes x.size x.file n) := by
  have hblock := blockBytes_le x.size x.file n
  have hlen : (dataPacket x.size x.file n).length =
      4 + (blockBytes x.size x.file n).length := by
    unfold dataPacket shortBytes
    rw [List.length_append, List.length_append]
    rfl
  have hlen32 : (BitVec.ofNat 32 (dataPacket x.size x.file n).length).toNat =
      4 + (blockBytes x.size x.file n).length := by
    rw [hlen, BitVec.toNat_ofNat]
    exact Nat.mod_eq_of_lt (by omega)
  have hsrc : ¬ (s.tftpState ≠ .rrq ∧ x.port ≠ s.tftpServerPort) := by
    rintro ⟨hphase, hother⟩
    rcases hport with hrrq | hsame
    · exact hphase hrrq
    · exact hother hsame.symm
  have hop : shortAt (packetBuffer (dataPacket x.size x.file n) stale) 0 = 3#16 :=
    shortAt_shortBytes 3#16 _ 0 rfl rfl
  have hnumber : shortAt
      (fun i => packetBuffer (dataPacket x.size x.file n) stale (i + 2)) 0 =
        BitVec.ofNat 16 n :=
    shortAt_shortBytes (BitVec.ofNat 16 n) _ 0 rfl rfl
  have hpayload : bytesAt
      (fun i => packetBuffer (dataPacket x.size x.file n) stale (i + 2)) 2
        (blockBytes x.size x.file n).length = blockBytes x.size x.file n := by
    rw [bytesAt_shift]
    exact bytesAt_packetBuffer (shortBytes 3#16 ++ shortBytes (BitVec.ofNat 16 n))
      (blockBytes x.size x.file n) stale
  unfold tftpHandler
  simp only [ne_eq, not_true_eq_false, if_false, if_neg hsrc, hlen32, hop, hnumber]
  rw [if_neg (by omega), if_neg (by decide), if_pos trivial, if_neg (by omega)]
  rw [show 4 + (blockBytes x.size x.file n).length - 2 - 2 =
    (blockBytes x.size x.file n).length by omega, hpayload]

/-!
# One block
-/

/-- A repeated or new block whose number the client remembers. -/
def Recent (delivered n : Nat) : Prop :=
  n = delivered ∨ (n <= delivered ∧ SameRound delivered n)

def wireBlock (n : Nat) : BitVec 32 := (BitVec.ofNat 16 n).setWidth 32

theorem wireBlock_inj {n k : Nat} : wireBlock n = wireBlock k <-> n % 65536 = k % 65536 := by
  unfold wireBlock
  constructor
  · intro h
    have hnat := congrArg BitVec.toNat h
    simp only [BitVec.toNat_setWidth, BitVec.toNat_ofNat] at hnat
    omega
  · intro h
    apply BitVec.eq_of_toNat_eq
    simp only [BitVec.toNat_setWidth, BitVec.toNat_ofNat]
    omega

theorem wireBlock_eq_zero {n : Nat} : wireBlock n = 0#32 <-> n % 65536 = 0 := by
  rw [show (0#32 : BitVec 32) = wireBlock 0 from rfl, wireBlock_inj]

theorem recent_next {delivered n : Nat} (h : Recent delivered n) :
    n % 65536 ≠ (delivered + 1) % 65536 := by
  rcases h with rfl | ⟨hle, hzero, hround⟩
  · omega
  · omega

theorem recent_sent {delivered n sentBlocks : Nat} (h : Recent delivered n)
    (hlow : delivered <= sentBlocks) (hhigh : sentBlocks <= delivered + 1)
    (hsame : n % 65536 = sentBlocks % 65536) : sentBlocks = delivered := by
  have hnext := recent_next h
  by_cases heq : sentBlocks = delivered + 1
  · rw [heq] at hsame
    exact absurd hsame hnext
  · omega

theorem blockOffset (size : BitVec 16) (n : Nat) (hn : 1 <= n) :
    (wireBlock n - 1#32) * size.setWidth 32 +
        BitVec.ofNat 32 (n / 65536 * 65536 * size.toNat) =
      BitVec.ofNat 32 ((n - 1) * size.toNat) := by
  have hsize : size.setWidth 32 = BitVec.ofNat 32 size.toNat := by
    apply BitVec.eq_of_toNat_eq
    simp only [BitVec.toNat_setWidth, BitVec.toNat_ofNat]
  have hwire : wireBlock n = BitVec.ofNat 32 (n % 65536) := by
    apply BitVec.eq_of_toNat_eq
    simp only [wireBlock, BitVec.toNat_setWidth, BitVec.toNat_ofNat]
  have hsplit : BitVec.ofNat 32 (n - 1) + 1#32 =
      BitVec.ofNat 32 (n / 65536 * 65536) + BitVec.ofNat 32 (n % 65536) := by
    rw [← BitVec.ofNat_add, ← BitVec.ofNat_add]
    congr 1
    omega
  have hpred : BitVec.ofNat 32 (n - 1) =
      BitVec.ofNat 32 (n / 65536 * 65536) + BitVec.ofNat 32 (n % 65536) - 1#32 := by
    rw [← hsplit, BitVec.add_sub_cancel]
  rw [hsize, hwire, BitVec.ofNat_mul (n - 1), BitVec.ofNat_mul (n / 65536 * 65536),
    hpred]
  ring

/-- What the first blocks of the file have left in memory and in the size. -/
structure StoredUpTo (x : Session) (start s : TftpClient) (m : Nat) : Prop where
  memory : s.memory =
    copyMemory start.memory start.loadAddr (x.file.take (m * x.size))
  xferSize : s.netBootFileXferSize =
    BitVec.ofNat 32 (x.file.take (m * x.size)).length

theorem storeBlock_storedUpTo {x : Session} {start s : TftpClient} {m n : Nat}
    (hstored : StoredUpTo x start s m) (hload : s.loadAddr = start.loadAddr)
    (hsize : s.tftpBlkSize.toNat = x.size) (hfile : x.file.length < 2 ^ 32)
    (hn : 1 <= n) (hnext : n <= m + 1) (hcount : n <= blockCount x.size x.file)
    (hpos : 0 < x.size) (hblock : s.tftpBlock = wireBlock n)
    (hwrap : s.tftpBlockWrapOffset = BitVec.ofNat 32 (n / 65536 * 65536 * x.size)) :
    StoredUpTo x start
      (storeBlock s (s.tftpBlock - 1#32) (blockBytes x.size x.file n)) (max m n) := by
  have hoffset : (s.tftpBlock - 1#32) * s.tftpBlkSize.setWidth 32 +
      s.tftpBlockWrapOffset = BitVec.ofNat 32 ((n - 1) * x.size) := by
    rw [hblock, hwrap, ← hsize]
    exact blockOffset s.tftpBlkSize n hn
  have hmul : n * x.size = (n - 1) * x.size + x.size := by
    rw [Nat.sub_mul, Nat.one_mul, Nat.sub_add_cancel]
    exact Nat.le_mul_of_pos_left x.size hn
  have hgap : (n - 1) * x.size <= m * x.size :=
    Nat.mul_le_mul_right x.size (by omega)
  have hmax : max (m * x.size) ((n - 1) * x.size + x.size) = max m n * x.size := by
    rw [← hmul]
    exact Nat.mul_max_mul_right m n x.size
  have hinside : (n - 1) * x.size <= x.file.length := by
    have hle : n - 1 <= x.file.length / x.size := by
      unfold blockCount at hcount
      omega
    exact (Nat.le_div_iff_mul_le hpos).mp hle
  constructor
  · show copyMemory s.memory (s.loadAddr + _) (blockBytes x.size x.file n) = _
    rw [hoffset, hstored.memory, hload]
    unfold blockBytes
    rw [copyMemory_piece _ _ _ _ _ _ hgap hfile, hmax]
  · show (if s.netBootFileXferSize < _ + _ then _ else s.netBootFileXferSize) = _
    rw [hoffset, hstored.xferSize, ← BitVec.ofNat_add, blockBytes_length]
    simp only [List.length_take, BitVec.lt_def, BitVec.toNat_ofNat]
    rw [Nat.mod_eq_of_lt (show min (m * x.size) x.file.length < 2 ^ 32 by omega),
      Nat.mod_eq_of_lt (show (n - 1) * x.size +
        min x.size (x.file.length - (n - 1) * x.size) < 2 ^ 32 by omega), ← hmax]
    split
    · congr 1
      omega
    · congr 1
      omega

theorem wrapOffset_round {size : BitVec 16} {m n : Nat} (hn : n = m + 1 ∨ SameRound m n) :
    (if wireBlock n = 0#32 then
      BitVec.ofNat 32 (m / 65536 * 65536 * size.toNat) + size.setWidth 32 * 0x10000#32
    else BitVec.ofNat 32 (m / 65536 * 65536 * size.toNat)) =
      BitVec.ofNat 32 (n / 65536 * 65536 * size.toNat) := by
  have hsize : size.setWidth 32 = BitVec.ofNat 32 size.toNat := by
    apply BitVec.eq_of_toNat_eq
    simp only [BitVec.toNat_setWidth, BitVec.toNat_ofNat]
  by_cases hzero : n % 65536 = 0
  · rw [if_pos (wireBlock_eq_zero.mpr hzero)]
    have hround : n / 65536 = m / 65536 + 1 := by
      rcases hn with rfl | ⟨hne, _⟩
      · omega
      · exact absurd hzero hne
    rw [hround, hsize, show (0x10000#32 : BitVec 32) = BitVec.ofNat 32 65536 from rfl,
      ← BitVec.ofNat_mul, ← BitVec.ofNat_add]
    congr 1
    ring
  · rw [if_neg (fun h => hzero (wireBlock_eq_zero.mp h))]
    have hround : n / 65536 = m / 65536 := by
      rcases hn with rfl | ⟨_, hsame⟩
      · omega
      · exact hsame
    rw [hround]

/-!
# The invariant of a transfer
-/

inductive ClientPhase (x : Session) (s : TftpClient) (delivered : Nat) : Prop where
  | waiting (none : delivered = 0)
      (phase : s.tftpState = .rrq ∨
        (s.tftpState = .oack ∧ s.tftpServerPort = x.port))
  | receiving (some : 1 <= delivered) (phase : s.tftpState = .data)
      (port : s.tftpServerPort = x.port)
      (wrap : s.tftpBlockWrapOffset =
        BitVec.ofNat 32 (delivered / 65536 * 65536 * x.size))
      (last : s.tftpLastBlock = s.tftpBlock)

structure ClientInv (x : Session) (start s : TftpClient) (delivered : Nat) : Prop where
  size : s.tftpBlkSize.toNat = x.size
  load : s.loadAddr = start.loadAddr
  stored : StoredUpTo x start s delivered
  done : s.netState = .success -> delivered = blockCount x.size x.file
  recent : exists n, Recent delivered n ∧ s.tftpBlock = wireBlock n
  phase : ClientPhase x s delivered

structure TransferInv (x : Session) (start : TftpClient) (t : Transfer) : Prop where
  client : ClientInv x start t.client t.delivered
  low : t.delivered <= t.sentBlocks
  high : t.sentBlocks <= t.delivered + 1
  count : t.sentBlocks <= blockCount x.size x.file

theorem transferStart_inv {x : Session} {t : Transfer} (h : TransferStart x t) :
    TransferInv x t.client t := by
  have hcount : 1 <= blockCount x.size x.file := Nat.le_add_left 1 _
  constructor
  · constructor
    · exact h.size
    · rfl
    · constructor
      · rw [h.delivered, Nat.zero_mul, List.take_zero, copyMemory_nil]
      · rw [h.delivered, Nat.zero_mul, List.take_zero, h.xferSize]
        rfl
    · intro hsuccess
      rw [h.netState] at hsuccess
      cases hsuccess
    · refine ⟨0, Or.inl h.delivered.symm, ?_⟩
      rw [h.block]
      rfl
    · exact .waiting h.delivered h.phase
  · rw [h.delivered]
    exact Nat.zero_le _
  · rw [h.delivered, h.sentBlocks]
  · rw [h.sentBlocks]
    exact hcount

/-!
# Answers
-/

theorem ackNumber_ack (x : BitVec 16) :
    ackNumber (shortBytes 4#16 ++ shortBytes x) = some x := by
  have happend : x.extractLsb' 8 8 ++ x.extractLsb' 0 8 = x := by
    apply BitVec.eq_of_getLsbD_eq
    intro k hk
    simp
    grind
  show some (x.extractLsb' 8 8 ++ x.extractLsb' 0 8) = some x
  rw [happend]

theorem ackNumber_other {code : BitVec 16} (hcode : code ≠ 4#16) (rest : List Byte) :
    ackNumber (shortBytes code ++ rest) = none := by
  unfold ackNumber shortBytes
  split
  case h_1 a b heq =>
      simp only [List.cons_append, List.nil_append, List.cons.injEq] at heq
      rcases heq with ⟨hhigh, hlow, _⟩
      have hword : code = 4#16 := by
        have happend : code.extractLsb' 8 8 ++ code.extractLsb' 0 8 = code := by
          apply BitVec.eq_of_getLsbD_eq
          intro k hk
          simp
          grind
        rw [← happend, hhigh, hlow]
        rfl
      exact absurd hword hcode
  case h_2 =>
      rfl

theorem tftpPacket_ackNumber (s : TftpClient) {n : Nat} (hblock : s.tftpBlock = wireBlock n) :
    ackNumber (tftpPacket s).payload = none ∨
      ackNumber (tftpPacket s).payload = some (BitVec.ofNat 16 n) := by
  have hnumber : s.tftpBlock.setWidth 16 = BitVec.ofNat 16 n := by
    rw [hblock]
    apply BitVec.eq_of_toNat_eq
    simp only [wireBlock, BitVec.toNat_setWidth, BitVec.toNat_ofNat]
    omega
  show ackNumber (tftpPayload s) = none ∨ ackNumber (tftpPayload s) = _
  unfold tftpPayload
  cases s.tftpState with
  | rrq =>
      left
      simp only [List.append_assoc]
      exact ackNumber_other (by decide) _
  | data =>
      right
      rw [← hnumber]
      exact ackNumber_ack _
  | oack =>
      right
      rw [← hnumber]
      exact ackNumber_ack _
  | tooLarge =>
      left
      simp only [List.append_assoc]
      exact ackNumber_other (by decide) _
  | badMagic =>
      left
      simp only [List.append_assoc]
      exact ackNumber_other (by decide) _

/-- The packets of a step: none, or one for the current block. -/
def Answers (s u : TftpClient) : Prop :=
  u.sent = s.sent ∨
    exists p, u.sent = s.sent ++ [p] ∧
      forall n, u.tftpBlock = wireBlock n ->
        ackNumber p.payload = none ∨ ackNumber p.payload = some (BitVec.ofNat 16 n)

theorem Answers.of_sent {s s' u : TftpClient} (h : Answers s' u)
    (hsent : s'.sent = s.sent) : Answers s u := by
  unfold Answers at *
  rw [hsent] at h
  exact h

/-- The server stays at the delivered block, or goes on to the next one. -/
theorem serverAnswer_bounds (x : Session) {s u : TftpClient} {sentBlocks delivered n : Nat}
    (answered : Bool) (hanswers : Answers s u) (hrecent : Recent delivered n)
    (hblock : u.tftpBlock = wireBlock n) (hlow : delivered <= sentBlocks)
    (hhigh : sentBlocks <= delivered + 1)
    (hcount : sentBlocks <= blockCount x.size x.file) :
    delivered <= serverAnswer x sentBlocks s u answered ∧
      serverAnswer x sentBlocks s u answered <= delivered + 1 ∧
        serverAnswer x sentBlocks s u answered <= blockCount x.size x.file := by
  unfold serverAnswer
  split
  case isFalse =>
      exact ⟨hlow, hhigh, hcount⟩
  case isTrue =>
      rcases hanswers with hsame | ⟨p, hsent, hnumber⟩
      · rw [hsame, List.drop_length]
        exact ⟨hlow, hhigh, hcount⟩
      · rw [hsent, List.drop_left]
        show delivered <= serverReceive x sentBlocks p ∧ _
        rw [List.foldl_cons, List.foldl_nil]
        unfold serverReceive
        split
        case isFalse =>
            exact ⟨hlow, hhigh, hcount⟩
        case isTrue hack =>
            rcases hack with ⟨hack, hmore⟩
            have hsame : n % 65536 = sentBlocks % 65536 := by
              rcases hnumber n hblock with hnone | hsome
              · rw [hnone] at hack
                cases hack
              · rw [hsome, Option.some.injEq] at hack
                have hnat := congrArg BitVec.toNat hack
                simpa only [BitVec.toNat_ofNat] using hnat
            have hdelivered := recent_sent hrecent hlow hhigh hsame
            omega

/-!
# Deliveries and timeouts
-/

theorem tftpStore_inv {x : Session} {start s : TftpClient} (delivered n : Nat)
    (hpos : 0 < x.size) (hfile : x.file.length < 2 ^ 32)
    (hsize : s.tftpBlkSize.toNat = x.size) (hload : s.loadAddr = start.loadAddr)
    (hstored : StoredUpTo x start s delivered)
    (hdone : s.netState = .success -> delivered = blockCount x.size x.file)
    (hphase : s.tftpState = .data) (hport : s.tftpServerPort = x.port)
    (hblock : s.tftpBlock = wireBlock n)
    (hwrap : s.tftpBlockWrapOffset = BitVec.ofNat 32 (n / 65536 * 65536 * x.size))
    (hn : 1 <= n) (htimely : n = delivered + 1 ∨ SameRound delivered n)
    (hnext : n <= delivered + 1) (hcount : n <= blockCount x.size x.file)
    (hdelivered : delivered <= blockCount x.size x.file) :
    ClientInv x start (tftpStore s (blockBytes x.size x.file n)) (max delivered n) := by
  have hfrom := tftpStore_storedFrom s (blockBytes x.size x.file n)
  have hkeep := storeBlock_storedUpTo hstored hload hsize hfile hn hnext hcount hpos
    hblock hwrap
  have hround : max delivered n / 65536 = n / 65536 := by
    rcases htimely with heq | ⟨_, hsame⟩
    · omega
    · by_cases hle : n <= delivered
      · rw [Nat.max_eq_left hle]
        exact hsame.symm
      · rw [Nat.max_eq_right (by omega)]
  constructor
  · rw [hfrom.size]
    exact hsize
  · rw [hfrom.load]
    exact hload
  · constructor
    · rw [hfrom.memory]
      exact hkeep.memory
    · rw [hfrom.xferSize]
      exact hkeep.xferSize
  · intro hsuccess
    rw [hfrom.netState] at hsuccess
    split at hsuccess
    case isTrue hshort =>
        rw [hsize] at hshort
        have hlast := (blockBytes_short_iff hpos hn).mp hshort
        omega
    case isFalse =>
        have hend := hdone hsuccess
        omega
  · refine ⟨n, ?_, ?_⟩
    · rcases htimely with heq | hsame
      · left
        omega
      · by_cases hle : n <= delivered
        · right
          rw [Nat.max_eq_left hle]
          exact ⟨hle, hsame⟩
        · left
          omega
    · rw [hfrom.block]
      exact hblock
  · refine .receiving (by omega) ?_ ?_ ?_ ?_
    · rw [hfrom.phase]
      exact hphase
    · rw [hfrom.port]
      exact hport
    · rw [hfrom.wrap, hround]
      exact hwrap
    · rw [hfrom.last, hfrom.block]

theorem tftpStore_answers (s : TftpClient) (payload : List Byte) :
    Answers s (tftpStore s payload) := by
  have hfrom := tftpStore_storedFrom s payload
  right
  refine ⟨tftpPacket s, hfrom.sent, ?_⟩
  intro n hblock
  rw [hfrom.block] at hblock
  exact tftpPacket_ackNumber s hblock

theorem tftpData_receiving {s : TftpClient} (hphase : s.tftpState = .data)
    (src : BitVec 32) (block : BitVec 16) (payload : List Byte) :
    tftpData s src block payload =
      if (tftpProgress { s with tftpBlock := block.setWidth 32 }).tftpBlock =
          (tftpProgress { s with tftpBlock := block.setWidth 32 }).tftpLastBlock then
        tftpProgress { s with tftpBlock := block.setWidth 32 }
      else tftpStore (tftpProgress { s with tftpBlock := block.setWidth 32 }) payload := by
  have hprogress := tftpProgress_progressFrom { s with tftpBlock := block.setWidth 32 }
  have hclosed : ¬ ((tftpProgress { s with tftpBlock := block.setWidth 32 }).tftpState =
        .rrq ∨
      (tftpProgress { s with tftpBlock := block.setWidth 32 }).tftpState = .oack) := by
    rw [hprogress.phase, show TftpClient.tftpState _ = _ from hphase]
    rintro (hrrq | hoack)
    · cases hrrq
    · cases hoack
  unfold tftpData
  exact if_neg hclosed

theorem tftpData_first {x : Session} {start s : TftpClient} (hpos : 0 < x.size)
    (hfile : x.file.length < 2 ^ 32) (hinv : ClientInv x start s 0)
    (hphase : s.tftpState = .rrq ∨ s.tftpState = .oack) :
    ClientInv x start (tftpData s x.port 1#16 (blockBytes x.size x.file 1)) 1 ∧
      Answers s (tftpData s x.port 1#16 (blockBytes x.size x.file 1)) := by
  have hprogress := tftpProgress_progressFrom { s with tftpBlock := (1#16).setWidth 32 }
  generalize hu : tftpProgress { s with tftpBlock := (1#16).setWidth 32 } = u at hprogress
  have hblock : u.tftpBlock = 1#32 := hprogress.block
  have hphase' : u.tftpState = .rrq ∨ u.tftpState = .oack := by
    rw [hprogress.phase]
    exact hphase
  have hbranch : tftpData s x.port 1#16 (blockBytes x.size x.file 1) =
      tftpStore { u with
        tftpState := .data
        tftpServerPort := x.port
        tftpLastBlock := 0#32
        tftpBlockWrap := 0#32
        tftpBlockWrapOffset := 0#32 } (blockBytes x.size x.file 1) := by
    unfold tftpData
    simp only [hu, if_pos hphase', hblock]
    rw [if_neg (by decide), if_neg (by decide)]
  rw [hbranch]
  have hcount : 1 <= blockCount x.size x.file := Nat.le_add_left 1 _
  constructor
  · refine tftpStore_inv 0 1 hpos hfile ?_ ?_ ?_ ?_ rfl rfl ?_ ?_
      (Nat.le_refl 1) (Or.inl rfl) (Nat.le_refl 1) hcount (Nat.zero_le _)
    · rw [show TftpClient.tftpBlkSize _ = _ from hprogress.size]
      exact hinv.size
    · rw [show TftpClient.loadAddr _ = _ from hprogress.load]
      exact hinv.load
    · constructor
      · rw [show TftpClient.memory _ = _ from hprogress.memory]
        exact hinv.stored.memory
      · rw [show TftpClient.netBootFileXferSize _ = _ from hprogress.xferSize]
        exact hinv.stored.xferSize
    · intro hsuccess
      rw [show TftpClient.netState _ = _ from hprogress.netState] at hsuccess
      exact hinv.done hsuccess
    · exact hblock
    · simp
  · exact (tftpStore_answers _ _).of_sent hprogress.sent

theorem tftpData_next {x : Session} {start s : TftpClient} {delivered n : Nat}
    (hpos : 0 < x.size) (hfile : x.file.length < 2 ^ 32)
    (hinv : ClientInv x start s delivered) (hphase : s.tftpState = .data)
    (hport : s.tftpServerPort = x.port)
    (hwrap : s.tftpBlockWrapOffset =
      BitVec.ofNat 32 (delivered / 65536 * 65536 * x.size))
    (hlast : s.tftpLastBlock = s.tftpBlock) (hsome : 1 <= delivered)
    (hn : 1 <= n) (htimely : n = delivered + 1 ∨ SameRound delivered n)
    (hnext : n <= delivered + 1) (hcount : n <= blockCount x.size x.file)
    (hdelivered : delivered <= blockCount x.size x.file) :
    ClientInv x start
        (tftpData s x.port (BitVec.ofNat 16 n) (blockBytes x.size x.file n))
        (max delivered n) ∧
      Answers s (tftpData s x.port (BitVec.ofNat 16 n) (blockBytes x.size x.file n)) := by
  have hprogress := tftpProgress_progressFrom
    { s with tftpBlock := (BitVec.ofNat 16 n).setWidth 32 }
  generalize hu : tftpProgress { s with tftpBlock := (BitVec.ofNat 16 n).setWidth 32 } =
    u at hprogress
  have hblock : u.tftpBlock = wireBlock n := hprogress.block
  have hlast' : u.tftpLastBlock = s.tftpBlock := by
    rw [hprogress.last]
    exact hlast
  have hwrap' : u.tftpBlockWrapOffset = BitVec.ofNat 32 (n / 65536 * 65536 * x.size) := by
    rw [hprogress.wrap]
    show (if wireBlock n = 0#32 then s.tftpBlockWrapOffset + _
      else s.tftpBlockWrapOffset) = _
    rw [hwrap, ← hinv.size]
    exact wrapOffset_round htimely
  have hsize : u.tftpBlkSize.toNat = x.size := by
    rw [hprogress.size]
    exact hinv.size
  have hload : u.loadAddr = start.loadAddr := by
    rw [hprogress.load]
    exact hinv.load
  have hstored : StoredUpTo x start u delivered := by
    constructor
    · rw [hprogress.memory]
      exact hinv.stored.memory
    · rw [hprogress.xferSize]
      exact hinv.stored.xferSize
  have hdone : u.netState = .success -> delivered = blockCount x.size x.file := by
    intro hsuccess
    rw [hprogress.netState] at hsuccess
    exact hinv.done hsuccess
  have hdata : u.tftpState = .data := by
    rw [hprogress.phase]
    exact hphase
  have hport' : u.tftpServerPort = x.port := by
    rw [hprogress.port]
    exact hport
  rw [tftpData_receiving hphase, hu]
  by_cases hsame : u.tftpBlock = u.tftpLastBlock
  · -- the block is ignored, which only happens to one that was stored before
    rw [if_pos hsame]
    have hrepeat : n <= delivered ∧ SameRound delivered n := by
      rcases hinv.recent with ⟨k, hk, hkblock⟩
      have hwire : n % 65536 = k % 65536 := by
        apply wireBlock_inj.mp
        rw [← hblock, hsame, hlast', hkblock]
      rcases htimely with heq | hround
      · rw [heq] at hwire
        exact absurd hwire.symm (recent_next hk)
      · by_cases heq : n = delivered + 1
        · rw [heq] at hwire
          exact absurd hwire.symm (recent_next hk)
        · exact ⟨by omega, hround⟩
    rw [Nat.max_eq_left hrepeat.left]
    constructor
    · refine ⟨hsize, hload, hstored, hdone, ⟨n, Or.inr hrepeat, hblock⟩, ?_⟩
      refine .receiving hsome hdata hport' ?_ hsame.symm
      rw [hwrap', hrepeat.right.right]
    · left
      exact hprogress.sent
  · rw [if_neg hsame]
    constructor
    · exact tftpStore_inv delivered n hpos hfile hsize hload hstored hdone hdata hport'
        hblock hwrap' hn htimely hnext hcount hdelivered
    · exact (tftpStore_answers _ _).of_sent hprogress.sent

theorem tftpTimeout_inv {x : Session} {start s : TftpClient} {delivered : Nat}
    (hinv : ClientInv x start s delivered) :
    ClientInv x start (tftpTimeout s) delivered ∧ Answers s (tftpTimeout s) := by
  have hphase := hinv.phase
  unfold tftpTimeout
  dsimp only
  split
  case isTrue =>
      constructor
      · refine ⟨hinv.size, hinv.load, ⟨hinv.stored.memory, hinv.stored.xferSize⟩,
          hinv.done, hinv.recent, ?_⟩
        cases hphase with
        | waiting hnone hphase =>
            exact .waiting hnone hphase
        | receiving hsome hphase hport hwrap hlast =>
            exact .receiving hsome hphase hport hwrap hlast
      · left
        rfl
  case isFalse =>
      constructor
      · refine ⟨hinv.size, hinv.load, ⟨hinv.stored.memory, hinv.stored.xferSize⟩,
          hinv.done, hinv.recent, ?_⟩
        cases hphase with
        | waiting hnone hphase =>
            exact .waiting hnone hphase
        | receiving hsome hphase hport hwrap hlast =>
            exact .receiving hsome hphase hport hwrap hlast
      · right
        refine ⟨_, rfl, ?_⟩
        intro n hblock
        exact tftpPacket_ackNumber _ hblock

/-!
# Runs
-/

theorem timelyStep_inv {x : Session} {start : TftpClient} {t u : Transfer}
    {event : TransferEvent} (hpos : 0 < x.size) (hfile : x.file.length < 2 ^ 32)
    (hinv : TransferInv x start t) (hstep : TimelyStep x t event u) :
    TransferInv x start u := by
  rcases hstep with ⟨htimely, henabled, _, rfl⟩
  have hclient := hinv.client
  have hlow := hinv.low
  have hhigh := hinv.high
  have hcount := hinv.count
  have hsmall : x.size < 65536 := by
    rw [← hclient.size]
    exact t.client.tftpBlkSize.isLt
  cases event with
  | timeout answered =>
      rcases tftpTimeout_inv hclient with ⟨hnext, hanswers⟩
      rcases hnext.recent with ⟨n, hrecent, hblock⟩
      rcases serverAnswer_bounds x answered hanswers hrecent hblock hlow hhigh
        hcount with ⟨hlow', hhigh', hcount'⟩
      exact ⟨hnext, hlow', hhigh', hcount'⟩
  | deliver n stale answered =>
      rcases henabled with ⟨hn, hsent⟩
      have hdelivery : ClientInv x start
          (clientNext x t (.deliver n stale answered)) (max t.delivered n) ∧
            Answers t.client (clientNext x t (.deliver n stale answered)) := by
        cases hclient.phase with
        | waiting hnone hphase =>
            have hone : n = 1 := by omega
            have hport : t.client.tftpState = .rrq ∨
                t.client.tftpServerPort = x.port := by
              rcases hphase with hrrq | ⟨_, hport⟩
              · exact Or.inl hrrq
              · exact Or.inr hport
            have hopen : t.client.tftpState = .rrq ∨ t.client.tftpState = .oack := by
              rcases hphase with hrrq | ⟨hoack, _⟩
              · exact Or.inl hrrq
              · exact Or.inr hoack
            rw [hnone] at hclient
            show ClientInv x start (tftpHandler _ _ _ _ _) _ ∧
              Answers t.client (tftpHandler _ _ _ _ _)
            rw [tftpHandler_data x t.client n stale hport hsmall, hnone, hone]
            exact tftpData_first hpos hfile hclient hopen
        | receiving hsome hphase hport hwrap hlast =>
            show ClientInv x start (tftpHandler _ _ _ _ _) _ ∧
              Answers t.client (tftpHandler _ _ _ _ _)
            rw [tftpHandler_data x t.client n stale (Or.inr hport) hsmall]
            exact tftpData_next hpos hfile hclient hphase hport hwrap hlast hsome hn
              htimely (by omega) (by omega) (by omega)
      rcases hdelivery with ⟨hnext, hanswers⟩
      rcases hnext.recent with ⟨k, hrecent, hblock⟩
      rcases serverAnswer_bounds x answered hanswers hrecent hblock
        (show max t.delivered n <= t.sentBlocks by omega)
        (show t.sentBlocks <= max t.delivered n + 1 by omega) hcount with
        ⟨hlow', hhigh', hcount'⟩
      exact ⟨hnext, hlow', hhigh', hcount'⟩

/--
In every run of timely steps from the start of a transfer, a client that reports
success has the file in memory from the load address on, nothing else in memory
has changed, and the transferred size is that of the file.
-/
theorem tftp_transfer_integrity {x : Session} {t u : Transfer}
    {events : List TransferEvent} (hstart : TransferStart x t)
    (hfile : x.file.length < 2 ^ 32) (hrun : Run (TimelyStep x) t events u)
    (hsuccess : u.client.netState = .success) :
    (forall (i : Nat) (hi : i < x.file.length),
      u.client.memory (t.client.loadAddr + BitVec.ofNat 32 i) = x.file[i]) ∧
    (forall a : BitVec 32,
      (forall i, i < x.file.length -> a ≠ t.client.loadAddr + BitVec.ofNat 32 i) ->
        u.client.memory a = t.client.memory a) ∧
    u.client.netBootFileXferSize = BitVec.ofNat 32 x.file.length := by
  have hinv : TransferInv x t.client u := by
    refine Run.invariant (TransferInv x t.client) ?_ hrun (transferStart_inv hstart)
    intro v event w hv hstep
    exact timelyStep_inv hstart.sizePos hfile hv hstep
  have hdone := hinv.client.done hsuccess
  have hmemory := hinv.client.stored.memory
  have hxfer := hinv.client.stored.xferSize
  rw [hdone, take_blockCount hstart.sizePos] at hmemory hxfer
  refine ⟨?_, ?_, hxfer⟩
  · intro i hi
    rw [hmemory]
    exact copyMemory_inside _ _ _ i hi (by omega)
  · intro a ha
    rw [hmemory]
    exact copyMemory_outside _ _ _ a ha

instance (t : Transfer) (event : TransferEvent) : Decidable (Timely t event) :=
  match event with
  | .deliver _ _ _ => inferInstanceAs (Decidable (_ ∨ (_ ∧ _)))
  | .timeout _ => isTrue trivial

instance (t : Transfer) (event : TransferEvent) : Decidable (TransferEnabled t event) :=
  match event with
  | .deliver _ _ _ => inferInstanceAs (Decidable (_ ∧ _))
  | .timeout _ => isTrue trivial

def shortSession : Session where
  file := ascii "PowerPC 740 and 750."
  size := 8
  port := 0x42d#32

/-- A client that has asked for it, with a server that has sent its first block. -/
def shortTransfer : Transfer where
  client := {
    tftpServerPort := 69#32
    tftpOurPort := 0x400#32
    tftpTimeoutCount := 0
    tftpTimeoutCountMax := 10
    tftpTimeoutMSecs := 5000#32
    tftpBlock := 0#32
    tftpLastBlock := 0#32
    tftpBlockWrap := 0#32
    tftpBlockWrapOffset := 0#32
    tftpState := .rrq
    tftpBlkSize := 8#16
    tftpBlkSizeOption := 8#16
    tftpFilename := ascii "ok.txt"
    loadAddr := 0x1000000#32
    netBootFileXferSize := 0#32
    netState := .continue
    startedAgain := 0
    memory := fun _ => 0#8
    sent := []
    output := [] }
  sentBlocks := 1
  delivered := 0

/-- Two answers are lost, a timeout makes good for the first, and both blocks come again. -/
def shortEvents : List TransferEvent :=
  [.deliver 1 (fun _ => 0#8) false, .deliver 1 (fun _ => 0#8) true, .timeout true,
    .deliver 2 (fun _ => 0#8) false, .deliver 1 (fun _ => 0#8) true,
    .deliver 2 (fun _ => 0#8) true, .deliver 3 (fun _ => 0#8) true]

theorem tftp_transfer_integrity_short :
    memoryRange (shortEvents.foldl (transferNext shortSession) shortTransfer).client.memory
      0x1000000#32 20 = shortSession.file := by
  have hstart : TransferStart shortSession shortTransfer :=
    ⟨rfl, by decide, Or.inl rfl, rfl, rfl, rfl, rfl, rfl⟩
  have hallowed : Allowed
      (fun t event => Timely t event ∧ TransferEnabled t event ∧ t.client.startedAgain = 0)
      (transferNext shortSession) shortTransfer shortEvents := by
    decide
  have hrun : Run (TimelyStep shortSession) shortTransfer shortEvents
      (shortEvents.foldl (transferNext shortSession) shortTransfer) :=
    Run.of_allowed (fun _ _ hok => ⟨hok.1, hok.2.1, hok.2.2, rfl⟩) hallowed
  have hstored := (tftp_transfer_integrity hstart (by decide) hrun (by decide)).left
  apply List.ext_getElem
  · rw [memoryRange_length]
    rfl
  · intro i _ hi
    rw [memoryRange_getElem]
    exact hstored i hi

/-!
# A block that is delivered twice

Delivering block after block is a run.  When the block whose number is zero comes
twice, the wrap counter counts twice, and the rest of the file goes astray.
-/

theorem tftpData_stores {x : Session} {start s : TftpClient} {delivered : Nat}
    (hinv : ClientInv x start s delivered) (payload : List Byte) :
    exists v, tftpData s x.port (BitVec.ofNat 16 (delivered + 1)) payload =
        tftpStore v payload ∧
      v.sent = s.sent ∧ v.tftpState = .data ∧
        v.tftpBlock = wireBlock (delivered + 1) ∧ v.startedAgain = s.startedAgain := by
  have hprogress := tftpProgress_progressFrom
    { s with tftpBlock := (BitVec.ofNat 16 (delivered + 1)).setWidth 32 }
  generalize hu : tftpProgress
    { s with tftpBlock := (BitVec.ofNat 16 (delivered + 1)).setWidth 32 } = u at hprogress
  have hblock : u.tftpBlock = wireBlock (delivered + 1) := hprogress.block
  cases hinv.phase with
  | waiting hnone hphase =>
      have hopen : u.tftpState = .rrq ∨ u.tftpState = .oack := by
        rw [hprogress.phase]
        rcases hphase with hrrq | ⟨hoack, _⟩
        · exact Or.inl hrrq
        · exact Or.inr hoack
      have hone : u.tftpBlock = 1#32 := by
        rw [hblock, hnone]
        rfl
      unfold tftpData
      simp only [hu]
      rw [if_pos hopen, if_neg (fun h => h hone), if_neg (by rw [hone]; decide)]
      exact ⟨_, rfl, hprogress.sent, rfl, hblock, hprogress.again⟩
  | receiving hsome hphase hport hwrap hlast =>
      have hnew : ¬ u.tftpBlock = u.tftpLastBlock := by
        rw [hblock, hprogress.last, show TftpClient.tftpLastBlock _ = _ from hlast]
        rcases hinv.recent with ⟨k, hk, hkblock⟩
        rw [hkblock]
        intro hsame
        exact recent_next hk (wireBlock_inj.mp hsame).symm
      rw [tftpData_receiving hphase, hu, if_neg hnew]
      refine ⟨u, rfl, hprogress.sent, ?_, hblock, hprogress.again⟩
      rw [hprogress.phase]
      exact hphase

theorem deliverNext_step {x : Session} {start : TftpClient} {t : Transfer}
    (hpos : 0 < x.size) (hfile : x.file.length < 2 ^ 32)
    (hinv : TransferInv x start t) (hsent : t.sentBlocks = t.delivered + 1)
    (hagain : t.client.startedAgain = 0) (stale : Buffer) :
    exists u, TimelyStep x t (.deliver (t.delivered + 1) stale true) u ∧
      TransferInv x start u ∧ u.delivered = t.delivered + 1 ∧
        u.client.startedAgain = 0 ∧
          (t.delivered + 1 < blockCount x.size x.file ->
            u.sentBlocks = u.delivered + 1) := by
  have hsmall : x.size < 65536 := by
    rw [← hinv.client.size]
    exact t.client.tftpBlkSize.isLt
  have hport : t.client.tftpState = .rrq ∨ t.client.tftpServerPort = x.port := by
    cases hinv.client.phase with
    | waiting hnone hphase =>
        rcases hphase with hrrq | ⟨_, hport⟩
        · exact Or.inl hrrq
        · exact Or.inr hport
    | receiving hsome hphase hport hwrap hlast =>
        exact Or.inr hport
  have hstep : TimelyStep x t (.deliver (t.delivered + 1) stale true)
      (transferNext x t (.deliver (t.delivered + 1) stale true)) :=
    ⟨Or.inl rfl, ⟨Nat.le_add_left 1 _, Nat.le_of_eq hsent.symm⟩, hagain, rfl⟩
  rcases tftpData_stores hinv.client (blockBytes x.size x.file (t.delivered + 1)) with
    ⟨v, hstore, hvsent, hvphase, hvblock, hvagain⟩
  have hclient : clientNext x t (.deliver (t.delivered + 1) stale true) =
      tftpStore v (blockBytes x.size x.file (t.delivered + 1)) := by
    rw [← hstore]
    exact tftpHandler_data x t.client _ stale hport hsmall
  have hfrom := tftpStore_storedFrom v (blockBytes x.size x.file (t.delivered + 1))
  have hmax : max t.delivered (t.delivered + 1) = t.delivered + 1 := by omega
  refine ⟨_, hstep, timelyStep_inv hpos hfile hinv hstep, hmax, ?_, ?_⟩
  · show (clientNext x t _).startedAgain = 0
    rw [hclient, hfrom.again, hvagain]
    exact hagain
  · intro hmore
    show serverAnswer x t.sentBlocks t.client (clientNext x t _) true =
      max t.delivered (t.delivered + 1) + 1
    have hack : ackNumber (tftpPacket v).payload =
        some (BitVec.ofNat 16 t.sentBlocks) := by
      show ackNumber (tftpPayload v) = _
      unfold tftpPayload
      rw [hvphase, hsent]
      show ackNumber (shortBytes 4#16 ++ _) = _
      rw [ackNumber_ack, hvblock]
      congr 1
      apply BitVec.eq_of_toNat_eq
      simp only [wireBlock, BitVec.toNat_setWidth, BitVec.toNat_ofNat]
      omega
    rw [hclient, hmax]
    unfold serverAnswer
    rw [if_pos rfl, hfrom.sent, hvsent, List.drop_left, List.foldl_cons, List.foldl_nil]
    unfold serverReceive
    rw [if_pos ⟨hack, by omega⟩, hsent]

theorem deliverAll_run {x : Session} {t : Transfer} (hstart : TransferStart x t)
    (hfile : x.file.length < 2 ^ 32) (hagain : t.client.startedAgain = 0)
    (stale : Buffer) (m : Nat) (hm : m < blockCount x.size x.file) :
    exists events u, Run (TimelyStep x) t events u ∧ TransferInv x t.client u ∧
      u.delivered = m ∧ u.sentBlocks = m + 1 ∧ u.client.startedAgain = 0 := by
  induction m with
  | zero =>
      exact ⟨[], t, .nil t, transferStart_inv hstart, hstart.delivered,
        hstart.sentBlocks, hagain⟩
  | succ m ih =>
      rcases ih (by omega) with ⟨events, u, hrun, hinv, hdelivered, hsent, hu⟩
      rcases deliverNext_step hstart.sizePos hfile hinv (by omega) hu stale with
        ⟨w, hstep, hwinv, hwdelivered, hwagain, hwsent⟩
      refine ⟨events ++ [.deliver (u.delivered + 1) stale true], w,
        hrun.snoc hstep, hwinv, ?_, ?_, hwagain⟩
      · omega
      · have hnext := hwsent (by omega)
        omega

/-- The last block of a round a second time: it is ignored, but it is counted. -/
theorem tftpData_repeat {x : Session} {start s : TftpClient} {delivered : Nat}
    (hinv : ClientInv x start s delivered) (hphase : s.tftpState = .data)
    (hlast : s.tftpLastBlock = s.tftpBlock) (hzero : delivered % 65536 = 0)
    (payload : List Byte) :
    tftpData s x.port (BitVec.ofNat 16 delivered) payload =
      tftpProgress { s with tftpBlock := 0#32 } := by
  have hwire : (BitVec.ofNat 16 delivered).setWidth 32 = 0#32 :=
    wireBlock_eq_zero.mpr hzero
  have hprogress := tftpProgress_progressFrom { s with tftpBlock := 0#32 }
  have hsame : (tftpProgress { s with tftpBlock := 0#32 }).tftpBlock =
      (tftpProgress { s with tftpBlock := 0#32 }).tftpLastBlock := by
    rw [hprogress.block, hprogress.last]
    show 0#32 = s.tftpLastBlock
    rcases hinv.recent with ⟨n, hrecent, hblock⟩
    have hn : n % 65536 = 0 := by
      rcases hrecent with rfl | ⟨hle, hne, hround⟩
      · exact hzero
      · omega
    rw [hlast, hblock]
    exact (wireBlock_eq_zero.mpr hn).symm
  rw [tftpData_receiving hphase, hwire, if_pos hsame]

/-- A file of 65536 bytes, sent in blocks of one byte. -/
def longSession : Session where
  file := List.replicate 65536 0x78#8
  size := 1
  port := 0x42d#32

def longClient : TftpClient where
  tftpServerPort := 0x42d#32
  tftpOurPort := 0x400#32
  tftpTimeoutCount := 0
  tftpTimeoutCountMax := 10
  tftpTimeoutMSecs := 5000#32
  tftpBlock := 0#32
  tftpLastBlock := 0#32
  tftpBlockWrap := 0#32
  tftpBlockWrapOffset := 0#32
  tftpState := .oack
  tftpBlkSize := 1#16
  tftpBlkSizeOption := 1#16
  tftpFilename := ascii "u-boot.bin"
  loadAddr := 0x1000000#32
  netBootFileXferSize := 0#32
  netState := .continue
  startedAgain := 0
  memory := fun _ => 0#8
  sent := []
  output := []

def longTransfer : Transfer where
  client := longClient
  sentBlocks := 1
  delivered := 0

theorem longTransfer_start : TransferStart longSession longTransfer where
  size := rfl
  sizePos := by decide
  phase := Or.inr ⟨rfl, rfl⟩
  block := rfl
  xferSize := rfl
  netState := rfl
  sentBlocks := rfl
  delivered := rfl

theorem longSession_length : longSession.file.length = 65536 :=
  List.length_replicate

theorem longSession_count : blockCount longSession.size longSession.file = 65537 := by
  unfold blockCount
  rw [longSession_length]
  rfl

/-- With the block of number zero twice, the transferred size is twice the file. -/
theorem longTransfer_size :
    exists events u, Run (TransferStep longSession) longTransfer events u ∧
      u.client.netState = .success ∧ u.client.netBootFileXferSize = 131072#32 := by
  have hfile : longSession.file.length < 2 ^ 32 := by
    rw [longSession_length]
    decide
  rcases deliverAll_run longTransfer_start hfile rfl (fun _ => 0#8) 65536
    (by rw [longSession_count]; decide) with
    ⟨events, u, hrun, hinv, hdelivered, hsent, hagain⟩
  have hclient := hinv.client
  rw [hdelivered] at hclient
  cases hclient.phase with
  | waiting hnone _ =>
      exact absurd hnone (by decide)
  | receiving hsome hphase hport hwrap hlast =>
      have hfirst := tftpProgress_progressFrom { u.client with tftpBlock := 0#32 }
      have hrepeat := tftpData_repeat hclient hphase hlast (by decide)
        (blockBytes 1 longSession.file 65536)
      generalize htwice : tftpProgress { u.client with tftpBlock := 0#32 } = v
        at hfirst hrepeat
      have hvphase : v.tftpState = .data := by
        rw [hfirst.phase]
        exact hphase
      have hvport : v.tftpServerPort = longSession.port := by
        rw [hfirst.port]
        exact hport
      have hsecond := tftpProgress_progressFrom { v with tftpBlock := 1#32 }
      generalize hlastBlock : tftpProgress { v with tftpBlock := 1#32 } = w at hsecond
      have hempty : blockBytes 1 longSession.file 65537 = [] := by
        apply List.length_eq_zero_iff.mp
        rw [blockBytes_length, longSession_length]
        rfl
      have hdata : tftpData v longSession.port (BitVec.ofNat 16 65537) [] =
          tftpStore w [] := by
        have hnew : ¬ w.tftpBlock = w.tftpLastBlock := by
          rw [hsecond.block, hsecond.last]
          show ¬ 1#32 = v.tftpLastBlock
          rw [hfirst.last]
          show ¬ 1#32 = u.client.tftpLastBlock
          rw [hlast]
          rcases hclient.recent with ⟨n, hrecent, hblock⟩
          rw [hblock, show (1#32 : BitVec 32) = wireBlock 65537 from rfl]
          intro hsame
          exact recent_next hrecent (wireBlock_inj.mp hsame).symm
        rw [tftpData_receiving hvphase,
          show (BitVec.ofNat 16 65537).setWidth 32 = 1#32 from rfl, hlastBlock,
          if_neg hnew]
      let repeated : Transfer := { client := v, sentBlocks := 65537, delivered := 65536 }
      have hstep1 : TransferStep longSession u (.deliver 65536 (fun _ => 0#8) false)
          repeated := by
        refine ⟨⟨by decide, by omega⟩, hagain, ?_⟩
        have hv : v = clientNext longSession u (.deliver 65536 (fun _ => 0#8) false) := by
          rw [← hrepeat]
          exact (tftpHandler_data longSession u.client 65536 _ (Or.inr hport)
            (by decide)).symm
        show Transfer.mk v 65537 65536 = Transfer.mk _ u.sentBlocks (max u.delivered 65536)
        rw [← hv, hsent, hdelivered]
        rfl
      let final : Transfer :=
        { client := tftpStore w [], sentBlocks := 65537, delivered := 65537 }
      have hstep2 : TransferStep longSession repeated
          (.deliver 65537 (fun _ => 0#8) false) final := by
        refine ⟨⟨by decide, Nat.le_refl _⟩, ?_, ?_⟩
        · show v.startedAgain = 0
          rw [hfirst.again]
          exact hagain
        · have hw : tftpStore w [] =
              clientNext longSession repeated (.deliver 65537 (fun _ => 0#8) false) := by
            rw [← hdata, ← hempty]
            exact (tftpHandler_data longSession v 65537 _ (Or.inr hvport)
              (by decide)).symm
          show Transfer.mk (tftpStore w []) 65537 65537 =
            Transfer.mk (clientNext longSession repeated _) 65537 (max 65536 65537)
          rw [← hw]
          rfl
      have hstored := tftpStore_storedFrom w []
      have hwsize : w.tftpBlkSize = 1#16 := by
        apply BitVec.eq_of_toNat_eq
        rw [hsecond.size, show TftpClient.tftpBlkSize _ = _ from hfirst.size]
        exact hclient.size
      have hwwrap : w.tftpBlockWrapOffset = 131072#32 := by
        rw [hsecond.wrap, if_neg (show ¬ (1#32 : BitVec 32) = 0#32 by decide)]
        show v.tftpBlockWrapOffset = _
        rw [hfirst.wrap, if_pos rfl]
        show u.client.tftpBlockWrapOffset + u.client.tftpBlkSize.setWidth 32 * _ = _
        rw [show u.client.tftpBlkSize = 1#16 from
          BitVec.eq_of_toNat_eq hclient.size, hwrap]
        rfl
      have hwxfer : w.netBootFileXferSize = 65536#32 := by
        rw [hsecond.xferSize, show TftpClient.netBootFileXferSize _ = _ from
          hfirst.xferSize, show TftpClient.netBootFileXferSize _ = _ from
          hclient.stored.xferSize, List.length_take, longSession_length]
        rfl
      refine ⟨_, final, ((hrun.mono ?_).snoc hstep1).snoc hstep2, ?_, ?_⟩
      · intro s event r hs
        exact hs.right
      · show (tftpStore w []).netState = .success
        rw [hstored.netState, hwsize]
        rfl
      · show (tftpStore w []).netBootFileXferSize = 131072#32
        rw [hstored.xferSize]
        have hwblock : w.tftpBlock = 1#32 := hsecond.block
        have hnewsize : (w.tftpBlock - 1#32) * w.tftpBlkSize.setWidth 32 +
            w.tftpBlockWrapOffset + BitVec.ofNat 32 ([] : List Byte).length =
              131072#32 := by
          rw [hwblock, hwsize, hwwrap]
          decide
        unfold storeBlock
        simp only [hnewsize, hwxfer]
        decide

theorem tftp_transfer_corrupted :
    ¬ (forall (x : Session) (t u : Transfer) (events : List TransferEvent),
      TransferStart x t -> x.file.length < 2 ^ 32 ->
        Run (TransferStep x) t events u -> u.client.netState = .success ->
          (forall (i : Nat) (hi : i < x.file.length),
            u.client.memory (t.client.loadAddr + BitVec.ofNat 32 i) = x.file[i]) ∧
          (forall a : BitVec 32,
            (forall i, i < x.file.length -> a ≠ t.client.loadAddr + BitVec.ofNat 32 i) ->
              u.client.memory a = t.client.memory a) ∧
          u.client.netBootFileXferSize = BitVec.ofNat 32 x.file.length) := by
  intro hclaim
  rcases longTransfer_size with ⟨events, u, hrun, hsuccess, hsize⟩
  have hlength : longSession.file.length < 2 ^ 32 := by
    rw [longSession_length]
    decide
  have hresult := (hclaim longSession longTransfer u events longTransfer_start hlength
    hrun hsuccess).right.right
  rw [hsize, longSession_length] at hresult
  exact absurd hresult (by decide)

end Network
end Bab750
