import Bab750.Network.Receive
import Bab750.Foundation.Memory
import Bab750.Support.Strtoul

/-!
# The TFTP client

`net/tftp.c` as it is configured for the board: no multicast, no transfer size
option, and no direct writes to flash.  `ulong` and `unsigned` have 32 bits.  The
handler gets a pointer into the receive buffer; a packet is sent by handing its
payload to `NetSendUDPPacket`.
-/

namespace Bab750
namespace Network

open Foundation
open Support

/-!
# State
-/

/-- `TftpState`. -/
inductive TftpPhase where
  | rrq
  | data
  | tooLarge
  | badMagic
  | oack
deriving DecidableEq, Repr

/-- `NetState`: what the network loop does next. -/
inductive LoopState where
  | continue
  | restart
  | success
  | fail
deriving DecidableEq, Repr

def packetBuffer (bytes : List Byte) (stale : Buffer) : Buffer :=
  fun i => bytes[i]?.getD (stale i)

structure UdpPacket where
  dest : BitVec 32
  src : BitVec 32
  payload : List Byte
deriving DecidableEq

structure TftpClient where
  tftpServerPort : BitVec 32
  tftpOurPort : BitVec 32
  tftpTimeoutCount : Int
  tftpTimeoutCountMax : Int
  tftpTimeoutMSecs : BitVec 32
  tftpBlock : BitVec 32
  tftpLastBlock : BitVec 32
  tftpBlockWrap : BitVec 32
  tftpBlockWrapOffset : BitVec 32
  tftpState : TftpPhase
  tftpBlkSize : BitVec 16
  tftpBlkSizeOption : BitVec 16
  tftpFilename : List Byte
  loadAddr : BitVec 32
  netBootFileXferSize : BitVec 32
  netState : LoopState
  /-- Calls of `NetStartAgain`. -/
  startedAgain : Nat
  memory : Memory
  sent : List UdpPacket
  output : List Byte

def TftpClient.print (s : TftpClient) (text : List Byte) : TftpClient :=
  { s with output := s.output ++ text }

/-- `NetStartAgain`: the transfer is given up; what follows is a new one. -/
def netStartAgain (s : TftpClient) : TftpClient :=
  { s with startedAgain := s.startedAgain + 1 }

def timeoutCount : Int := 10

def tftpBlockSize : BitVec 16 := 512#16

/-!
# Sending
-/

/-- The payload `TftpSend` builds for the current state. -/
def tftpPayload (s : TftpClient) : List Byte :=
  match s.tftpState with
  | .rrq =>
      shortBytes 1#16 ++ s.tftpFilename ++ [0#8] ++ ascii "octet" ++ [0#8] ++
        ascii "timeout" ++ [0#8] ++
        ascii (toString (s.tftpTimeoutMSecs / 1000#32).toNat) ++ [0#8] ++
        ascii "blksize" ++ [0#8] ++ ascii (toString s.tftpBlkSizeOption.toNat) ++ [0#8]
  | .oack => shortBytes 4#16 ++ shortBytes (s.tftpBlock.setWidth 16)
  | .data => shortBytes 4#16 ++ shortBytes (s.tftpBlock.setWidth 16)
  | .tooLarge => shortBytes 5#16 ++ shortBytes 3#16 ++ ascii "File too large" ++ [0#8]
  | .badMagic =>
      shortBytes 5#16 ++ shortBytes 2#16 ++ ascii "File has bad magic" ++ [0#8]

/-- The datagram `TftpSend` hands to `NetSendUDPPacket`. -/
def tftpPacket (s : TftpClient) : UdpPacket where
  dest := s.tftpServerPort
  src := s.tftpOurPort
  payload := tftpPayload s

def tftpSend (s : TftpClient) : TftpClient :=
  { s with sent := s.sent ++ [tftpPacket s] }

def tftpTimeout (s : TftpClient) : TftpClient :=
  let s := { s with tftpTimeoutCount := s.tftpTimeoutCount + 1 }
  if s.tftpTimeoutCountMax < s.tftpTimeoutCount then
    netStartAgain (s.print (ascii "\nRetry count exceeded; starting again\n"))
  else tftpSend (s.print (ascii "T "))

/-!
# Data
-/

def storeBlock (s : TftpClient) (block : BitVec 32) (src : List Byte) : TftpClient :=
  let offset := block * s.tftpBlkSize.setWidth 32 + s.tftpBlockWrapOffset
  let newsize := offset + BitVec.ofNat 32 src.length
  { s with
    memory := copyMemory s.memory (s.loadAddr + offset) src
    netBootFileXferSize :=
      if s.netBootFileXferSize < newsize then newsize else s.netBootFileXferSize }

/-- The wrap counter and the progress marks for a block number. -/
def tftpProgress (s : TftpClient) : TftpClient :=
  if s.tftpBlock = 0#32 then
    let offset := s.tftpBlockWrapOffset + s.tftpBlkSize.setWidth 32 * 0x10000#32
    let s := { s with
      tftpBlockWrap := s.tftpBlockWrap + 1#32
      tftpBlockWrapOffset := offset }
    s.print (ascii "\n\t " ++ ascii (toString (offset >>> 20).toNat) ++
      ascii " MB received\n\t ")
  else if (s.tftpBlock - 1#32) % 10#32 = 0#32 then s.print (ascii "#")
  else if s.tftpBlock % 650#32 = 0#32 then s.print (ascii "\n\t ")
  else s

/-- The part for a block that was not the last one again. -/
def tftpStore (s : TftpClient) (payload : List Byte) : TftpClient :=
  let s := { s with
    tftpLastBlock := s.tftpBlock
    tftpTimeoutCountMax := timeoutCount }
  let s := storeBlock s (s.tftpBlock - 1#32) payload
  let s := tftpSend s
  if payload.length < s.tftpBlkSize.toNat then
    { s.print (ascii "\ndone\n") with netState := .success }
  else s

def tftpData (s : TftpClient) (src : BitVec 32) (block : BitVec 16)
    (payload : List Byte) : TftpClient :=
  let s := tftpProgress { s with tftpBlock := block.setWidth 32 }
  if s.tftpState = .rrq ∨ s.tftpState = .oack then
    let s := { s with
      tftpState := .data
      tftpServerPort := src
      tftpLastBlock := 0#32
      tftpBlockWrap := 0#32
      tftpBlockWrapOffset := 0#32 }
    if s.tftpBlock ≠ 1#32 then
      netStartAgain (s.print (ascii "\nTFTP error: First block is not block 1 (" ++
        ascii (toString s.tftpBlock.toInt) ++ ascii ")\nStarting again\n\n"))
    else if s.tftpBlock = s.tftpLastBlock then s
    else tftpStore s payload
  else if s.tftpBlock = s.tftpLastBlock then s
  else tftpStore s payload

/-!
# Options and errors
-/

/-- `strcmp(pkt+i, "blksize") == 0`. -/
def blksizeAt (pkt : Buffer) (i : Nat) : Bool :=
  bytesAt pkt i 8 = ascii "blksize" ++ [0#8]

/-- The option loop from an index on: the block size behind the last `blksize`. -/
def oackBlkSize (pkt : Buffer) (len : Nat) (size : BitVec 16) : Nat -> Nat -> BitVec 16
  | 0, _ => size
  | fuel + 1, i =>
      if i + 8 < len then
        oackBlkSize pkt len
          (if blksizeAt pkt i then
            (simpleStrtoul (bytesAt pkt (i + 8) pktsizeAlign) 10).1.setWidth 16
          else size) fuel (i + 1)
      else size

/-- `case TFTP_OACK`; `pkt` and `len` are behind the operation code. -/
def tftpOack (s : TftpClient) (src : BitVec 32) (pkt : Buffer) (len : Nat) :
    TftpClient :=
  tftpSend { s with
    tftpState := .oack
    tftpServerPort := src
    tftpBlkSize := oackBlkSize pkt len s.tftpBlkSize len 0 }

def tftpError (s : TftpClient) (pkt : Buffer) : TftpClient :=
  let text := (bytesAt pkt 2 pktsizeAlign).takeWhile (fun c => c != 0#8)
  let code := shortAt pkt 0
  let s := s.print (ascii "\nTFTP error: '" ++ text ++ ascii "' (" ++
    ascii (toString code.toNat) ++ ascii ")\n")
  if code = 1#16 ∨ code = 2#16 then
    { s.print (ascii "Not retrying...\n") with netState := .fail }
  else netStartAgain (s.print (ascii "Starting again\n\n"))

def tftpHandler (s : TftpClient) (pkt : Buffer) (dest src len : BitVec 32) :
    TftpClient :=
  if dest ≠ s.tftpOurPort then s
  else if s.tftpState ≠ .rrq ∧ src ≠ s.tftpServerPort then s
  else if len.toNat < 2 then s
  else
    let behind : Buffer := fun i => pkt (i + 2)
    let rest := len.toNat - 2
    if shortAt pkt 0 = 6#16 then tftpOack s src behind rest
    else if shortAt pkt 0 = 3#16 then
      if rest < 2 then s
      else tftpData s src (shortAt behind 0) (bytesAt behind 2 (rest - 2))
    else if shortAt pkt 0 = 5#16 then tftpError s behind
    else s

/-!
# Starting a transfer
-/

def simpleStrtol (text : List Byte) (base : Nat) : BitVec 32 :=
  match text with
  | 0x2d#8 :: rest => -(simpleStrtoul rest base).1
  | text => (simpleStrtoul text base).1

/-- `tftpblocksize` and `tftptimeout` of the environment, if they are set. -/
structure TftpEnvironment where
  tftpblocksize : Option (List Byte)
  tftptimeout : Option (List Byte)

def tftpOptions (s : TftpClient) (env : TftpEnvironment) : TftpClient :=
  let option := match env.tftpblocksize with
    | none => s.tftpBlkSizeOption
    | some ep => (simpleStrtol ep 10).setWidth 16
  let timeout := match env.tftptimeout with
    | none => s.tftpTimeoutMSecs
    | some ep => simpleStrtol ep 10
  let s := { s with tftpBlkSizeOption := option, tftpTimeoutMSecs := timeout }
  if timeout < 1000#32 then
    { s.print (ascii "TFTP timeout (" ++ ascii (toString timeout.toInt) ++
        ascii " ms) too low, set minimum = 1000 ms\n") with
      tftpTimeoutMSecs := 1000#32 }
  else s

/--
`TftpStart` for a file name and a port of ours, with the network loop's reset of
the transferred size.  `banner` are the lines about device, server, and file, and
`rrqTimeouts` is `TftpRRQTimeoutCountMax`.
-/
def tftpStart (s : TftpClient) (env : TftpEnvironment) (filename banner : List Byte)
    (ourPort : BitVec 32) (rrqTimeouts : Int) : TftpClient :=
  let s := (tftpOptions s env).print banner
  let s := tftpSend { s with
    tftpFilename := filename
    tftpTimeoutCountMax := rrqTimeouts
    tftpServerPort := 69#32
    tftpTimeoutCount := 0
    tftpState := .rrq
    tftpOurPort := ourPort
    tftpBlock := 0#32
    tftpBlkSize := tftpBlockSize }
  { s with netBootFileXferSize := 0#32 }

/-!
# What storing and counting change
-/

/-- What the branch for a block that is stored does to the client. -/
structure StoredFrom (s u : TftpClient) (payload : List Byte) : Prop where
  size : u.tftpBlkSize = s.tftpBlkSize
  option : u.tftpBlkSizeOption = s.tftpBlkSizeOption
  load : u.loadAddr = s.loadAddr
  phase : u.tftpState = s.tftpState
  port : u.tftpServerPort = s.tftpServerPort
  wrap : u.tftpBlockWrapOffset = s.tftpBlockWrapOffset
  block : u.tftpBlock = s.tftpBlock
  last : u.tftpLastBlock = s.tftpBlock
  memory : u.memory = (storeBlock s (s.tftpBlock - 1#32) payload).memory
  xferSize : u.netBootFileXferSize =
    (storeBlock s (s.tftpBlock - 1#32) payload).netBootFileXferSize
  netState : u.netState =
    if payload.length < s.tftpBlkSize.toNat then .success else s.netState
  sent : u.sent = s.sent ++ [tftpPacket s]
  again : u.startedAgain = s.startedAgain

theorem tftpStore_storedFrom (s : TftpClient) (payload : List Byte) :
    StoredFrom s (tftpStore s payload) payload := by
  unfold tftpStore
  dsimp only
  split
  case isTrue hshort =>
      exact ⟨rfl, rfl, rfl, rfl, rfl, rfl, rfl, rfl, rfl, rfl, (if_pos hshort).symm, rfl,
        rfl⟩
  case isFalse hlong =>
      exact ⟨rfl, rfl, rfl, rfl, rfl, rfl, rfl, rfl, rfl, rfl, (if_neg hlong).symm, rfl,
        rfl⟩

/-- What the wrap counter and the progress marks do to the client. -/
structure ProgressFrom (s u : TftpClient) : Prop where
  size : u.tftpBlkSize = s.tftpBlkSize
  option : u.tftpBlkSizeOption = s.tftpBlkSizeOption
  load : u.loadAddr = s.loadAddr
  phase : u.tftpState = s.tftpState
  port : u.tftpServerPort = s.tftpServerPort
  wrap : u.tftpBlockWrapOffset =
    if s.tftpBlock = 0#32 then
      s.tftpBlockWrapOffset + s.tftpBlkSize.setWidth 32 * 0x10000#32
    else s.tftpBlockWrapOffset
  block : u.tftpBlock = s.tftpBlock
  last : u.tftpLastBlock = s.tftpLastBlock
  memory : u.memory = s.memory
  xferSize : u.netBootFileXferSize = s.netBootFileXferSize
  netState : u.netState = s.netState
  sent : u.sent = s.sent
  again : u.startedAgain = s.startedAgain

theorem tftpProgress_progressFrom (s : TftpClient) :
    ProgressFrom s (tftpProgress s) := by
  unfold tftpProgress
  split
  case isTrue hzero =>
      exact ⟨rfl, rfl, rfl, rfl, rfl, (if_pos hzero).symm, rfl, rfl, rfl, rfl, rfl, rfl,
        rfl⟩
  case isFalse hzero =>
      have hwrap : s.tftpBlockWrapOffset = if s.tftpBlock = 0#32 then
          s.tftpBlockWrapOffset + s.tftpBlkSize.setWidth 32 * 0x10000#32
        else s.tftpBlockWrapOffset := (if_neg hzero).symm
      split
      case isTrue =>
          exact ⟨rfl, rfl, rfl, rfl, rfl, hwrap, rfl, rfl, rfl, rfl, rfl, rfl, rfl⟩
      case isFalse =>
          split
          case isTrue =>
              exact ⟨rfl, rfl, rfl, rfl, rfl, hwrap, rfl, rfl, rfl, rfl, rfl, rfl, rfl⟩
          case isFalse =>
              exact ⟨rfl, rfl, rfl, rfl, rfl, hwrap, rfl, rfl, rfl, rfl, rfl, rfl, rfl⟩

end Network
end Bab750
