import Bab750.Flash.Write
import Bab750.Load.Crc16
import Mathlib.Data.List.DropRight

/-!
# XMODEM and YMODEM

`common/xyzModem.c`: the receiver of a block at a time, and the stream that hands out what the
blocks hold. `load_serial_ymodem` of `common/cmd_load.c` stores that. The line is the list of what
`CYGACC_COMM_IF_GETC_TIMEOUT` will see, a byte or a time-out at each call. A copy of a length
below zero has no result, and neither has a read outside of the packet buffer.
-/

namespace Bab750
namespace Load
namespace Xyzmodem

open Foundation
open Console (decimalText)
open Flash

/-! The values of the protocol. -/

def soh : Byte := 0x01#8
def stx : Byte := 0x02#8
def eot : Byte := 0x04#8
def ack : Byte := 0x06#8
def nak : Byte := 0x15#8
def can : Byte := 0x18#8
/-- `EOF` -/
def padding : Byte := 0x1a#8
def askCrc : Byte := 0x43#8

def maxRetries : Nat := 20

def maxRetriesWithCrc : Nat := 10

def canCount : Nat := 3

inductive Mode where
  | xmodem
  | ymodem
deriving DecidableEq

/-- What `xyzModem_get_hdr` returns, zero or an error. -/
inductive Stat where
  | ok
  | timeout
  | eof
  | cancel
  | frame
  | cksum
  | sequence
deriving DecidableEq

/-- What `CYGACC_COMM_IF_GETC_TIMEOUT` will see. -/
abbrev Line := List (Option Byte)

/-- The fields of `xyz` that a block is read into. -/
structure Packet where
  pkt : List Byte
  bufp : Nat
  blk : Byte
  cblk : Byte
  crc1 : Byte
  crc2 : Byte
  len : Int

/-- The counters of `xyz`. -/
structure Counts where
  totalRetries : Nat
  totalSoh : Nat
  totalStx : Nat
  totalCan : Nat

structure Xyz where
  input : Line
  sent : List Byte
  packet : Packet
  counts : Counts
  nextBlk : Byte
  mode : Mode
  crcMode : Bool
  atEof : Bool
  txAck : Bool
  fileLength : BitVec 32
  readLength : BitVec 32

/-- `CYGACC_COMM_IF_PUTC` -/
def Xyz.put (x : Xyz) (c : Byte) : Xyz := { x with sent := x.sent ++ [c] }

/-- `xyzModem_flush` -/
def flush : Line -> Line
  | [] => []
  | none :: rest => rest
  | some _ :: rest => flush rest

inductive Found where
  | start (c : Byte)
  | cancel
  | eof
  | timeout

def findHeader (counts : Counts) (canTotal hdrChars : Nat) : Line -> Found × Counts × Line
  | [] => (.timeout, counts, [])
  | none :: rest => (.timeout, counts, flush rest)
  | some c :: rest =>
      if c = soh then (.start c, { counts with totalSoh := counts.totalSoh + 1 }, rest)
      else if c = stx then (.start c, { counts with totalStx := counts.totalStx + 1 }, rest)
      else if c = can then
        if canTotal + 1 = canCount then
          (.cancel, { counts with totalCan := counts.totalCan + 1 }, rest)
        else
          findHeader { counts with totalCan := counts.totalCan + 1 } (canTotal + 1) (hdrChars + 1)
            rest
      else if c = eot ∧ hdrChars = 0 then (.eof, counts, rest)
      else findHeader counts canTotal (hdrChars + 1) rest

def readByte (p : Packet) (input : Line) (next : Byte -> Line -> Stat × Packet × Line) :
    Stat × Packet × Line :=
  match input with
  | [] => (.timeout, p, [])
  | none :: rest => (.timeout, p, rest)
  | some c :: rest => next c rest

def readData (next : Packet -> Line -> Stat × Packet × Line) :
    Nat -> Nat -> Packet -> Line -> Stat × Packet × Line
  | 0, _, p, input => next p input
  | n + 1, i, p, input =>
      readByte p input fun c rest => readData next n (i + 1) { p with pkt := p.pkt.set i c } rest

def checksum (data : List Byte) : Byte := data.foldl (· + ·) 0#8

/-- The checks of a block that was read as a whole. -/
def validate (crcMode : Bool) (p : Packet) (input : Line) : Stat × Packet × Line :=
  if p.blk ^^^ p.cblk ≠ 0xff#8 then (.frame, p, flush input)
  else if crcMode then
    if cygCrc16 (p.pkt.take p.len.toNat) ≠ p.crc1 ++ p.crc2 then (.cksum, p, input)
    else (.ok, p, input)
  else if p.crc1 ≠ checksum (p.pkt.take p.len.toNat) then (.cksum, p, input)
  else (.ok, p, input)

def readCheck (crcMode : Bool) (p : Packet) (input : Line) : Stat × Packet × Line :=
  readByte p input fun crc1 rest =>
    if crcMode then
      readByte { p with crc1 := crc1 } rest fun crc2 rest =>
        validate crcMode { p with crc1 := crc1, crc2 := crc2 } rest
    else validate crcMode { p with crc1 := crc1 } rest

def readBlock (crcMode : Bool) (start : Byte) (p : Packet) (input : Line) :
    Stat × Packet × Line :=
  readByte p input fun blk rest =>
    readByte { p with blk := blk } rest fun cblk rest =>
      let len := if start = soh then 128 else 1024
      readData (readCheck crcMode) len 0
        { p with blk := blk, cblk := cblk, len := len, bufp := 0 } rest

def Xyz.acked (x : Xyz) : Xyz := if x.txAck then { x.put ack with txAck := false } else x

def getHdr (x : Xyz) : Stat × Xyz :=
  let (found, counts, input) := findHeader x.counts 0 0 x.input
  let x := { x.acked with counts := counts, input := input }
  match found with
  | .start c =>
      let (stat, packet, input) := readBlock x.crcMode c x.packet x.input
      (stat, { x with packet := packet, input := input })
  | .cancel => (.cancel, x)
  | .eof => (.eof, x.put ack)
  | .timeout => (.timeout, x)

/-!
# The file information
-/

/-- `_is_hex` and `_from_hex` -/
def fromHex (c : Byte) : Option Nat :=
  if 0x30#8 ≤ c ∧ c ≤ 0x39#8 then some (c - 0x30#8).toNat
  else if 0x61#8 ≤ c ∧ c ≤ 0x66#8 then some ((c - 0x61#8).toNat + 10)
  else if 0x41#8 ≤ c ∧ c ≤ 0x46#8 then some ((c - 0x41#8).toNat + 10)
  else none

/-- The loop of `parse_num` behind a prefix, for a space as the only delimiter. -/
def parseDigits (radix : Nat) (result : BitVec 32) : List Byte -> Option (Option (BitVec 32))
  | [] => none
  | c :: s =>
      if c = 0#8 then some (some result)
      else
        match (fromHex c).filter (fun digit => digit < radix) with
        | some digit =>
            parseDigits radix (result * BitVec.ofNat 32 radix + BitVec.ofNat 32 digit) s
        | none => if c = 0x20#8 then some (some result) else some none

/-- `parse_num`; there is no result when the text goes on behind the packet buffer. -/
def parseNum (s : List Byte) : Option (Option (BitVec 32)) :=
  match s.dropWhile (fun c => c = 0x20#8) with
  | [] => none
  | c :: s =>
      if c = 0x30#8 then
        match s with
        | [] => none
        | second :: rest =>
            if second = 0x78#8 ∨ second = 0x58#8 then
              -- the character behind the prefix is not compared with zero
              match rest with
              | [] => none
              | third :: _ => if third = 0#8 then some none else parseDigits 16 0#32 rest
            else parseDigits 10 0#32 (c :: s)
      else parseDigits 10 0#32 (c :: s)

/-- `while (*xyz.bufp++);` -/
def skipName : List Byte -> Option (List Byte)
  | [] => none
  | c :: rest => if c = 0#8 then some rest else skipName rest

/-- What `xyzModem_stream_open` does with its first block. -/
def takeInfo (x : Xyz) : Option Xyz :=
  if x.packet.blk = 0#8 then do
    let text ← skipName x.packet.pkt
    let length ← parseNum text
    some { x with
      packet := { x.packet with bufp := 1024 - text.length, len := 0 }
      fileLength := length.getD x.fileLength
      txAck := true
      nextBlk := 1#8 }
  else some { x with packet := { x.packet with len := 0 }, nextBlk := 1#8 }

def Xyz.askAgain (x : Xyz) : Xyz :=
  { x with
    sent := x.sent ++ [if x.crcMode then askCrc else nak]
    counts := { x.counts with totalRetries := x.counts.totalRetries + 1 } }

/-- The loop of `xyzModem_stream_open`: whether there is a stream, and the error. -/
def openLoop : Nat -> Nat -> Stat -> Xyz -> Option (Bool × Stat × Xyz)
  | 0, _, stat, x => some (false, stat, x)
  | retries + 1, crcRetries, _, x =>
      match getHdr x with
      | (.ok, x) => (takeInfo x).map (fun x => (true, .ok, x))
      | (.timeout, x) =>
          let x := if crcRetries - 1 = 0 then { x with crcMode := false } else x
          openLoop retries (crcRetries - 1) .timeout x.askAgain
      | (.cancel, x) => some (false, .cancel, x)
      | (stat, x) => openLoop retries crcRetries stat x

def streamOpen (x : Xyz) (mode : Mode) : Option (Bool × Stat × Xyz) :=
  let x := { x with
    packet := { x.packet with len := 0 }
    sent := x.sent ++ [askCrc]
    counts := ⟨0, 0, 0, 0⟩
    mode := mode
    crcMode := true
    atEof := false
    txAck := false
    fileLength := 0#32
    readLength := 0#32 }
  match mode with
  | .xmodem => some (true, .ok, { x with nextBlk := 1#8 })
  | .ymodem => openLoop maxRetries maxRetriesWithCrc .ok x

/-!
# The stream
-/

/-- Without the padding, when there are three bytes of it. -/
def trim (data : List Byte) : List Byte :=
  if data.getD (data.length - 1) 0#8 = padding ∧ data.getD (data.length - 2) 0#8 = padding ∧
      data.getD (data.length - 3) 0#8 = padding then
    data.rdropWhile (fun c => c = padding)
  else data

/-- The number of bytes that are handed out of a block, when the file has no known length. -/
def Xyz.trimmedLen (x : Xyz) : Int :=
  if x.mode = .xmodem ∨ x.fileLength = 0#32 then
    (trim (x.packet.pkt.take x.packet.len.toNat)).length
  else x.packet.len

/-- The number of bytes that are handed out of a block, when the file has a known length. -/
def Xyz.boundedLen (x : Xyz) (len : Int) (readLength : BitVec 32) : Int :=
  if x.fileLength < readLength then (BitVec.ofInt 32 len - (readLength - x.fileLength)).toInt
  else len

def acceptBlock (x : Xyz) : Xyz :=
  let len := x.trimmedLen
  if x.mode ≠ .xmodem ∧ x.fileLength ≠ 0#32 then
    let readLength := x.readLength + BitVec.ofInt 32 len
    { x with
      packet := { x.packet with len := x.boundedLen len readLength }
      nextBlk := x.nextBlk + 1#8
      txAck := true
      readLength := readLength }
  else
    { x with
      packet := { x.packet with len := len }
      nextBlk := x.nextBlk + 1#8
      txAck := true }

def endOfFile (x : Xyz) : Stat × Xyz :=
  let x := x.put ack
  match x.mode with
  | .xmodem => (.eof, { x with atEof := true })
  | .ymodem =>
      let (stat, x) := getHdr x.askAgain
      (stat, { x.put ack with atEof := true })

/-- The loop of `xyzModem_stream_read` for a block. -/
def nextBlock : Nat -> Stat -> Xyz -> Stat × Xyz
  | 0, stat, x => (stat, x)
  | retries + 1, _, x =>
      match getHdr x with
      | (.ok, x) =>
          if x.packet.blk = x.nextBlk then (.ok, acceptBlock x)
          else if x.packet.blk = x.nextBlk - 1#8 then nextBlock retries .ok (x.put ack)
          else nextBlock retries .sequence x.askAgain
      | (.cancel, x) => (.cancel, x)
      | (.eof, x) => endOfFile x
      | (stat, x) => nextBlock retries stat x.askAgain

/-- What a call of `xyzModem_stream_read` gives. -/
structure Taken where
  data : List Byte
  err : Option Stat
  x : Xyz

/-- `memcpy` out of the packet buffer. -/
def copyOut (x : Xyz) (size : Nat) : Option (List Byte × Xyz) :=
  let p := x.packet
  let len := if (size : Int) < p.len then (size : Int) else p.len
  if len < 0 ∨ 1024 < p.bufp + len.toNat then none
  else some ((p.pkt.drop p.bufp).take len.toNat,
    { x with packet := { p with len := p.len - len, bufp := p.bufp + len.toNat } })

/-- The loop of `xyzModem_stream_read`. -/
def readLoop : Nat -> Xyz -> Nat -> List Byte -> Option Taken
  | 0, _, _, _ => none
  | fuel + 1, x, size, data =>
      if x.atEof ∨ size = 0 then some ⟨data, none, x⟩
      else
        let (stat, x) := if x.packet.len = 0 then nextBlock maxRetries .cancel x else (.ok, x)
        if stat ≠ .ok then
          some ⟨data, some stat, { x with packet := { x.packet with len := -1 } }⟩
        else if x.atEof then readLoop fuel x size data
        else do
          let (bytes, x) ← copyOut x size
          readLoop fuel x (size - bytes.length) (data ++ bytes)

def streamRead (fuel : Nat) (x : Xyz) (size : Nat) : Option Taken := readLoop fuel x size []

def streamClose (x : Xyz) : Text :=
  chars "xyzModem - " ++ (if x.crcMode then chars "CRC" else chars "Cksum") ++ chars " mode, " ++
    decimalText x.counts.totalSoh ++ chars "(SOH)/" ++ decimalText x.counts.totalStx ++
    chars "(STX)/" ++ decimalText x.counts.totalCan ++ chars "(CAN) packets, " ++
    decimalText x.counts.totalRetries ++ chars " retries\n"

/-- `xyzModem_stream_terminate` without an abort: what waits on the line is dropped. -/
def streamTerminate (x : Xyz) : Xyz :=
  { x with input := x.input.dropWhile Option.isSome }

/-- `xyzModem_error` -/
def errorText : Stat -> Text
  | .timeout => chars "Timed out"
  | .eof => chars "End of file"
  | .cancel => chars "Cancelled"
  | .frame => chars "Invalid framing"
  | .cksum => chars "CRC/checksum error"
  | .sequence => chars "Block sequence error"
  | .ok => chars "Unknown error"

/-!
# The command
-/

/-- The memory of the board, and where `ymodemBuf` is in it. -/
structure Storage where
  chip : Chip
  banks : List FlashInfo
  ymodemBuf : BitVec 32

/-- Store what a call of `xyzModem_stream_read` has put into `ymodemBuf`. -/
def Storage.store (b : Storage) (memory : Memory) (storeAddr : BitVec 32) (data : List Byte) :
    Nat × Memory :=
  let memory := copyMemory memory b.ymodemBuf data
  match addr2info b.banks storeAddr with
  | some _ => flashWrite b.chip b.banks memory b.ymodemBuf storeAddr (BitVec.ofNat 32 data.length)
  | none => (errOk, copyMemory memory storeAddr data)

/-- What the loop of `load_serial_ymodem` ends with. -/
structure Loop where
  rc : Nat
  memory : Memory
  size : Nat
  x : Xyz

/-- The loop of `load_serial_ymodem`; `addr` and `size` are the same number. -/
def loadLoop (b : Storage) (offset : BitVec 32) :
    Nat -> Xyz -> Memory -> Nat -> Option Loop
  | 0, _, _, _ => none
  | fuel + 1, x, memory, size => do
      let t ← streamRead fuel x 1024
      if t.data = [] then some ⟨errOk, memory, size, t.x⟩
      else
        let stored := b.store memory (BitVec.ofNat 32 size + offset) t.data
        if stored.1 ≠ errOk then some ⟨stored.1, stored.2, size + t.data.length, t.x⟩
        else loadLoop b offset fuel t.x stored.2 (size + t.data.length)

/-- What `load_serial_ymodem` returns, with the memory and what it prints and sets. -/
structure Loaded where
  result : BitVec 32
  memory : Memory
  printed : Text
  filesize : Option Text
  x : Xyz

/-- The end of `load_serial_ymodem`. -/
def loadEnd (offset : BitVec 32) (memory : Memory) (printed : Text) (size : Nat) (x : Xyz) :
    Loaded where
  result := offset
  memory := memory
  printed := printed ++ streamClose x ++ chars "## Total Size      = 0x" ++
    (Nat.toDigits 16 size).leftpad 8 '0' ++ chars " = " ++ decimalText size ++ chars " Bytes\n"
  filesize := some ((Nat.toDigits 16 size).map Char.toUpper)
  x := streamTerminate x

def loadSerialYmodem (b : Storage) (fuel : Nat) (x : Xyz) (memory : Memory)
    (offset : BitVec 32) : Option Loaded := do
  let (opened, err, x) ← streamOpen x .ymodem
  if opened then
    let l ← loadLoop b offset fuel x memory 0
    if l.rc ≠ errOk then some ⟨0xffffffff#32, l.memory, flashPerror l.rc, none, l.x⟩
    else some (loadEnd offset l.memory [] l.size l.x)
  else some (loadEnd offset memory (errorText err ++ chars "\n") 0 x)

end Xyzmodem
end Load
end Bab750
