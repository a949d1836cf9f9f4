import Bab750.Foundation.Bytes
import Bab750.Foundation.Shift

/-!
# The network EEPROM

A 93C46 with 64 words behind the register CSR9 of the DEC21143: a start bit, two bits of a
command and six of an address, each taken when the clock rises. A word that was received is
written when the chip is deselected and writing is enabled; until then the chip is busy,
which it shows on its output when it is selected again.
-/

namespace Bab750
namespace Srom

open Foundation

inductive Stage where
  | standby
  | waiting
  | command (bits : List Bool)
  /-- The first bit is on the line. -/
  | sending (bits : List Bool)
  | receiving (addr : BitVec 6) (bits : List Bool)
  | received (addr : BitVec 6) (word : BitVec 16)
  | done
deriving Repr, DecidableEq

structure Microwire where
  cells : BitVec 6 -> BitVec 16
  /-- The write-enable latch. -/
  enabled : Bool
  stage : Stage
  /-- The output shows whether the chip is ready. -/
  status : Bool
  /-- The times that the chip is still seen busy. -/
  busy : Nat
  /-- The length of the programming cycle that each write starts. -/
  cycles : Nat -> Nat
  writes : Nat
  clock : Bool
  /-- The level of the line when the chip does not drive it. -/
  floating : Bool

/-- The two bits of the command and the six of the address are there. -/
def Microwire.execute (s : Microwire) (op1 op0 : Bool) (addr : BitVec 6) : Microwire :=
  match op1, op0 with
  | true, false => { s with stage := Stage.sending (false :: msbFirst (s.cells addr)) }
  | false, true => { s with stage := Stage.receiving addr [] }
  | true, true => { s with stage := Stage.received addr 0xffff#16 }
  | false, false =>
      -- the first two bits of the address select; writing all cells is not used
      if addr.getLsbD 5 && addr.getLsbD 4 then { s with enabled := true, stage := Stage.done }
      else if addr.getLsbD 5 || addr.getLsbD 4 then { s with stage := Stage.done }
      else { s with enabled := false, stage := Stage.done }

/-- The clock rises with a level of the data input. -/
def Microwire.shift (s : Microwire) (bit : Bool) : Microwire :=
  match s.stage with
  | Stage.waiting => if bit then { s with stage := Stage.command [], status := false } else s
  | Stage.command [op1, op0, a5, a4, a3, a2, a1] =>
      s.execute op1 op0 ([a5, a4, a3, a2, a1, bit].foldl shiftIn 0#6)
  | Stage.command bits => { s with stage := Stage.command (bits ++ [bit]) }
  | Stage.sending bits => { s with stage := Stage.sending bits.tail }
  | Stage.receiving addr bits =>
      if bits.length = 15 then
        { s with stage := Stage.received addr ((bits ++ [bit]).foldl shiftIn 0#16) }
      else { s with stage := Stage.receiving addr (bits ++ [bit]) }
  | _ => s

def Microwire.deselect (s : Microwire) : Microwire :=
  match s.stage with
  | Stage.received addr word =>
      if s.enabled then
        { s with
          cells := fun a => if a = addr then word else s.cells a
          stage := Stage.standby
          status := true
          busy := s.cycles s.writes
          writes := s.writes + 1 }
      else { s with stage := Stage.standby }
  | _ => { s with stage := Stage.standby }

def Microwire.select (s : Microwire) : Microwire :=
  if s.stage = Stage.standby then { s with stage := Stage.waiting } else s

def Microwire.lines (s : Microwire) (cs clk di : Bool) : Microwire :=
  if cs then
    if clk && !s.clock && s.busy = 0 then { s.select.shift di with clock := clk }
    else { s.select with clock := clk }
  else { s.deselect with clock := clk }

def Microwire.output (s : Microwire) : Bool :=
  if s.status then s.busy = 0
  else
    match s.stage with
    | Stage.sending (bit :: _) => bit
    | _ => s.floating

/-!
# The register
-/

def sromRd : BitVec 32 := 0x00004000#32

def sromWr : BitVec 32 := 0x00002000#32

def sromSr : BitVec 32 := 0x00000800#32

def dtIn : BitVec 32 := 0x00000004#32

def dtClk : BitVec 32 := 0x00000002#32

def dtCs : BitVec 32 := 0x00000001#32

/-- `sendto_srom`; the lines follow the register while the serial ROM is selected. -/
def sendtoSrom (s : Microwire) (command : BitVec 32) : Microwire :=
  if command.getLsbD 11 then
    s.lines (command.getLsbD 0) (command.getLsbD 1) (command.getLsbD 2)
  else s

/-- Bit 3 of what `getfrom_srom` returns; no other bit is looked at. -/
def getfromSrom (s : Microwire) : Bool × Microwire := (s.output, { s with busy := s.busy - 1 })

/-!
# `dc_srom.c`
-/

def sromLatch (s : Microwire) (command : BitVec 32) : Microwire :=
  sendtoSrom (sendtoSrom (sendtoSrom s command) (command ||| dtClk)) command

def sromCommandRd (s : Microwire) (command : BitVec 32) : Microwire :=
  sromLatch (sromLatch (sromLatch s command) command) ((command &&& 0x0000ff00#32) ||| dtCs)

def sromCommandWr (s : Microwire) (command : BitVec 32) : Microwire :=
  sromLatch (sromLatch (sromLatch s command) ((command &&& 0x0000ff00#32) ||| dtCs)) command

/-- The loop of `srom_address`; the sign of `a` is its bit 7. -/
def addressLoop (command : BitVec 32) : Nat -> Byte -> Microwire -> Microwire
  | 0, _, s => s
  | i + 1, a, s =>
      addressLoop command i (a <<< 1)
        (sromLatch s (command ||| (if a.getLsbD 7 then dtIn else 0#32)))

def sromAddress (s : Microwire) (command : BitVec 32) (offset : Byte) : Microwire :=
  (getfromSrom (addressLoop command 6 (offset <<< 2) s)).2

/-- The loop of `srom_data_rd`. -/
def readLoopWord (command : BitVec 32) : Nat -> BitVec 16 -> Microwire -> BitVec 16 × Microwire
  | 0, word, s => (word, s)
  | i + 1, word, s =>
      let tmp := getfromSrom (sendtoSrom s (command ||| dtClk))
      readLoopWord command i (shiftIn word tmp.1) (sendtoSrom tmp.2 command)

def sromDataRd (s : Microwire) (command : BitVec 32) : BitVec 16 × Microwire :=
  let result := readLoopWord command 16 0#16 s
  (result.1, sendtoSrom result.2 (command &&& 0x0000ff00#32))

/-- The loop of `srom_data_wr`, where `(longVal & 0x8000) >> 13` is `DT_IN` or nothing. -/
def writeLoopWord (command : BitVec 32) : Nat -> BitVec 32 -> Microwire -> Microwire
  | 0, _, s => s
  | i + 1, longVal, s =>
      let tmp := (longVal &&& 0x8000#32) >>> 13
      writeLoopWord command i (longVal <<< 1)
        (sendtoSrom (sendtoSrom (sendtoSrom s (tmp ||| command)) (tmp ||| command ||| dtClk))
          (tmp ||| command))

/-- The polls for the end of a write; its value says that the chip got ready. -/
def pollReady : Nat -> Microwire -> Bool × Microwire
  | 0, s => (false, s)
  | tmp + 1, s =>
      let ready := getfromSrom s
      if ready.1 then (true, ready.2) else pollReady tmp ready.2

/-- `le16_to_cpu` on a processor that stores the most significant byte first. -/
def le16ToCpu (v : BitVec 16) : BitVec 16 := v.extractLsb' 0 8 ++ v.extractLsb' 8 8

def sromDataWr (s : Microwire) (command : BitVec 32) (val : BitVec 16) : Int × Microwire :=
  let s := writeLoopWord command 16 ((le16ToCpu val).setWidth 32) s
  let s := sendtoSrom (sendtoSrom s (command &&& 0x0000ff00#32)) command
  let result := pollReady 100 s
  (if result.1 then 0 else -1, result.2)

def sromRdWord (s : Microwire) (offset : Byte) : BitVec 16 × Microwire :=
  let s := sromLatch (sendtoSrom s (sromRd ||| sromSr)) (sromRd ||| sromSr ||| dtCs)
  let s := sromCommandRd s (sromRd ||| sromSr ||| dtIn ||| dtCs)
  let s := sromAddress s (sromRd ||| sromSr ||| dtCs) offset
  sromDataRd s (sromRd ||| sromSr ||| dtCs)

def latchTimes (command : BitVec 32) : Nat -> Microwire -> Microwire
  | 0, s => s
  | i + 1, s => latchTimes command i (sromLatch s command)

def sromWrEnable (s : Microwire) : Microwire :=
  let s := sromLatch (sendtoSrom s (sromWr ||| sromSr)) (sromWr ||| sromSr ||| dtCs)
  let s := sromLatch s (sromWr ||| sromSr ||| dtIn ||| dtCs)
  let s := sromLatch (sromLatch s (sromWr ||| sromSr ||| dtCs)) (sromWr ||| sromSr ||| dtCs)
  latchTimes (sromWr ||| sromSr ||| dtIn ||| dtCs) 6 s

def sromWrWord (s : Microwire) (offset : Byte) (val : BitVec 16) : Int × Microwire :=
  let s := sromWrEnable s
  let s := sromLatch (sendtoSrom s (sromWr ||| sromSr)) (sromWr ||| sromSr ||| dtCs)
  let s := sromCommandWr s (sromWr ||| sromSr ||| dtIn ||| dtCs)
  let s := sromAddress s (sromWr ||| sromSr ||| dtCs) offset
  sromDataWr s (sromWr ||| sromSr ||| dtCs) val

/-- The loop of `dc_srom_load` from an offset on. -/
def loadWords : Nat -> Byte -> Microwire -> List (BitVec 16) × Microwire
  | 0, _, s => ([], s)
  | left + 1, offset, s =>
      let tmp := sromRdWord s offset
      let rest := loadWords left (offset + 1#8) tmp.2
      (le16ToCpu tmp.1 :: rest.1, rest.2)

def dcSromLoad (s : Microwire) : List (BitVec 16) × Microwire := loadWords 64 0#8 s

/-- The loop of `dc_srom_store` from an offset on. -/
def storeWords : List (BitVec 16) -> Byte -> Microwire -> Int × Microwire
  | [], _, s => (0, s)
  | word :: src, offset, s =>
      let result := sromWrWord s offset word
      if result.1 = -1 then (-1, result.2) else storeWords src (offset + 1#8) result.2

def dcSromStore (s : Microwire) (src : List (BitVec 16)) : Int × Microwire :=
  storeWords src 0#8 s

/-!
# `dc2114x.c`
-/

/-- `cmd & (1 << i)` as a level of the data input. -/
def dataval (cmd : BitVec 32) (i : Nat) : BitVec 32 := if cmd.getLsbD i then dtIn else 0#32

/-- The bits of a command from one down to bit 0, with what is read at each. -/
def commandLoop (cmd : BitVec 32) : Nat -> BitVec 32 -> Microwire -> BitVec 32 × Microwire
  | 0, retval, s => (retval, s)
  | i + 1, retval, s =>
      let command := sromRd ||| sromSr ||| dtCs ||| dataval cmd i
      let tmp := getfromSrom (sendtoSrom (sendtoSrom s command) (command ||| dtClk))
      commandLoop cmd i (shiftIn retval tmp.1) tmp.2

/-- The second loop of `do_read_eeprom`. -/
def dataLoop : Nat -> BitVec 32 -> Microwire -> BitVec 32 × Microwire
  | 0, retval, s => (retval, s)
  | i + 1, retval, s =>
      let tmp := getfromSrom (sendtoSrom s (sromRd ||| sromSr ||| dtCs ||| dtClk))
      dataLoop i (shiftIn retval tmp.1) (sendtoSrom tmp.2 (sromRd ||| sromSr ||| dtCs))

def sromReadCmd : BitVec 32 := 6#32

def doReadEeprom (s : Microwire) (location : BitVec 32) (addrLen : Nat) :
    BitVec 32 × Microwire :=
  let readCmd := location ||| (sromReadCmd <<< addrLen)
  let s := sendtoSrom (sendtoSrom s (sromRd ||| sromSr)) (sromRd ||| sromSr ||| dtCs)
  let result := commandLoop readCmd (5 + addrLen) 0#32 s
  let s := sendtoSrom result.2 (sromRd ||| sromSr ||| dtCs)
  let result := dataLoop 16 result.1 s
  (result.1, sendtoSrom result.2 (sromRd ||| sromSr))

/-- `do_eeprom_cmd`, where `EE_WRITE_0` and `EE_WRITE_1` are the command without and with
`DT_IN`. -/
def doEepromCmd (s : Microwire) (cmd : BitVec 32) (cmdLen : Nat) : BitVec 32 × Microwire :=
  let s := sendtoSrom s (sromRd ||| sromSr ||| dtCs ||| dtClk)
  let result := commandLoop cmd (cmdLen + 1) 0#32 s
  let s := sendtoSrom result.2 (sromRd ||| sromSr ||| dtCs)
  (result.1, sendtoSrom s (sromRd ||| sromSr))

def readSrom (s : Microwire) (index : BitVec 32) : BitVec 32 × Microwire :=
  let result := doReadEeprom s 0xff#32 8
  let eeAddrSize := if result.1.getLsbD 18 then 8 else 6
  doEepromCmd result.2
    ((((sromReadCmd <<< eeAddrSize) ||| index) <<< 16) ||| 0xffff#32) (3 + eeAddrSize + 16)

/-- The loop of `read_hw_addr`. -/
def hwAddrLoop : Nat -> BitVec 32 -> Microwire -> List (BitVec 16) × Microwire
  | 0, _, s => ([], s)
  | left + 1, index, s =>
      let tmp := readSrom s index
      let rest := hwAddrLoop left (index + 1#32) tmp.2
      (le16ToCpu (tmp.1.setWidth 16) :: rest.1, rest.2)

/-- `read_hw_addr`: the words of `enetaddr`, and whether the address could be read. -/
def readHwAddr (s : Microwire) : Bool × List (BitVec 16) × Microwire :=
  let result := hwAddrLoop 3 0x0a#32 s
  let j := (result.1.map BitVec.toNat).sum
  if j = 0 ∨ j = 0x2fffd then (false, List.replicate 3 0#16, result.2)
  else (true, result.1, result.2)

end Srom
end Bab750
