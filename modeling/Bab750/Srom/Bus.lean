import Bab750.Foundation.Bytes
import Mathlib.Data.BitVec

/-!
# The revision SROM

`el_srom_load` and `el_srom_store` of `board/eltec/bab7xx/el_srom.c`, over the slots of
the I2C bus that its six routines go through. What the slave does is a parameter.
-/

namespace Bab750
namespace Srom

open Foundation

def firstDevice : Byte := 0x00#8

def secondDevice : Byte := 0x04#8

def firstBlock : Byte := 0x00#8

def secondBlock : Byte := 0x02#8

def error : Int := -1

/-- What goes over the bus in one call of a routine. -/
inductive Slot where
  | start
  | stop
  /-- Eight bits of the master. -/
  | write (b : Byte)
  /-- The slave acknowledges with a low level. -/
  | ack (level : Bool)
  /-- Eight bits of the slave. -/
  | read (b : Byte)
  | writeAck (level : Bool)
deriving Repr, DecidableEq

/-- A slave by its next state and by what it puts on the line. -/
structure Slave (S : Type) where
  after : S -> Slot -> S
  acknowledges : S -> Bool
  data : S -> Byte

/-- The state of the slave and the slots so far. -/
structure Bus (S : Type) where
  slave : S
  slots : List Slot

section Routines

variable {S : Type} (chip : Slave S)

def Bus.put (bus : Bus S) (slot : Slot) : Bus S :=
  ⟨chip.after bus.slave slot, bus.slots ++ [slot]⟩

def eepStart (bus : Bus S) : Bus S := bus.put chip Slot.start

def eepStop (bus : Bus S) : Bus S := bus.put chip Slot.stop

def eepReadByte (bus : Bus S) : Byte × Bus S :=
  (chip.data bus.slave, bus.put chip (Slot.read (chip.data bus.slave)))

def eepWriteByte (bus : Bus S) (buf : Byte) : Bus S := bus.put chip (Slot.write buf)

/-- `eepReadAck`; its value says that it did not return `ERROR`. -/
def eepReadAck (bus : Bus S) : Bool × Bus S :=
  (chip.acknowledges bus.slave, bus.put chip (Slot.ack (!chip.acknowledges bus.slave)))

def eepWriteAck (bus : Bus S) (ack : Bool) : Bus S := bus.put chip (Slot.writeAck ack)

def writeAcked (bus : Bus S) (buf : Byte) : Bool × Bus S :=
  eepReadAck chip (eepWriteByte chip bus buf)

/-- "is it the same block ?", with the bytes that are left; nothing stands for `ERROR`. -/
def nextBlock (addr : Byte) (left : Nat) (block : Byte) : Option Byte :=
  if addr = 0#8 ∧ left ≠ 0 then
    if block = firstBlock then some secondBlock else none
  else some block

/-!
# Reading
-/

/-- One byte of `el_srom_load`. -/
def loadByte (device block addr : Byte) (bus : Bus S) : Option Byte × Bus S :=
  match writeAcked chip (eepStart chip bus) (0xa0#8 ||| device ||| block) with
  | (false, bus) => (none, eepStop chip bus)
  | (true, bus) =>
      match writeAcked chip bus addr with
      | (false, bus) => (none, eepStop chip bus)
      | (true, bus) =>
          match writeAcked chip (eepStart chip bus) (0xa1#8 ||| device ||| block) with
          | (false, bus) => (none, eepStop chip bus)
          | (true, bus) =>
              let result := eepReadByte chip bus
              (some result.1, eepStop chip (eepWriteAck chip result.2 true))

/-- The loop of `el_srom_load`: the bytes it stores, and whether it gets to its end. -/
def loadBytes (device : Byte) : Nat -> Byte -> Byte -> Bus S -> List Byte × Bool × Bus S
  | 0, _, _, bus => ([], true, bus)
  | left + 1, addr, block, bus =>
      match loadByte chip device block addr bus with
      | (none, bus) => ([], false, bus)
      | (some b, bus) =>
          match nextBlock (addr + 1#8) left block with
          | none => ([b], false, bus)
          | some block =>
              let result := loadBytes device left (addr + 1#8) block bus
              (b :: result.1, result.2)

def elSromLoad (addr : Byte) (cnt : Nat) (device block : Byte) (bus : Bus S) :
    Int × List Byte × Bus S :=
  let result := loadBytes chip device cnt addr block bus
  (if result.2.1 then (cnt : Int) else error, result.1, result.2.2)

/-!
# Writing
-/

/-- The `do` loop of `el_srom_store`; it is left when the slave acknowledges. -/
def pollSlave (control : Byte) : Nat -> Bus S -> Bool × Bus S
  | 0, bus => (false, bus)
  | fuel + 1, bus =>
      match writeAcked chip (eepStart chip bus) control with
      | (true, bus) => (true, bus)
      | (false, bus) => pollSlave control fuel (eepStop chip bus)

/-- Where a call stands: still polling, or back with a value. -/
inductive Outcome where
  | polling
  | returned (value : Int)
deriving Repr, DecidableEq

/-- The loop of `el_srom_store`, with so many polls for each byte; `cnt` is its value. -/
def storeBytes (device : Byte) (fuel : Nat) (cnt : Int) :
    List Byte -> Byte -> Byte -> Bus S -> Outcome × Bus S
  | [], _, _, bus => (Outcome.returned cnt, bus)
  | b :: buf, addr, block, bus =>
      match pollSlave chip (0xa0#8 ||| device ||| block) fuel bus with
      | (false, bus) => (Outcome.polling, bus)
      | (true, bus) =>
          match writeAcked chip bus addr with
          | (false, bus) => (Outcome.returned error, bus)
          | (true, bus) =>
              match nextBlock (addr + 1#8) buf.length block with
              | none => (Outcome.returned error, bus)
              | some block =>
                  match writeAcked chip bus b with
                  | (false, bus) => (Outcome.returned error, bus)
                  | (true, bus) =>
                      storeBytes device fuel cnt buf (addr + 1#8) block (eepStop chip bus)

def elSromStore (fuel : Nat) (addr : Byte) (buf : List Byte) (device block : Byte)
    (bus : Bus S) : Outcome × Bus S :=
  storeBytes chip device fuel buf.length buf addr block bus

end Routines

end Srom
end Bab750
