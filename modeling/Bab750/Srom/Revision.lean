import Bab750.Environment.NvramFrame
import Bab750.Srom.RoundTrip

/-!
# Revision information

The first part of `misc_init_r` in `board/eltec/bab7xx/misc.c`: the revision SROM is checked
against its copy in NVRAM, and both are written again when the operator wants it or when the
SROM is not initialized. `char` is unsigned, and words are stored with the most significant
byte first.
-/

namespace Bab750
namespace Srom

open Foundation
open Environment

/-- One bit of `el_srom_checksum`. -/
def checksumBit (accu : BitVec 32) (bit : Bool) : BitVec 32 :=
  if bit != accu.getLsbD 0 then (accu >>> 1) ^^^ 0x84083001#32 else accu >>> 1

def elSromChecksum (bytes : List Byte) : BitVec 32 :=
  bytes.foldl (fun accu byte =>
    (List.range 8).foldl (fun accu i => checksumBit accu (byte.getLsbD i)) accu) 0#32

/-- `islower` by the table `_ctype`. -/
def islower (c : Byte) : Bool :=
  (97 <= c.toNat && c.toNat <= 122) || (223 <= c.toNat && c.toNat <= 246) || 248 <= c.toNat

def toupper (c : Byte) : Byte := if islower c then c - 32#8 else c

/-- A call of `readline`: its value and what `console_buffer` holds then. -/
structure Line where
  count : Int
  buffer : Nat -> Byte

structure OperatorInput where
  choice : Line
  revisionNumber : Line
  revisionCharacter : Line
  boardName : Line
  serialNumber : Line
  nodeId : Line
  text : Line
  cacheWord : Line

structure Surroundings where
  /-- `eerev` before it is filled. -/
  stack : List Byte
  stackLength : stack.length = configSysSromSize
  /-- The memory behind `eerev`. -/
  behind : List Byte
  /-- What an index outside of `hex` gives. -/
  stray : Nat -> Byte
  /-- `CPU_TYPE == CPU_TYPE_750` -/
  cpu750 : Bool
  /-- The polls that `el_srom_store` is given for a byte. -/
  fuel : Nat

/-- `eerev` with some bytes replaced. -/
def patch (eerev : List Byte) (offset : Nat) (bytes : List Byte) : List Byte :=
  eerev.take offset ++ bytes ++ eerev.drop (offset + bytes.length)

/-- `strcmp (eerev.magic, "ELTEC") == 0` -/
def hasMagic (eerev : List Byte) : Bool := eerev.take 6 = ascii "ELTEC" ++ [0#8]

def clk2p0 : BitVec 32 := 0x79000100#32

def clk2p5 : BitVec 32 := 0x7b000100#32

def defaultRevinfo : List Byte :=
  let eerev := List.replicate configSysSromSize 0#8
  let eerev := patch eerev 0x00 (ascii "ELTEC" ++ [0#8])
  let eerev := patch eerev 0x08 [1#8, 0#8]
  let eerev := patch eerev 0x0a [0x00#8, 0xe0#8]
  let eerev := patch eerev 0x7e [0x01#8]
  let eerev := patch eerev 0x68 [0x00#8, 0x00#8, 0x5b#8, 0x00#8, 0x2e#8, 0x4d#8]
  patch eerev 0xc0 (wordBytes clk2p0)

def hexTable : List Byte :=
  [0#8, 1#8, 2#8, 3#8, 4#8, 5#8, 6#8, 7#8, 8#8, 9#8, 0#8, 0#8, 0#8, 0#8, 0#8, 0#8, 0#8,
    10#8, 11#8, 12#8, 13#8, 14#8, 15#8]

/-- `hex[toupper(c)-'0']`; characters below `'0'` give a negative index. -/
def hexDigit (env : Surroundings) (c : Byte) : Byte :=
  let u := (toupper c).toNat
  if 48 <= u ∧ u - 48 < hexTable.length then hexTable.getD (u - 48) 0#8 else env.stray u

/-- `(char)(16*hex[..] + hex[..])` for the characters `2 * i` and `2 * i + 1`. -/
def hexByte (env : Surroundings) (line : Line) (i : Nat) : Byte :=
  16#8 * hexDigit env (line.buffer (2 * i)) + hexDigit env (line.buffer (2 * i + 1))

/-- `strlen ((char *)&eerev.text)`, as far as it is below 63. -/
def textLength (eerev : List Byte) : Nat :=
  (((eerev.drop 0x80).take 63).takeWhile (fun b => b != 0#8)).length

/-- `strstr ((char *)&eerev.board, "75") != NULL` -/
def isBab750 (env : Surroundings) (eerev : List Byte) : Bool :=
  ascii "75" <:+: ((eerev ++ env.behind).drop 0x10).takeWhile (fun b => b != 0#8)

/-!
# Entering the revision info
-/

def enterNumber (input : OperatorInput) (eerev : List Byte) : List Byte :=
  if input.revisionNumber.count ≠ 0 then
    let saved := (eerev.drop 0x70).take 14
    patch (patch eerev 0x70 [toupper (input.revisionNumber.buffer 0)]) 0x72 (saved.take 12)
  else eerev

def enterCharacter (input : OperatorInput) (eerev : List Byte) : List Byte :=
  if input.revisionCharacter.count = 1 then
    patch eerev 0x71 [toupper (input.revisionCharacter.buffer 0)]
  else eerev

def enterBoard (input : OperatorInput) (eerev : List Byte) : List Byte :=
  if input.boardName.count = 11 then
    patch eerev 0x10
      ((List.range 11).map (fun i => toupper (input.boardName.buffer i)) ++ [0#8])
  else eerev

def enterSerial (input : OperatorInput) (eerev : List Byte) : List Byte :=
  if input.serialNumber.count = 6 then
    patch eerev 0x60 ((List.range 6).map input.serialNumber.buffer ++ [0#8])
  else eerev

def enterNodeId (env : Surroundings) (input : OperatorInput) (eerev : List Byte) :
    List Byte :=
  if input.nodeId.count = 12 then
    patch eerev 0x68 ((List.range 6).map (hexByte env input.nodeId))
  else eerev

def enterText (input : OperatorInput) (eerev : List Byte) : List Byte :=
  if input.text.count ≠ 0 then
    let l := textLength eerev
    patch (patch eerev (0x80 + l) ((List.range (63 - l)).map input.text.buffer)) 0xbf [0#8]
  else eerev

def enterCacheWord (env : Surroundings) (input : OperatorInput) (eerev : List Byte) :
    List Byte :=
  if isBab750 env eerev then
    let eerev := patch eerev 0xc0 (wordBytes (if env.cpu750 then clk2p0 else clk2p5))
    if input.cacheWord.count ≠ 0 then
      patch eerev 0xc0 ((List.range 4).map (hexByte env input.cacheWord))
    else eerev
  else patch eerev 0xc0 (wordBytes 0#32)

/-- `eerev.size` -/
def crcSize (eerev : List Byte) : BitVec 16 := eerev.getD 0x0a 0#8 ++ eerev.getD 0x0b 0#8

/-- `eerev.crc` -/
def updateCrc (env : Surroundings) (eerev : List Byte) : List Byte :=
  patch eerev 0x0c (wordBytes (elSromChecksum
    (((eerev ++ env.behind).drop 0x10).take (crcSize eerev).toNat)))

/-- The dialog behind `if (initSrom)`, up to the text section. -/
def enterFields (env : Surroundings) (input : OperatorInput) (eerev : List Byte) :
    List Byte :=
  enterText input (enterNodeId env input (enterSerial input
    (enterBoard input (enterCharacter input (enterNumber input eerev)))))

def enterRevinfo (env : Surroundings) (input : OperatorInput) (eerev : List Byte) :
    List Byte :=
  updateCrc env (enterCacheWord env input (enterFields env input eerev))

def sromSYM : List Byte :=
  List.replicate 16 0#8 ++
    [0x00#8, 0x00#8, 0x04#8, 0x01#8, 0x00#8, 0x00#8, 0x00#8, 0x00#8,
      0x00#8, 0x00#8, 0x00#8, 0x1e#8, 0x00#8, 0x00#8, 0x00#8, 0x08#8,
      0x04#8, 0x86#8, 0x02#8, 0x00#8, 0xaf#8, 0x08#8, 0xa5#8, 0x00#8,
      0x86#8, 0x02#8, 0x04#8, 0xaf#8, 0x08#8, 0xa5#8, 0x00#8, 0x88#8,
      0x04#8, 0x03#8, 0x27#8, 0x08#8, 0x25#8, 0x00#8, 0x61#8, 0x80#8,
      0x88#8, 0x04#8, 0x05#8, 0x27#8, 0x08#8, 0x25#8, 0x00#8, 0x61#8, 0x80#8] ++
    List.replicate 61 0#8 ++ [0x05#8, 0x77#8]

def sromMII : List Byte :=
  List.replicate 16 0#8 ++
    [0x00#8, 0x00#8, 0x04#8, 0x01#8, 0x00#8, 0x00#8, 0x5b#8, 0x00#8,
      0x2e#8, 0x4d#8, 0x00#8, 0x1e#8, 0x00#8, 0x00#8, 0x00#8, 0x08#8,
      0x01#8, 0x95#8, 0x03#8, 0x00#8, 0x00#8, 0x04#8, 0x01#8, 0x08#8,
      0x00#8, 0x00#8, 0x02#8, 0x08#8, 0x02#8, 0x00#8, 0x00#8, 0x78#8,
      0xe0#8, 0x01#8, 0x00#8, 0x50#8, 0x00#8, 0x18#8, 0x80#8] ++
    List.replicate 71 0#8 ++ [0xde#8, 0x41#8]

/-- The argument of `dc_srom_store`. -/
def networkInfo (env : Surroundings) (eerev : List Byte) : List Byte :=
  patch (if isBab750 env eerev then sromMII else sromSYM) 20 ((eerev.drop 0x68).take 6)

/-!
# A run
-/

def shadow (nv : Nvram) : List Byte := nvramRead nv configSysNvSromCopyAddr configSysSromSize

/-- The checksums of the SROM and of its shadow differ. -/
def copyInvalid (eerev : List Byte) (nv : Nvram) : Bool :=
  elSromChecksum (eerev.take configSysSromSize) ≠ elSromChecksum (shadow nv)

/-- What the operator chose: `copyNv` and `initSrom`. -/
def chosen (line : Line) : Bool × Bool :=
  if line.count ≠ 0 then
    if toupper (line.buffer 0) = 67#8 then (true, false)
    else if toupper (line.buffer 0) = 82#8 then (true, true)
    else (false, false)
  else (false, false)

structure Recovery where
  chip : Eeprom
  nvram : Nvram
  /-- A prompt was shown. -/
  dialog : Bool
  /-- The argument of `dc_srom_store`, when it was called. -/
  network : Option (List Byte)
  /-- The value of `el_srom_store`, when it was called. -/
  stored : Option Int
  eerev : List Byte

/-- The writes of a run with `initSrom` and `copyNv`; nothing while the SROM is polled. -/
def writeRevinfo (env : Surroundings) (input : OperatorInput) (chip : Eeprom) (nv : Nvram)
    (eerev : List Byte) (dialog copyNv initSrom : Bool) : Option Recovery :=
  if initSrom then
    let entered := enterRevinfo env input eerev
    match elSromStore (eeprom secondDevice) env.fuel 0#8 entered secondDevice firstBlock
        ⟨chip, []⟩ with
    | (Outcome.polling, _) => none
    | (Outcome.returned value, bus) =>
        some {
          chip := bus.slave
          nvram := nvramWrite nv configSysNvSromCopyAddr (entered.take configSysSromSize)
          dialog := true
          network := some (networkInfo env (enterFields env input eerev))
          stored := some value
          eerev := entered }
  else
    some {
      chip := chip
      nvram := if copyNv then
          nvramWrite nv configSysNvSromCopyAddr (eerev.take configSysSromSize)
        else nv
      dialog := dialog
      network := none
      stored := none
      eerev := eerev }

/-- `eerev` and the chip behind `el_srom_load`, whose value is not looked at. -/
def loadRevinfo (env : Surroundings) (chip : Eeprom) : List Byte × Eeprom :=
  let result := elSromLoad (eeprom secondDevice) 0#8 configSysSromSize secondDevice firstBlock
    ⟨chip, []⟩
  (result.2.1 ++ env.stack.drop result.2.1.length, result.2.2.slave)

def miscInitR (env : Surroundings) (input : OperatorInput) (chip : Eeprom) (nv : Nvram) :
    Option Recovery :=
  let loaded := loadRevinfo env chip
  if hasMagic loaded.1 then
    if copyInvalid loaded.1 nv then
      let choice := chosen input.choice
      writeRevinfo env input loaded.2 nv loaded.1 true choice.1 choice.2
    else writeRevinfo env input loaded.2 nv loaded.1 false false false
  else writeRevinfo env input loaded.2 nv defaultRevinfo false true true

/-- The SROM is not initialized, or the operator answers `R`. -/
def Reenters (env : Surroundings) (input : OperatorInput) (chip : Eeprom) (nv : Nvram) : Prop :=
  hasMagic (loadRevinfo env chip).1 = false ∨
    (copyInvalid (loadRevinfo env chip).1 nv = true ∧ input.choice.count ≠ 0 ∧
      toupper (input.choice.buffer 0) = 82#8)

def AnswersCopy (env : Surroundings) (input : OperatorInput) (chip : Eeprom) (nv : Nvram) :
    Prop :=
  hasMagic (loadRevinfo env chip).1 = true ∧ copyInvalid (loadRevinfo env chip).1 nv = true ∧
    input.choice.count ≠ 0 ∧ toupper (input.choice.buffer 0) = 67#8

theorem defaultRevinfo_valid :
    defaultRevinfo.length = configSysSromSize ∧ hasMagic defaultRevinfo = true := by
  decide +kernel

/-!
# The fields
-/

theorem patch_length {eerev bytes : List Byte} {offset : Nat}
    (h : offset + bytes.length <= eerev.length) :
    (patch eerev offset bytes).length = eerev.length := by
  simp only [patch, List.length_append, List.length_take, List.length_drop]
  omega

theorem patch_take {eerev bytes : List Byte} {offset n : Nat} (hn : n <= offset)
    (h : offset <= eerev.length) : (patch eerev offset bytes).take n = eerev.take n := by
  have hlength : (eerev.take offset).length = offset := by
    rw [List.length_take]
    omega
  rw [patch, List.append_assoc, List.take_append_of_le_length (by omega), List.take_take,
    Nat.min_eq_left hn]

/-- A revision info of the right size that keeps its magic. -/
def SameMagic (eerev eerev' : List Byte) : Prop :=
  eerev'.length = eerev.length ∧ eerev'.take 6 = eerev.take 6

theorem SameMagic.trans {a b c : List Byte} (h : SameMagic a b) (h' : SameMagic b c) :
    SameMagic a c := ⟨h'.1.trans h.1, h'.2.trans h.2⟩

theorem sameMagic_patch {eerev bytes : List Byte} {offset : Nat} (hoffset : 6 <= offset)
    (h : offset + bytes.length <= eerev.length) : SameMagic eerev (patch eerev offset bytes) :=
  ⟨patch_length h, patch_take hoffset (by omega)⟩

theorem sameMagic_if {c : Prop} [Decidable c] {eerev changed : List Byte}
    (h : SameMagic eerev changed) : SameMagic eerev (if c then changed else eerev) := by
  split
  · exact h
  · exact ⟨rfl, rfl⟩

section Fields

variable (env : Surroundings) (input : OperatorInput) {eerev : List Byte}
  (hlength : eerev.length = configSysSromSize)

include hlength

theorem enterNumber_magic : SameMagic eerev (enterNumber input eerev) := by
  apply sameMagic_if
  have hlength' : eerev.length = 256 := hlength
  have hfirst : SameMagic eerev (patch eerev 0x70 [toupper (input.revisionNumber.buffer 0)]) :=
    sameMagic_patch (by omega) (by rw [List.length_singleton]; omega)
  apply hfirst.trans
  apply sameMagic_patch (by omega)
  rw [hfirst.1, List.length_take]
  omega

theorem enterCharacter_magic : SameMagic eerev (enterCharacter input eerev) := by
  apply sameMagic_if
  have hlength' : eerev.length = 256 := hlength
  exact sameMagic_patch (by omega) (by rw [List.length_singleton]; omega)

theorem enterBoard_magic : SameMagic eerev (enterBoard input eerev) := by
  apply sameMagic_if
  have hlength' : eerev.length = 256 := hlength
  apply sameMagic_patch (by omega)
  rw [List.length_append, List.length_map, List.length_range, List.length_singleton]
  omega

theorem enterSerial_magic : SameMagic eerev (enterSerial input eerev) := by
  apply sameMagic_if
  have hlength' : eerev.length = 256 := hlength
  apply sameMagic_patch (by omega)
  rw [List.length_append, List.length_map, List.length_range, List.length_singleton]
  omega

theorem enterNodeId_magic : SameMagic eerev (enterNodeId env input eerev) := by
  apply sameMagic_if
  have hlength' : eerev.length = 256 := hlength
  apply sameMagic_patch (by omega)
  rw [List.length_map, List.length_range]
  omega

theorem enterText_magic : SameMagic eerev (enterText input eerev) := by
  apply sameMagic_if
  have hlength' : eerev.length = 256 := hlength
  have htext : textLength eerev <= 63 := by
    apply Nat.le_trans (List.IsPrefix.length_le (List.takeWhile_prefix _))
    rw [List.length_take]
    omega
  have hfirst : SameMagic eerev (patch eerev (0x80 + textLength eerev)
      ((List.range (63 - textLength eerev)).map input.text.buffer)) := by
    apply sameMagic_patch (by omega)
    rw [List.length_map, List.length_range]
    omega
  apply hfirst.trans
  apply sameMagic_patch (by omega)
  rw [hfirst.1, List.length_singleton]
  omega

theorem enterCacheWord_magic : SameMagic eerev (enterCacheWord env input eerev) := by
  have hlength' : eerev.length = 256 := hlength
  have hword : forall w, SameMagic eerev (patch eerev 0xc0 (wordBytes w)) := by
    intro w
    exact sameMagic_patch (by omega) (by rw [wordBytes_length]; omega)
  unfold enterCacheWord
  split
  · apply (hword _).trans
    apply sameMagic_if
    apply sameMagic_patch (by omega)
    rw [(hword _).1, List.length_map, List.length_range]
    omega
  · exact hword _

theorem updateCrc_magic : SameMagic eerev (updateCrc env eerev) := by
  have hlength' : eerev.length = 256 := hlength
  apply sameMagic_patch (by omega)
  rw [wordBytes_length]
  omega

theorem enterRevinfo_magic : SameMagic eerev (enterRevinfo env input eerev) := by
  have h1 := enterNumber_magic input hlength
  have h2 := h1.trans (enterCharacter_magic input (h1.1.trans hlength))
  have h3 := h2.trans (enterBoard_magic input (h2.1.trans hlength))
  have h4 := h3.trans (enterSerial_magic input (h3.1.trans hlength))
  have h5 := h4.trans (enterNodeId_magic env input (h4.1.trans hlength))
  have h6 := h5.trans (enterText_magic input (h5.1.trans hlength))
  have h7 := h6.trans (enterCacheWord_magic env input (h6.1.trans hlength))
  exact h7.trans (updateCrc_magic env (h7.1.trans hlength))

end Fields

end Srom
end Bab750
