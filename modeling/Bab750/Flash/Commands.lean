import Bab750.Command.Run
import Bab750.Flash.Ranges

/-!
# The flash commands

`flash_erase` of the board, `erase` and `protect` of `common/cmd_flash.c`, and `cp` of
`common/cmd_mem.c`.
-/

namespace Bab750
namespace Flash

open Foundation
open Command
open Console (decimalText)
open Support (simpleStrtoul)

/-- The board as the commands see it; `rest` is what other commands work on. -/
structure Board (E : Type) where
  memory : Memory
  banks : List FlashInfo
  /-- `base_address`. -/
  baseAddress : BitVec 32
  rest : E

variable {E : Type}

/-!
# Erasing
-/

structure Effect (E : Type) where
  output : Text
  board : Board E
  rc : Int

def Effect.after (output : Text) (effect : Effect E) : Effect E :=
  { effect with output := output ++ effect.output }

def flashAmdComp : BitVec 32 := 0x000fffff#32

/-- The sectors from `s_first` to `s_last`. -/
def sectorsFrom (first last : Int) : List Nat :=
  (List.range (last - first + 1).toNat).map (fun i => first.toNat + i)

def FlashInfo.inSector (info : FlashInfo) (i : Nat) (addr : BitVec 32) : Bool :=
  info.start i <= addr && addr <= info.sectorLast i

def eraseSectors (chip : Chip) (memory : Memory) (info : FlashInfo) (sectors : List Nat) :
    Memory :=
  fun a => if sectors.any (fun i => info.inSector i a) then chip.erase a (memory a)
    else memory a

def flashErase (chip : Chip) (board : Board E) (info : FlashInfo) (first last : Int) :
    Effect E :=
  if first < 0 ∨ last < first then
    ⟨chars (if info.isKnown then "- no sectors to erase\n" else "- missing\n"), board, 1⟩
  else if !info.isKnown || flashAmdComp < info.flashId then
    ⟨chars "Can't erase unknown flash type - aborted\n", board, 1⟩
  else
    let sectors := sectorsFrom first last
    let prot := (sectors.filter info.protect).length
    let warning := if prot = 0 then chars "\n"
      else chars "- Warning: " ++ decimalText prot ++
        chars " protected sectors will not be erased!\n"
    let unlocked := sectors.filter (fun i => !info.protect i)
    let erased := { board with memory := eraseSectors chip board.memory info unlocked }
    match unlocked.getLast? with
    | none => ⟨warning ++ chars " done\n", board, 0⟩
    | some lSect =>
        -- the last sector shows when all of them are ready
        let dots := List.replicate (chip.dots (info.start lSect)) '.'
        if erased.memory (info.start lSect) &&& 0x80#8 = 0x80#8 then
          ⟨warning ++ dots ++ chars " done\n", erased, 0⟩
        else ⟨warning ++ dots ++ chars "Timeout\n", erased, 1⟩

/-- The loop of `flash_sect_erase`, with the number of sectors at its end. -/
def eraseBanks (chip : Chip) : List (FlashInfo × SectorRange) -> Board E -> Int -> Effect E
  | [], board, erased => ⟨chars "Erased " ++ decimalText erased ++ chars " sectors\n", board, 0⟩
  | (info, range) :: banks, board, erased =>
      if 0 <= range.first then
        let total := erased + (range.last - range.first + 1)
        let effect := flashErase chip board info range.first range.last
        if effect.rc = 0 then (eraseBanks chip banks effect.board total).after effect.output
        else
          { effect with
            output := effect.output ++ chars "Erased " ++ decimalText total ++
              chars " sectors\n" }
      else eraseBanks chip banks board erased

def notOnBoundary : Text :=
  chars "Error: start and/or end address not on sector boundary\n"

def flashSectErase (chip : Chip) (board : Board E) (addrFirst addrLast : BitVec 32) :
    Effect E :=
  let plan := flashFillSectRanges board.banks addrFirst addrLast
  match plan.error with
  | some error => ⟨error.text, board, 1⟩
  | none =>
      if plan.count ≠ 0 then eraseBanks chip (board.banks.zip plan.ranges) board 0
      else ⟨notOnBoundary, board, 1⟩

/-!
# Protection
-/

def FlashInfo.protectSectors (info : FlashInfo) (p : Bool) (sectors : List Nat) :
    FlashInfo :=
  { info with protect := fun i => if i ∈ sectors then p else info.protect i }

/-- The word in front of `Protect`. -/
def unText (p : Bool) : Text := if p then [] else chars "Un-"

/-- The loop of `flash_sect_protect`. -/
def protectBanks (p : Bool) (banks : List (FlashInfo × SectorRange)) : List FlashInfo :=
  banks.map (fun (info, range) =>
    if info.isKnown && 0 <= range.first && range.first <= range.last then
      info.protectSectors p (sectorsFrom range.first range.last)
    else info)

/-- The number of sectors that `flash_sect_protect` reports. -/
def protectedCount (banks : List (FlashInfo × SectorRange)) : Int :=
  (banks.map (fun (info, range) =>
    if info.isKnown && 0 <= range.first && range.first <= range.last then
      range.last - range.first + 1
    else 0)).sum

def flashSectProtect (p : Bool) (board : Board E) (addrFirst addrLast : BitVec 32) :
    Effect E :=
  let plan := flashFillSectRanges board.banks addrFirst addrLast
  match plan.error with
  | some error => ⟨error.text, board, 1⟩
  | none =>
      if plan.count ≠ 0 then
        ⟨unText p ++ chars "Protected " ++
            decimalText (protectedCount (board.banks.zip plan.ranges)) ++
              chars " sectors\n",
          { board with banks := protectBanks p (board.banks.zip plan.ranges) }, 0⟩
      else ⟨notOnBoundary, board, 1⟩

/-!
# Commands
-/

def eraseManual : Manual where
  name := ascii "erase"
  usage := chars "erase FLASH memory"
  help := chars ("start end\n" ++
    "    - erase FLASH from addr 'start' to addr 'end'\n" ++
    "erase start +len\n" ++
    "    - erase FLASH from addr 'start' to the end of sect " ++
    "w/addr 'start'+'len'-1\n" ++
    "erase N:SF[-SL]\n    - erase sectors SF-SL in FLASH bank # N\n" ++
    "erase bank N\n    - erase FLASH bank # N\n" ++
    "erase all\n    - erase all FLASH banks")

def protectManual : Manual where
  name := ascii "protect"
  usage := chars "enable or disable FLASH write protection"
  help := chars ("on  start end\n" ++
    "    - protect FLASH from addr 'start' to addr 'end'\n" ++
    "protect on start +len\n" ++
    "    - protect FLASH from addr 'start' to end of sect " ++
    "w/addr 'start'+'len'-1\n" ++
    "protect on  N:SF[-SL]\n" ++
    "    - protect sectors SF-SL in FLASH bank # N\n" ++
    "protect on  bank N\n    - protect FLASH bank # N\n" ++
    "protect on  all\n    - protect all FLASH banks\n" ++
    "protect off start end\n" ++
    "    - make FLASH from addr 'start' to addr 'end' writable\n" ++
    "protect off start +len\n" ++
    "    - make FLASH from addr 'start' to end of sect " ++
    "w/addr 'start'+'len'-1 wrtable\n" ++
    "protect off N:SF[-SL]\n" ++
    "    - make sectors SF-SL writable in FLASH bank # N\n" ++
    "protect off bank N\n    - make FLASH bank # N writable\n" ++
    "protect off all\n    - make all FLASH banks writable")

def cpManual : Manual where
  name := ascii "cp"
  usage := chars "memory copy"
  help := chars "[.b, .w, .l] source target count"

def usageEffect (manual : Manual) (board : Board E) : Effect E :=
  ⟨cmdUsage manual, board, 1⟩

def onlyBanks (banks : List FlashInfo) : Text :=
  chars "Only FLASH Banks # 1 ... # " ++ decimalText banks.length ++ chars " supported\n"

def eraseBank (chip : Chip) (board : Board E) (info : FlashInfo) (bank : Nat) : Effect E :=
  (flashErase chip board info 0 (info.sectorCount - 1)).after
    (chars "Erase Flash Bank # " ++ decimalText bank ++ chars " ")

def eraseAll (chip : Chip) : List FlashInfo -> Nat -> Effect E -> Effect E
  | [], _, effect => effect
  | info :: banks, bank, effect =>
      eraseAll chip banks (bank + 1)
        ((eraseBank chip effect.board info bank).after effect.output)

def bankNumber (banks : List FlashInfo) (text : List Byte) : Option (Nat × FlashInfo) :=
  let bank := (simpleStrtoul text 16).1.toNat
  if bank = 0 then none else (banks[bank - 1]?).map (fun info => (bank, info))

/-- `do_flerase` for a range of two arguments. -/
def eraseRange (chip : Chip) (board : Board E) (arg1 arg2 : List Byte) : Effect E :=
  match addrSpec board.banks arg1 arg2 with
  | (output, none) => ⟨output ++ chars "Bad address format\n", board, 1⟩
  | (_, some (addrFirst, addrLast)) =>
      if addrLast <= addrFirst then usageEffect eraseManual board
      else flashSectErase chip board addrFirst addrLast

def doFlerase (chip : Chip) (board : Board E) (argv : List (List Byte)) : Effect E :=
  match argv with
  | _ :: arg1 :: more =>
      if arg1 = ascii "all" then eraseAll chip board.banks 1 ⟨[], board, 0⟩
      else
        match abbrevSpec board.banks arg1 with
        | .bad => ⟨chars "Bad sector specification\n", board, 1⟩
        | .sectors bank first last =>
            match board.banks[bank]? with
            | none => ⟨[], board, 1⟩
            | some info =>
                (flashErase chip board info first last).after
                  (chars "Erase Flash Sectors " ++ decimalText first ++ chars "-" ++
                    decimalText last ++ chars " in Bank # " ++ decimalText (bank + 1) ++
                      chars " ")
        | .other =>
            match more with
            | [arg2] =>
                if arg1 = ascii "bank" then
                  match bankNumber board.banks arg2 with
                  | none => ⟨onlyBanks board.banks, board, 1⟩
                  | some (bank, info) => eraseBank chip board info bank
                else eraseRange chip board arg1 arg2
            | _ => usageEffect eraseManual board
  | _ => usageEffect eraseManual board

def allSectors (info : FlashInfo) : List Nat := List.range info.sectorCount

/-- `protect on` or `off` for a range of two arguments. -/
def protectRange (p : Bool) (board : Board E) (arg2 arg3 : List Byte) : Effect E :=
  match addrSpec board.banks arg2 arg3 with
  | (output, none) => ⟨output ++ chars "Bad address format\n", board, 1⟩
  | (_, some (addrFirst, addrLast)) =>
      if addrLast <= addrFirst then usageEffect protectManual board
      else flashSectProtect p board addrFirst addrLast

def protectAllText (p : Bool) : List FlashInfo -> Nat -> Text
  | [], _ => []
  | info :: banks, bank =>
      (if info.isKnown then
        unText p ++ chars "Protect Flash Bank # " ++ decimalText bank ++ chars "\n"
      else []) ++ protectAllText p banks (bank + 1)

/-- `do_protect` behind `on` or `off`. -/
def protectSpec (p : Bool) (board : Board E) (arg2 : List Byte) (more : List (List Byte)) :
    Effect E :=
  if arg2 = ascii "all" then
    ⟨protectAllText p board.banks 1,
      { board with
        banks := board.banks.map (fun info =>
          if info.isKnown then info.protectSectors p (allSectors info) else info) }, 0⟩
  else
    match abbrevSpec board.banks arg2 with
    | .bad => ⟨chars "Bad sector specification\n", board, 1⟩
    | .sectors bank first last =>
        ⟨unText p ++ chars "Protect Flash Sectors " ++ decimalText first ++ chars "-" ++
            decimalText last ++ chars " in Bank # " ++ decimalText (bank + 1) ++ chars "\n",
          { board with
            banks := board.banks.modify bank
              (fun info => info.protectSectors p (sectorsFrom first last)) }, 0⟩
    | .other =>
        match more with
        | [arg3] =>
            if arg2 = ascii "bank" then
              match bankNumber board.banks arg3 with
              | none => ⟨onlyBanks board.banks, board, 1⟩
              | some (bank, info) =>
                  let output := unText p ++ chars "Protect Flash Bank # " ++
                    decimalText bank ++ chars "\n"
                  if info.isKnown then
                    ⟨output,
                      { board with
                        banks := board.banks.modify (bank - 1)
                          (fun info => info.protectSectors p (allSectors info)) }, 0⟩
                  else ⟨output ++ chars "missing or unknown FLASH type\n", board, 1⟩
            else protectRange p board arg2 arg3
        | _ => usageEffect protectManual board

def doProtect (board : Board E) (argv : List (List Byte)) : Effect E :=
  match argv with
  | _ :: arg1 :: arg2 :: more =>
      if arg1 = ascii "off" then protectSpec false board arg2 more
      else if arg1 = ascii "on" then protectSpec true board arg2 more
      else usageEffect protectManual board
  | _ => usageEffect protectManual board

def cmdGetDataSize (arg : List Byte) (defaultSize : Int) : Int :=
  match arg.reverse with
  | letter :: dot :: _ :: _ =>
      if dot = 0x2e#8 then
        if letter = 0x62#8 then 1
        else if letter = 0x77#8 then 2
        else if letter = 0x6c#8 then 4
        else if letter = 0x73#8 then -2
        else -1
      else defaultSize
  | _ => defaultSize

/-- The loop that copies to other memory, one element after the other. -/
def copyLoop (size : Nat) : Nat -> Memory -> BitVec 32 -> BitVec 32 -> Memory
  | 0, memory, _, _ => memory
  | count + 1, memory, addr, dest =>
      let element := (List.range size).map (fun i => memory (addr + BitVec.ofNat 32 i))
      copyLoop size count (copyMemory memory dest element) (addr + BitVec.ofNat 32 size)
        (dest + BitVec.ofNat 32 size)

def doMemCp (chip : Chip) (board : Board E) (argv : List (List Byte)) : Effect E :=
  match argv with
  | [name, arg1, arg2, arg3] =>
      let size := cmdGetDataSize name 4
      if size < 0 then ⟨[], board, 1⟩
      else
        let addr := (simpleStrtoul arg1 16).1 + board.baseAddress
        let dest := (simpleStrtoul arg2 16).1 + board.baseAddress
        let count := (simpleStrtoul arg3 16).1
        if count = 0#32 then ⟨chars "Zero length ???\n", board, 1⟩
        else if (addr2info board.banks dest).isSome then
          let result := flashWrite chip board.banks board.memory addr dest
            (count * BitVec.ofInt 32 size)
          let written := { board with memory := result.2 }
          if result.1 ≠ errOk then
            ⟨chars "Copy to Flash... " ++ flashPerror result.1, written, 1⟩
          else ⟨chars "Copy to Flash... done\n", written, 0⟩
        else
          let copied := copyLoop size.toNat count.toNat board.memory addr dest
          ⟨[], { board with memory := copied }, 0⟩
  | _ => usageEffect cpManual board

end Flash
end Bab750
