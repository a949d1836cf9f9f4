import Bab750.Flash.Write
import Bab750.Support.Strtoul

/-!
# Ranges of sectors

The range specifications of `common/cmd_flash.c`: sectors of a bank, addresses, a
start with a length, and the sectors of each bank that a range of addresses takes.
-/

namespace Bab750
namespace Flash

open Foundation
open Console (hexText)
open Support (simpleStrtoul)

/-!
# Specifications
-/

def wholeNumber (text : List Byte) (base : Nat) : Option (BitVec 32) :=
  let (value, rest) := simpleStrtoul text base
  if rest.length = text.length ∨ rest ≠ [] then none else some value

/-- The text in front of the first such character, and the text behind it. -/
def cutAt (c : Byte) (text : List Byte) : Option (List Byte × List Byte) :=
  let front := text.takeWhile (fun b => b != c)
  match text.drop front.length with
  | [] => none
  | _ :: rest => some (front, rest)

inductive AbbrevSpec where
  | other
  | bad
  | sectors (bank : Nat) (first last : Int)
deriving DecidableEq

/-- The sectors of a bank: `SF` or `SF-SL`. -/
def abbrevSectors (bank sectorCount : Nat) (text : List Byte) : AbbrevSpec :=
  let (firstText, lastText) := match cutAt 0x2d#8 text with
    | some (front, rest) => (front, some rest)
    | none => (text, none)
  match wholeNumber firstText 10 with
  | none => .bad
  | some first =>
      if (sectorCount : Int) <= first.toInt then .bad
      else
        match lastText with
        | none => .sectors bank first.toInt first.toInt
        | some text =>
            match wholeNumber text 10 with
            | none => .bad
            | some last =>
                if last.toInt < first.toInt ∨ (sectorCount : Int) <= last.toInt then .bad
                else .sectors bank first.toInt last.toInt

def abbrevSpec (banks : List FlashInfo) (str : List Byte) : AbbrevSpec :=
  match cutAt 0x3a#8 str with
  | none => .other
  | some (bankText, rest) =>
      match wholeNumber bankText 10 with
      | none => .bad
      | some bank =>
          if bank.toInt < 1 ∨ (banks.length : Int) < bank.toInt then .bad
          else
            match banks[bank.toNat - 1]? with
            | none => .bad
            | some info =>
                if info.isKnown then abbrevSectors (bank.toNat - 1) info.sectorCount rest
                else .bad

/-- The last address of the first sector that holds an address. -/
def sectorEnd (banks : List FlashInfo) (addr : BitVec 32) : Option (BitVec 32) :=
  banks.findSome? (fun info =>
    ((List.range info.sectorCount).find? (fun i =>
      addr <= info.sectorLast i && info.start i <= addr)).map info.sectorLast)

/-- `%08lx`. -/
def hexWord (value : BitVec 32) : Text :=
  let digits := hexText value.toNat
  List.replicate (8 - digits.length) '0' ++ digits

def addrSpec (banks : List FlashInfo) (arg1 arg2 : List Byte) :
    Text × Option (BitVec 32 × BitVec 32) :=
  match wholeNumber arg1 16 with
  | none => ([], none)
  | some first =>
      let lenUsed := arg2.head? == some 0x2b#8
      match wholeNumber (if lenUsed then arg2.tail else arg2) 16 with
      | none => ([], none)
      | some value =>
          if lenUsed then
            -- `flash_sect_roundb`
            let last := first + value - 1#32
            match sectorEnd banks last with
            | some rounded => ([], some (first, rounded))
            | none =>
                (chars "Error: end address (0x" ++ hexWord last ++ chars ") not in flash!\n",
                  none)
          else ([], some (first, value))

/-!
# The sectors of a range
-/

inductive RangeError where
  | endNotOnBoundary
  | endPrecedesStart
  | startNotOnBoundary
  | reverseOrder
deriving DecidableEq

def RangeError.text : RangeError -> Text
  | .endNotOnBoundary => chars "Error: end address not on sector boundary\n"
  | .endPrecedesStart => chars "Error: end sector precedes start sector\n"
  | .startNotOnBoundary => chars "Error: start address not on sector boundary\n"
  | .reverseOrder =>
      chars "Error: cannot span across banks when they are mapped in reverse order\n"

/-- `s_first` and `s_last` of a bank, -1 for none. -/
structure SectorRange where
  first : Int
  last : Int
deriving DecidableEq

def noSectors : SectorRange := ⟨-1, -1⟩

def scanSectors (info : FlashInfo) (addrFirst addrLast : BitVec 32) : SectorRange :=
  (List.range info.sectorCount).foldl (fun range sect =>
    let last := info.sectorLast sect
    if last < addrFirst then range
    else if addrLast < info.start sect then range
    else
      { first := if addrFirst = info.start sect then sect else range.first
        last := if addrLast = last then sect else range.last }) noSectors

/-- What `flash_fill_sect_ranges` fills in. -/
structure SectorPlan where
  ranges : List SectorRange
  count : Int
  error : Option RangeError
deriving DecidableEq

def SectorPlan.cons (range : SectorRange) (count : Int) (plan : SectorPlan) : SectorPlan where
  ranges := range :: plan.ranges
  count := count + plan.count
  error := plan.error

def flashFillSectRanges :
    List FlashInfo -> BitVec 32 -> BitVec 32 -> SectorPlan
  | [], _, _ => ⟨[], 0, none⟩
  | info :: banks, addrFirst, addrLast =>
      let untouched := (info :: banks).map (fun _ => noSectors)
      if addrLast < addrFirst then ⟨untouched, 0, none⟩
      else if !info.isKnown then
        (flashFillSectRanges banks addrFirst addrLast).cons noSectors 0
      else
        let bEnd := info.bankEnd - 1#32
        let sEnd : Int := info.sectorCount - 1
        let range := scanSectors info addrFirst addrLast
        if 0 <= range.first then
          if range.last < 0 ∧ addrLast <= bEnd then
            ⟨range :: untouched.tail, 0, some .endNotOnBoundary⟩
          else
            let last := if range.last < 0 then sEnd else range.last
            if last < range.first then
              ⟨⟨range.first, last⟩ :: untouched.tail, 0, some .endPrecedesStart⟩
            else
              let next := if last = sEnd then bEnd + 1#32 else info.start (last.toNat + 1)
              (flashFillSectRanges banks next addrLast).cons ⟨range.first, last⟩
                (last - range.first + 1)
        else if info.start 0 <= addrFirst ∧ addrFirst < bEnd then
          ⟨range :: untouched.tail, 0, some .startNotOnBoundary⟩
        else if 0 <= range.last then
          ⟨range :: untouched.tail, 0, some .reverseOrder⟩
        else (flashFillSectRanges banks addrFirst addrLast).cons range 0

end Flash
end Bab750
