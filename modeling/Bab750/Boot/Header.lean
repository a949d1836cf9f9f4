import Bab750.Foundation.Memory
import Bab750.Foundation.Words
import Bab750.Support.Crc32

/-!
# Legacy images

`image_header_t` of `include/image.h`, and the checks of `common/image.c`. All fields are
stored with the most significant byte first. The board has no watchdog, so that `crc32_wd`
and `memmove_wd` take their argument in one piece.
-/

namespace Bab750
namespace Boot

open Foundation
open Support

def headerSize : Nat := 64

/-- `uimage_to_cpu` of the 32-bit field at an offset. -/
def headerLong (header : List Byte) (offset : Nat) : BitVec 32 :=
  bytesWord ((header.drop offset).take 4)

def headerByte (header : List Byte) (offset : Nat) : Byte := header.getD offset 0#8

def imageGetMagic (header : List Byte) : BitVec 32 := headerLong header 0

def imageGetHcrc (header : List Byte) : BitVec 32 := headerLong header 4

def imageGetSize (header : List Byte) : BitVec 32 := headerLong header 12

def imageGetLoad (header : List Byte) : BitVec 32 := headerLong header 16

def imageGetEp (header : List Byte) : BitVec 32 := headerLong header 20

def imageGetDcrc (header : List Byte) : BitVec 32 := headerLong header 24

def imageGetOs (header : List Byte) : Byte := headerByte header 28

def imageGetArch (header : List Byte) : Byte := headerByte header 29

def imageGetType (header : List Byte) : Byte := headerByte header 30

def imageGetComp (header : List Byte) : Byte := headerByte header 31

/-- `ih_name`, all of its 32 bytes. -/
def imageGetName (header : List Byte) : List Byte := (header.drop 32).take 32

def ihMagic : BitVec 32 := 0x27051956#32

def osLinux : Byte := 5#8

def archPpc : Byte := 7#8

def typeStandalone : Byte := 1#8

def typeKernel : Byte := 2#8

def typeRamdisk : Byte := 3#8

def typeMulti : Byte := 4#8

def typeScript : Byte := 6#8

def compNone : Byte := 0#8

def compGzip : Byte := 1#8

def imageCheckMagic (header : List Byte) : Bool := imageGetMagic header = ihMagic

/-- `image_set_hcrc (&header, 0)` -/
def blankHcrc (header : List Byte) : List Byte :=
  header.take 4 ++ List.replicate 4 0#8 ++ header.drop 8

def imageCheckHcrc (header : List Byte) : Bool :=
  crc32 0#32 0 (blankHcrc header) = imageGetHcrc header

def headerAt (memory : Memory) (hdr : BitVec 32) : List Byte :=
  memoryRange memory hdr headerSize

def imageGetData (hdr : BitVec 32) : BitVec 32 := hdr + BitVec.ofNat 32 headerSize

def imagePayload (memory : Memory) (hdr : BitVec 32) : List Byte :=
  memoryRange memory (imageGetData hdr) (imageGetSize (headerAt memory hdr)).toNat

def imageCheckDcrc (memory : Memory) (hdr : BitVec 32) : Bool :=
  crc32 0#32 (imageGetData hdr).toNat (imagePayload memory hdr) =
    imageGetDcrc (headerAt memory hdr)

def imageGetImageEnd (memory : Memory) (hdr : BitVec 32) : BitVec 32 :=
  imageGetData hdr + imageGetSize (headerAt memory hdr)

/-- `uimage_to_cpu (size[i])`, with `size` at the payload. -/
def componentSize (memory : Memory) (hdr : BitVec 32) (i : Nat) : BitVec 32 :=
  bytesWord (memoryRange memory (imageGetData hdr + BitVec.ofNat 32 (4 * i)) 4)

/-- The words from `i` on, up to the first that is zero. -/
def countFrom (memory : Memory) (hdr : BitVec 32) (i : Nat) : Nat -> Option Nat
  | 0 => none
  | fuel + 1 =>
      if componentSize memory hdr i = 0#32 then some i
      else countFrom memory hdr (i + 1) fuel

/-- `image_multi_count`; nothing when no word of the whole memory ends the loop. -/
def imageMultiCount (memory : Memory) (hdr : BitVec 32) : Option Nat :=
  countFrom memory hdr 0 (2 ^ 30)

/-- `(uimage_to_cpu (size[i]) + 3) & ~3` -/
def paddedSize (size : BitVec 32) : BitVec 32 := (size + 3#32) &&& ~~~3#32

def componentOffset (memory : Memory) (hdr : BitVec 32) : Nat -> BitVec 32
  | 0 => 0#32
  | idx + 1 =>
      componentOffset memory hdr idx + paddedSize (componentSize memory hdr idx)

def imageMultiGetimg (memory : Memory) (hdr : BitVec 32) (idx : Nat) :
    Option (BitVec 32 × BitVec 32) :=
  (imageMultiCount memory hdr).map (fun count =>
    if idx < count then
      (imageGetData hdr + BitVec.ofNat 32 (4 * (count + 1)) + componentOffset memory hdr idx,
        componentSize memory hdr idx)
    else (0#32, 0#32))

/-!
# Headers by their fields
-/

structure HeaderFields where
  time : BitVec 32
  load : BitVec 32
  ep : BitVec 32
  os : Byte
  arch : Byte
  type : Byte
  comp : Byte
  name : List Byte
  nameLength : name.length = 32

def headerBytes (f : HeaderFields) (hcrc size dcrc : BitVec 32) : List Byte :=
  wordBytes ihMagic ++ wordBytes hcrc ++ wordBytes f.time ++ wordBytes size ++
    wordBytes f.load ++ wordBytes f.ep ++ wordBytes dcrc ++
    [f.os, f.arch, f.type, f.comp] ++ f.name

def sealedHeader (f : HeaderFields) (payload : List Byte) : List Byte :=
  let size := BitVec.ofNat 32 payload.length
  let dcrc := crc32 0#32 0 payload
  headerBytes f (crc32 0#32 0 (headerBytes f 0#32 size dcrc)) size dcrc

def legacyImage (f : HeaderFields) (payload : List Byte) : List Byte :=
  sealedHeader f payload ++ payload

end Boot
end Bab750
