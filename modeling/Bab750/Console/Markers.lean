import Bab750.Foundation.Pattern

/-!
# What the scripts look for

The regular expressions of `bab750_flash_u_boot.py`, with the character classes of
Python's `re` for text.
-/

namespace Bab750
namespace Console

open Foundation
open Pattern

/-!
# Character classes
-/

def isSpace (c : Char) : Bool :=
  (9 <= c.toNat && c.toNat <= 13) || (28 <= c.toNat && c.toNat <= 32) ||
    c.toNat == 0x85 || c.toNat == 0xa0 || c.toNat == 0x1680 ||
    (0x2000 <= c.toNat && c.toNat <= 0x200a) || c.toNat == 0x2028 ||
    c.toNat == 0x2029 || c.toNat == 0x202f || c.toNat == 0x205f || c.toNat == 0x3000

/-- The zeros of the decimal digits; each is followed by its nine companions. -/
def decimalZeros : List Nat :=
  [0x30, 0x660, 0x6f0, 0x7c0, 0x966, 0x9e6, 0xa66, 0xae6, 0xb66, 0xbe6, 0xc66, 0xce6,
    0xd66, 0xde6, 0xe50, 0xed0, 0xf20, 0x1040, 0x1090, 0x17e0, 0x1810, 0x1946, 0x19d0,
    0x1a80, 0x1a90, 0x1b50, 0x1bb0, 0x1c40, 0x1c50, 0xa620, 0xa8d0, 0xa900, 0xa9d0,
    0xa9f0, 0xaa50, 0xabf0, 0xff10, 0x104a0, 0x10d30, 0x11066, 0x110f0, 0x11136,
    0x111d0, 0x112f0, 0x11450, 0x114d0, 0x11650, 0x116c0, 0x11730, 0x118e0, 0x11950,
    0x11c50, 0x11d50, 0x11da0, 0x16a60, 0x16ac0, 0x16b50, 0x1d7ce, 0x1d7d8, 0x1d7e2,
    0x1d7ec, 0x1d7f6, 0x1e140, 0x1e2f0, 0x1e950, 0x1fbf0]

def isDecimal (c : Char) : Bool :=
  decimalZeros.any (fun first => first <= c.toNat && c.toNat < first + 10)

/-- `[0-9a-fA-F]`. -/
def isHexDigit (c : Char) : Bool :=
  ('0' <= c && c <= '9') || ('a' <= c && c <= 'f') || ('A' <= c && c <= 'F')

/-- A letter under `re.IGNORECASE`, with the four that fold into ASCII. -/
def foldCase (c : Char) : Char :=
  if c.toNat == 0x130 || c.toNat == 0x131 then 'i'
  else if c.toNat == 0x17f then 's'
  else if c.toNat == 0x212a then 'k'
  else c.toLower

def sameIgnoringCase (c d : Char) : Bool := foldCase c == foldCase d

/-- A literal under `re.IGNORECASE`. -/
def anyCase (text : String) : Pattern := literal sameIgnoringCase (chars text)

def exactly (text : String) : Pattern := literal (fun c d => c == d) (chars text)

def spaces : Pattern := .many isSpace

/-- `\w`, where `letter` says which characters beyond ASCII are letters or numbers. -/
def isWordChar (letter : Char -> Bool) (c : Char) : Bool :=
  if c.toNat < 128 then c.isAlphanum || c == '_' else letter c

/-- `\b` around a literal under `re.IGNORECASE`. -/
def wholeWord (letter : Char -> Bool) (text : String) : Pattern :=
  sequence [.boundary (isWordChar letter), anyCase text, .boundary (isWordChar letter)]

/-!
# The expressions
-/

def resetMarkerRe : Pattern :=
  .alt (sequence [anyCase "***", spaces, anyCase "ELTEC Elektronik, Mainz", spaces,
      anyCase "***"])
    (.alt (anyCase "BAB-PPC Monitor Version 1.2.1/2")
      (anyCase "Init MPU/MSR/FPU/Segment registers."))

def memoryTestRe : Pattern := anyCase "Press any key to skip memory test"

def vxworksBannerRe : Pattern :=
  .alt (anyCase "VxWorks System Boot")
    (.alt (sequence [anyCase "Copyright 1984-1996", oneOrMore isSpace,
        anyCase "Wind River Systems, Inc."])
      (sequence [anyCase "CPU:", spaces, anyCase "ELTEC BAB-PPC"]))

def nvramInvalidRe : Pattern :=
  sequence [anyCase "Invalid revision info copy in nvram", spaces, anyCase "!"]

def nvramPressKeyRe : Pattern := anyCase "Press key:"

def promptRe : Pattern := sequence [exactly "=>", .char isSpace]

def ubootBannerRe (letter : Char -> Bool) : Pattern := wholeWord letter "U-Boot"

def ubootAutobootRe : Pattern :=
  sequence [
    .alt (anyCase "Hit any key to stop autoboot")
      (sequence [anyCase "Press", oneOrMore isSpace, anyCase "'Enter'",
        oneOrMore isSpace, anyCase "or", oneOrMore isSpace, anyCase "'Space'",
        oneOrMore isSpace, anyCase "to stop autoboot"]),
    anyCase ":", spaces, oneOrMore isDecimal]

def ubootTftpAutorunRe : Pattern :=
  .alt (sequence [anyCase "Filename", oneOrMore isSpace, anyCase "'",
      oneOrMore (fun c => c != '\''), anyCase "'.", spaces])
    (sequence [anyCase "Load address:", spaces, anyCase "0x", oneOrMore isHexDigit])

def bootromVxworksPromptRe : Pattern := anyCase "[VxWorks Boot]:"

def bootromAutostartRe : Pattern := anyCase "auto-booting..."

def loadingRe (letter : Char -> Bool) : Pattern := wholeWord letter "Loading"

def flashSectorBoundaryErrorRe : Pattern :=
  sequence [anyCase "Error:", spaces, anyCase "end address not on sector boundary"]

def flashNotErasedRe : Pattern :=
  sequence [anyCase "Copy to Flash...", spaces, anyCase "Flash not Erased"]

/-!
# Expressions that look at nothing but the match
-/

theorem local_promptRe : Local promptRe := ⟨local_literal _ _, trivial, trivial⟩

theorem local_nvramInvalidRe : Local nvramInvalidRe :=
  ⟨local_literal _ _, trivial, local_literal _ _, trivial⟩

theorem local_nvramPressKeyRe : Local nvramPressKeyRe := local_literal _ _

theorem local_resetMarkerRe : Local resetMarkerRe :=
  ⟨⟨local_literal _ _, trivial, local_literal _ _, trivial, local_literal _ _, trivial⟩,
    local_literal _ _, local_literal _ _⟩

/-!
# The size of a transfer
-/

def behind (text : String) (haystack : Text) : Option Text :=
  (chars text).isPrefixOf? haystack

/-- `TFTP_SIZE_RE` at the start of a text: its group, and the text behind the match. -/
def tftpSizeAt (haystack : Text) : Option (Text × Text) := do
  let number ← behind "Bytes transferred = " haystack
  let digits := number.takeWhile isDecimal
  let open_ ← behind " (" (number.drop digits.length)
  let hex := open_.takeWhile isHexDigit
  let rest ← behind " hex)" (open_.drop hex.length)
  if digits.isEmpty || hex.isEmpty then none else some (hex, rest)

/-- `TFTP_SIZE_RE.findall`, for a text that is no longer than the first argument. -/
def tftpSizesFrom : Nat -> Text -> List Text
  | 0, _ => []
  | fuel + 1, haystack =>
      match tftpSizeAt haystack with
      | some (hex, rest) => hex :: tftpSizesFrom fuel rest
      | none =>
          match haystack with
          | [] => []
          | _ :: rest => tftpSizesFrom fuel rest

/-- `TFTP_SIZE_RE.findall`. -/
def tftpSizes (haystack : Text) : List Text :=
  tftpSizesFrom (haystack.length + 1) haystack

end Console
end Bab750
