import Bab750.Support.Strtoul

/-!
# Formatted output

`vsprintf` of `lib/vsprintf.c`. `int`, `long`, `size_t`, and pointers have 32 bits. An argument
that is missing or of another kind has no result, and neither has a text without its end.
-/

namespace Bab750
namespace Support

open Foundation

def simpleStrtol (text : List Byte) (base : Nat) : BitVec 32 × List Byte :=
  match text with
  | 0x2d#8 :: rest => (- (simpleStrtoul rest base).1, (simpleStrtoul rest base).2)
  | text => simpleStrtoul text base

/-!
# Decimal digits
-/

/-- `'0'` and a digit. -/
def decimalDigit (d : Nat) : Byte := BitVec.ofNat 8 (d + 0x30)

def putDecTrunc (q : Nat) : List Byte :=
  let d1 := (q >>> 4) &&& 0xf
  let d2 := (q >>> 8) &&& 0xf
  let d3 := q >>> 12
  let d0 := 6 * (d3 + d2 + d1) + (q &&& 0xf)
  let q := (d0 * 0xcd) >>> 11
  let d0 := d0 - 10 * q
  let d1 := q + 9 * d3 + 5 * d2 + d1
  decimalDigit d0 ::
    if d1 = 0 then []
    else
      let q := (d1 * 0xcd) >>> 11
      let d1 := d1 - 10 * q
      let d2 := q + 2 * d2
      decimalDigit d1 ::
        if d2 = 0 ∧ d3 = 0 then []
        else
          let q := (d2 * 0xd) >>> 7
          let d2 := d2 - 10 * q
          let d3 := q + 4 * d3
          decimalDigit d2 ::
            if d3 = 0 then []
            else
              let q := (d3 * 0xcd) >>> 11
              let d3 := d3 - 10 * q
              decimalDigit d3 :: if q = 0 then [] else [decimalDigit q]

def putDecFull (q : Nat) : List Byte :=
  let d1 := (q >>> 4) &&& 0xf
  let d2 := (q >>> 8) &&& 0xf
  let d3 := q >>> 12
  let d0 := 6 * (d3 + d2 + d1) + (q &&& 0xf)
  let q := (d0 * 0xcd) >>> 11
  let d0 := d0 - 10 * q
  let d1 := q + 9 * d3 + 5 * d2 + d1
  let q := (d1 * 0xcd) >>> 11
  let d1 := d1 - 10 * q
  let d2 := q + 2 * d2
  let q := (d2 * 0xd) >>> 7
  let d2 := d2 - 10 * q
  let d3 := q + 4 * d3
  let q := (d3 * 0xcd) >>> 11
  let d3 := d3 - 10 * q
  [decimalDigit d0, decimalDigit d1, decimalDigit d2, decimalDigit d3, decimalDigit q]

def putDec (num : Nat) : List Byte :=
  if num < 100000 then putDecTrunc num
  else putDecFull (num % 100000) ++ putDec (num / 100000)
termination_by num
decreasing_by omega

/-!
# Numbers
-/

/-- The bits of `type`. -/
structure Flags where
  zeropad : Bool
  sign : Bool
  plus : Bool
  space : Bool
  left : Bool
  small : Bool
  special : Bool
deriving DecidableEq

def Flags.none : Flags := ⟨false, false, false, false, false, false, false⟩

def digits : List Byte := ascii "0123456789ABCDEF"

def Flags.locase (type : Flags) : Byte := if type.small then 0x20#8 else 0#8

/-- The loop of `number` for a base of 8 or 16; a number of 64 bits takes less turns than that. -/
def shiftDigits (mask : Byte) (shift : Nat) (locase : Byte) : Nat -> BitVec 64 -> List Byte
  | 0, _ => []
  | fuel + 1, num =>
      (digits.getD (num.setWidth 8 &&& mask).toNat 0#8 ||| locase) ::
        if num >>> shift = 0#64 then [] else shiftDigits mask shift locase fuel (num >>> shift)

def signOf (num : BitVec 64) (type : Flags) : Option Byte :=
  if type.sign then
    if num.slt 0#64 then some 0x2d#8
    else if type.plus then some 0x2b#8
    else if type.space then some 0x20#8
    else none
  else none

def magnitude (num : BitVec 64) (type : Flags) : BitVec 64 :=
  if type.sign ∧ num.slt 0#64 then - num else num

/-- `tmp`, the digits of a number, the last one first. -/
def reversedDigits (num : BitVec 64) (base : Nat) (type : Flags) : List Byte :=
  if num = 0#64 then [0x30#8]
  else if base ≠ 10 then
    shiftDigits (BitVec.ofNat 8 (base - 1)) (if base = 16 then 4 else 3) type.locase 64 num
  else putDec num.toNat

def Flags.needPfx (type : Flags) (base : Nat) : Bool := type.special && base != 10

def pfxOf (base : Nat) (type : Flags) : List Byte :=
  if type.needPfx base then
    0x30#8 :: (if base = 16 then [0x58#8 ||| type.locase] else [])
  else []

/-- `while (--size >= 0) *buf++ = c;` -/
def padding (c : Byte) (size : Int) : List Byte × Int :=
  (List.replicate size.toNat c, if 0 ≤ size then -1 else size - 1)

def number (num : BitVec 64) (base : Nat) (size precision : Int) (type : Flags) : List Byte :=
  let zeropad := type.zeropad && ! type.left
  let sign := (signOf num type).toList
  let pfx := pfxOf base type
  let tmp := reversedDigits (magnitude num type) base type
  let precision := if precision < tmp.length then (tmp.length : Int) else precision
  let size := size - sign.length - pfx.length - precision
  let leading := if zeropad || type.left then ([], size) else padding 0x20#8 size
  let inner := if type.left then ([], leading.2)
    else padding (if zeropad then 0x30#8 else 0x20#8) leading.2
  leading.1 ++ sign ++ pfx ++ inner.1 ++
    List.replicate (precision - tmp.length).toNat 0x30#8 ++ tmp.reverse ++
    (padding 0x20#8 inner.2).1

/-!
# Texts and addresses
-/

/-- `strnlen`, for a text that is known up to its end or as far as the count goes. -/
def strnlen (s : List Byte) (count : Int) : Option Nat :=
  let front := if count < 0 then s else s.take count.toNat
  if 0#8 ∈ front ∨ 0 ≤ count ∧ count ≤ s.length then
    some (front.takeWhile (fun c => c ≠ 0#8)).length
  else none

def string (s : List Byte) (fieldWidth precision : Int) (flags : Flags) : Option (List Byte) := do
  let len ← strnlen s precision
  let space := List.replicate (fieldWidth - len).toNat 0x20#8
  some (if flags.left then s.take len ++ space else space ++ s.take len)

def hexAsc : List Byte := ascii "0123456789abcdef"

def packHexByte (byte : Byte) : List Byte :=
  [hexAsc.getD (byte >>> 4).toNat 0#8, hexAsc.getD (byte &&& 0xf#8).toNat 0#8]

def separated (separator : Option Byte) : List (List Byte) -> List Byte
  | [] => []
  | [part] => part
  | part :: parts => part ++ separator.toList ++ separated separator parts

def macAddressString (addr : List Byte) (fieldWidth precision : Int) (flags : Flags) :
    Option (List Byte) :=
  if addr.length < 6 then none
  else
    string (separated (if flags.special then none else some 0x3a#8)
      ((addr.take 6).map packHexByte) ++ [0#8]) fieldWidth precision
      { flags with special := false }

def pairs : List Byte -> List (List Byte)
  | first :: second :: rest => [first, second] :: pairs rest
  | _ => []

def ip6AddrString (addr : List Byte) (fieldWidth precision : Int) (flags : Flags) :
    Option (List Byte) :=
  if addr.length < 16 then none
  else
    string (separated (if flags.special then none else some 0x3a#8)
      ((pairs (addr.take 16)).map (fun pair => pair.flatMap packHexByte)) ++ [0#8])
      fieldWidth precision { flags with special := false }

def ip4AddrString (addr : List Byte) (fieldWidth precision : Int) (flags : Flags) :
    Option (List Byte) :=
  if addr.length < 4 then none
  else
    string (separated (some 0x2e#8)
      ((addr.take 4).map (fun quad => (putDecTrunc quad.toNat).reverse)) ++ [0#8])
      fieldWidth precision { flags with special := false }

/-- `pointer`, for the characters behind `%p`, an address, and the bytes there. -/
def pointer (fmt : List Byte) (ptr : BitVec 32) (target : List Byte)
    (fieldWidth precision : Int) (flags : Flags) : Option (List Byte) :=
  let plain := fun (flags : Flags) =>
    let wide : Int × Flags :=
      if fieldWidth = -1 then (8, { flags with zeropad := true, small := true })
      else (fieldWidth, { flags with small := true })
    some (number (ptr.setWidth 64) 16 wide.1 precision wide.2)
  let second := fmt.tail.head?
  if ptr = 0#32 then string (ascii "(null)" ++ [0#8]) fieldWidth precision flags
  else if fmt.head? = some 0x6d#8 then
    macAddressString target fieldWidth precision { flags with special := true }
  else if fmt.head? = some 0x4d#8 then macAddressString target fieldWidth precision flags
  else if fmt.head? = some 0x69#8 ∨ fmt.head? = some 0x49#8 then
    let flags := { flags with special := flags.special || fmt.head? = some 0x69#8 }
    if second = some 0x36#8 then ip6AddrString target fieldWidth precision flags
    else if second = some 0x34#8 then ip4AddrString target fieldWidth precision flags
    else plain { flags with special := false }
  else plain flags

/-!
# Formats
-/

/-- What `va_arg` takes: a word, a double word, or an address with the bytes that are there. -/
inductive Arg where
  | word (w : BitVec 32)
  | quad (q : BitVec 64)
  | pointer (p : BitVec 32) (target : List Byte)

structure Printed where
  text : List Byte
  counts : List (BitVec 32 × Nat)

def Printed.put (out : Printed) (text : List Byte) : Printed :=
  { out with text := out.text ++ text }

def skipAtoi (i : Nat) : List Byte -> Nat × List Byte
  | [] => (i, [])
  | c :: s => if isDigit c then skipAtoi (i * 10 + (c.toNat - 0x30)) s else (i, c :: s)

def formatFlags (flags : Flags) : List Byte -> Flags × List Byte
  | [] => (flags, [])
  | c :: fmt =>
      if c = 0x2d#8 then formatFlags { flags with left := true } fmt
      else if c = 0x2b#8 then formatFlags { flags with plus := true } fmt
      else if c = 0x20#8 then formatFlags { flags with space := true } fmt
      else if c = 0x23#8 then formatFlags { flags with special := true } fmt
      else if c = 0x30#8 then formatFlags { flags with zeropad := true } fmt
      else (flags, c :: fmt)

/-- A number in the format, or the next argument in place of a star. -/
def formatNumber (fmt : List Byte) (args : List Arg) :
    Option (Option Int × List Byte × List Arg) :=
  match fmt with
  | [] => some (none, [], args)
  | c :: rest =>
      if isDigit c then
        let parsed := skipAtoi 0 (c :: rest)
        some (some parsed.1, parsed.2, args)
      else if c = 0x2a#8 then
        match args with
        | .word w :: args => some (some w.toInt, rest, args)
        | _ => none
      else some (none, c :: rest, args)

def formatPrecision (fmt : List Byte) (args : List Arg) :
    Option (Int × List Byte × List Arg) :=
  match fmt with
  | 0x2e#8 :: fmt => do
      let (precision, fmt, args) ← formatNumber fmt args
      some (max (precision.getD (-1)) 0, fmt, args)
  | fmt => some (-1, fmt, args)

def formatQualifier : List Byte -> Option Byte × List Byte
  | [] => (none, [])
  | c :: fmt =>
      if c ∈ ascii "hlLZzt" then
        if c = 0x6c#8 ∧ fmt.head? = some 0x6c#8 then (some 0x4c#8, fmt.tail) else (some c, fmt)
      else (none, c :: fmt)

def integerArg (qualifier : Option Byte) (sign : Bool) :
    List Arg -> Option (BitVec 64 × List Arg)
  | .quad q :: args => if qualifier = some 0x4c#8 then some (q, args) else none
  | .word w :: args =>
      if qualifier = some 0x4c#8 then none
      else if qualifier = some 0x5a#8 ∨ qualifier = some 0x7a#8 then some (w.setWidth 64, args)
      else if qualifier = some 0x74#8 then some (w.signExtend 64, args)
      else if qualifier = some 0x68#8 then
        let half := w.setWidth 16
        some (if sign then half.signExtend 64 else half.setWidth 64, args)
      else some (if sign then w.signExtend 64 else w.setWidth 64, args)
  | _ => none

/-- `isalnum`; the table of `lib/ctype.c` has the letters of Latin-1. -/
def isAlnum (c : Byte) : Bool :=
  isDigit c || (0x41 ≤ c.toNat && c.toNat ≤ 0x5a) || (0x61 ≤ c.toNat && c.toNat ≤ 0x7a) ||
    (0xc0 ≤ c.toNat && c != 0xd7#8 && c != 0xf7#8)

def conversion (c : Byte) (fmt : List Byte) (args : List Arg) (out : Printed)
    (flags : Flags) (fieldWidth precision : Int) (qualifier : Option Byte) :
    Option (List Byte × List Arg × Printed) :=
  let integer := fun (base : Nat) (flags : Flags) => do
    let (num, args) ← integerArg qualifier flags.sign args
    some (fmt, args, out.put (number num base fieldWidth precision flags))
  if c = 0x63#8 then
    match args with
    | .word w :: args =>
        let space := List.replicate (fieldWidth - 1).toNat 0x20#8
        some (fmt, args, out.put
          (if flags.left then w.setWidth 8 :: space else space ++ [w.setWidth 8]))
    | _ => none
  else if c = 0x73#8 then
    match args with
    | .pointer p target :: args => do
        let s := if p = 0#32 then ascii "<NULL>" ++ [0#8] else target
        let text ← string s fieldWidth precision flags
        some (fmt, args, out.put text)
    | _ => none
  else if c = 0x70#8 then
    match args with
    | .pointer p target :: args => do
        let text ← pointer fmt p target fieldWidth precision flags
        some (fmt.dropWhile isAlnum, args, out.put text)
    | _ => none
  else if c = 0x6e#8 then
    match args with
    | .pointer p _ :: args =>
        some (fmt, args, { out with counts := out.counts ++ [(p, out.text.length)] })
    | _ => none
  else if c = 0x25#8 then some (fmt, args, out.put [0x25#8])
  else if c = 0x6f#8 then integer 8 flags
  else if c = 0x78#8 then integer 16 { flags with small := true }
  else if c = 0x58#8 then integer 16 flags
  else if c = 0x64#8 ∨ c = 0x69#8 then integer 10 { flags with sign := true }
  else if c = 0x75#8 then integer 10 flags
  else some (fmt, args, out.put [0x25#8, c])

def directive (fmt : List Byte) (args : List Arg) (out : Printed) :
    Option (List Byte × List Arg × Printed) := do
  let (flags, fmt) := formatFlags .none fmt
  let (width, fmt, args) ← formatNumber fmt args
  let fieldWidth := width.getD (-1)
  let negative := width.isSome && fieldWidth < 0
  let flags := if negative then { flags with left := true } else flags
  let fieldWidth := if negative then - fieldWidth else fieldWidth
  let (precision, fmt, args) ← formatPrecision fmt args
  let (qualifier, fmt) := formatQualifier fmt
  match fmt with
  | [] => some ([], args, out.put [0x25#8])
  | c :: fmt => conversion c fmt args out flags fieldWidth precision qualifier

/-- The loop of `vsprintf`. -/
def formatLoop : Nat -> List Byte -> List Arg -> Printed -> Option Printed
  | 0, _, _, _ => none
  | _ + 1, [], _, out => some out
  | fuel + 1, c :: fmt, args, out =>
      if c ≠ 0x25#8 then formatLoop fuel fmt args (out.put [c])
      else do
        let (fmt, args, out) ← directive fmt args out
        formatLoop fuel fmt args out

def vsprintf (fmt : List Byte) (args : List Arg) : Option Printed :=
  formatLoop (fmt.length + 1) fmt args ⟨[], []⟩

example : (vsprintf (ascii "%#08x|%-5d|%pM") [.word 0xab#32, .word (-7#32),
    .pointer 1#32 [0#8, 0x11#8, 0x22#8, 0xaa#8, 0xbb#8, 0xcc#8]]).map Printed.text =
      some (ascii "0x0000ab|-7   |00:11:22:aa:bb:cc") := by
  decide +kernel

end Support
end Bab750
