import Bab750.Foundation.Bytes
import Mathlib.Data.BitVec

/-!
# Kermit

`k_recv` of `common/cmd_load.c` with the functions `k_data_*`, as far as they go from one
`getc` to the next.
-/

namespace Bab750
namespace Load

open Foundation

def startChar : Byte := 0x01#8

def etxChar : Byte := 0x03#8

def endChar : Byte := 0x0d#8

def kEscape : Byte := 0x23#8

def sendType : Byte := 0x53#8

def dataType : Byte := 0x44#8

def breakType : Byte := 0x42#8

def tochar (x : Nat) : Byte := BitVec.ofNat 8 (x + 0x20)

def untochar (x : Byte) : Nat := (x - 0x20#8).toNat

/-- `(new_char & 0xE0) == 0` -/
def IsControl (c : Byte) : Prop := c &&& 0xe0#8 = 0#8

instance (c : Byte) : Decidable (IsControl c) :=
  inferInstanceAs (Decidable (c &&& 0xe0#8 = 0#8))

def ktrans (c : Byte) : Byte :=
  if c &&& 0x60#8 = 0x40#8 then c &&& 0xbf#8
  else if c &&& 0x7f#8 = 0x3f#8 then c ||| 0x40#8
  else c

/-- `tochar ((sum + ((sum >> 6) & 0x03)) & 0x3f)` -/
def blockCheck (sum : Nat) : Byte := tochar ((sum + ((sum >>> 6) &&& 0x03)) &&& 0x3f)

/-!
# The data
-/

/-- The state of `k_data_*` and `os_data_*`; addresses count from `bin_start_address`.
`os_data_state` is always zero. -/
structure KData where
  memory : Nat -> Byte
  osDataAddr : Nat
  osDataAddrSaved : Nat
  kDataEscape : Bool
  kDataEscapeSaved : Bool

def kDataSave (d : KData) : KData :=
  { d with osDataAddrSaved := d.osDataAddr, kDataEscapeSaved := d.kDataEscape }

def kDataRestore (d : KData) : KData :=
  { d with osDataAddr := d.osDataAddrSaved, kDataEscape := d.kDataEscapeSaved }

/-- `bin_data_char` -/
def osDataChar (d : KData) (c : Byte) : KData :=
  { d with
    memory := fun a => if a = d.osDataAddr then c else d.memory a
    osDataAddr := d.osDataAddr + 1 }

def kDataChar (hisQuote : Byte) (d : KData) (c : Byte) : KData :=
  if d.kDataEscape then { osDataChar d (ktrans c) with kDataEscape := false }
  else if c = hisQuote then { d with kDataEscape := true }
  else osDataChar d c

/-!
# The receiver
-/

/-- What the next `getc` is for. -/
inductive Place where
  | start
  | length
  | sequence
  | type
  | lenHi
  | lenLo
  | headCheck
  | data
  | check
  | finish
  /-- `k_recv` has returned behind the break packet. -/
  | returned (count : Nat)
  /-- `k_recv` has returned for a `^C`. -/
  | interrupted
deriving DecidableEq, Repr

inductive Reply where
  | ack (n : Nat) (fields : List Byte)
  | nack (n : Nat)
deriving DecidableEq, Repr

structure KRecv where
  place : Place
  kState : Byte
  kStateSaved : Byte
  sum : Nat
  length : Int
  n : Nat
  lastN : Int
  lenHi : Nat
  /-- `send_parms` up to `send_ptr` -/
  sendParms : List Byte
  hisQuote : Byte
  data : KData

def KRecv.again (k : KRecv) : KRecv := { k with place := Place.start, sendParms := [] }

def packetError (k : KRecv) : KRecv × Option Reply :=
  ({ k with kState := k.kStateSaved, data := kDataRestore k.data }.again, some (Reply.nack k.n))

def checkSequence (k : KRecv) : KRecv :=
  if (k.n : Int) = k.lastN then { k with kState := k.kStateSaved, data := kDataRestore k.data }
  else { k with lastN := k.n, kStateSaved := k.kState, data := kDataSave k.data }

/-- The loop for the data goes on, or the checksum is next. -/
def restPlace (length : Int) : Place := if 1 < length then Place.data else Place.check

/-- A character of the data; `send_ptr` stays at the last place of the buffer. -/
def takeChar (k : KRecv) (c : Byte) : KRecv :=
  if k.kState = dataType then { k with data := kDataChar k.hisQuote k.data c }
  else if k.kState = sendType then
    { k with
      sendParms := if k.sendParms.length < 19 then k.sendParms ++ [c] else k.sendParms }
  else k

/-- The answer of `handle_send_packet` to so many parameters. -/
def sendFields (bytes : Nat) : List Byte :=
  [tochar 94, tochar 1, tochar 0, 0x40#8, tochar 13, 0x23#8, 0x4e#8, 0x31#8, 0x4e#8].take bytes ++
    if 10 <= bytes then [tochar 2, tochar 0, tochar 94, tochar 94] else []

def parmBytes (sendParms : List Byte) : Nat :=
  if sendParms.length = 19 then 18 else sendParms.length

def parmQuote (sendParms : List Byte) : Byte :=
  if 6 <= parmBytes sendParms then sendParms.getD 5 0#8 else kEscape

def handleSendPacket (k : KRecv) : KRecv × Option Reply :=
  ({ k with hisQuote := parmQuote k.sendParms }.again,
    some (Reply.ack k.n (sendFields (parmBytes k.sendParms))))

/-- `k_recv` between two calls of `getc`. -/
def hear (k : KRecv) (c : Byte) : KRecv × Option Reply :=
  match k.place with
  | Place.start =>
      if c = startChar then ({ k with place := Place.length, sum := 0 }, none)
      else if c = etxChar then ({ k with place := Place.interrupted }, none)
      else (k, none)
  | Place.length =>
      if IsControl c then packetError k
      else
        ({ k with place := Place.sequence, sum := k.sum + c.toNat, length := untochar c }, none)
  | Place.sequence =>
      if IsControl c then packetError k
      else
        (checkSequence
          { k with
            place := Place.type
            sum := k.sum + c.toNat
            n := untochar c
            length := k.length - 1 }, none)
  | Place.type =>
      if IsControl c then packetError k
      else
        ({ k with
          place := if k.length - 1 = -2 then Place.lenHi else restPlace (k.length - 1)
          sum := k.sum + c.toNat
          kState := c
          length := k.length - 1 }, none)
  | Place.lenHi =>
      if IsControl c then packetError k
      else ({ k with place := Place.lenLo, sum := k.sum + c.toNat, lenHi := untochar c }, none)
  | Place.lenLo =>
      if IsControl c then packetError k
      else
        ({ k with
          place := Place.headCheck
          sum := k.sum + c.toNat
          length := k.lenHi * 95 + untochar c }, none)
  | Place.headCheck =>
      if IsControl c then packetError k
      else if c ≠ blockCheck k.sum then packetError k
      else ({ k with place := restPlace k.length, sum := k.sum + c.toNat }, none)
  | Place.data =>
      if IsControl c then packetError k
      else
        (takeChar
          { k with
            place := restPlace (k.length - 1)
            sum := k.sum + c.toNat
            length := k.length - 1 } c, none)
  | Place.check =>
      if IsControl c then packetError k
      else if c ≠ blockCheck k.sum then packetError k
      else ({ k with place := Place.finish }, none)
  | Place.finish =>
      if c ≠ endChar then packetError k
      else if k.kState = sendType then handleSendPacket k
      else if k.kState = breakType then
        ({ k with place := Place.returned k.data.osDataAddr }, some (Reply.ack k.n []))
      else (k.again, some (Reply.ack k.n []))
  | Place.returned _ => (k, none)
  | Place.interrupted => (k, none)

/-- `k_recv` at its first `getc`. -/
def kRecv (memory : Nat -> Byte) : KRecv where
  place := Place.start
  kState := 0#8
  kStateSaved := 0#8
  sum := 0
  length := 0
  n := 0
  lastN := -1
  lenHi := 0
  sendParms := []
  hisQuote := kEscape
  data :=
    { memory := memory
      osDataAddr := 0
      osDataAddrSaved := 0
      kDataEscape := false
      kDataEscapeSaved := false }

/-!
# What the data characters mean
-/

def decodeChar (quote : Byte) (s : Bool × List Byte) (c : Byte) : Bool × List Byte :=
  if s.1 then (false, s.2 ++ [ktrans c])
  else if c = quote then (true, s.2)
  else (false, s.2 ++ [c])

/-- Whether a quote character is pending behind characters, and the bytes they stand for. -/
def decode (quote : Byte) (chars : List Byte) : Bool × List Byte :=
  chars.foldl (decodeChar quote) (false, [])

/-- The characters stand for the bytes of a file, each alone or behind a quote character. -/
inductive Encodes (quote : Byte) : List Byte -> List Byte -> Prop where
  | nil : Encodes quote [] []
  | plain {b : Byte} {file chars : List Byte} (hplain : b ≠ quote)
      (rest : Encodes quote file chars) : Encodes quote (b :: file) (b :: chars)
  | quoted {c : Byte} {file chars : List Byte} (rest : Encodes quote file chars) :
      Encodes quote (ktrans c :: file) (quote :: c :: chars)

theorem decode_snoc (quote : Byte) (chars : List Byte) (c : Byte) :
    decode quote (chars ++ [c]) = decodeChar quote (decode quote chars) c := by
  unfold decode
  rw [List.foldl_append]
  rfl

theorem decode_encodes {quote : Byte} {file chars : List Byte} (h : Encodes quote file chars) :
    decode quote chars = (false, file) := by
  have hfold : forall out : List Byte,
      chars.foldl (decodeChar quote) (false, out) = (false, out ++ file) := by
    induction h with
    | nil =>
        intro out
        rw [List.append_nil]
        rfl
    | @plain b file chars hplain rest ih =>
        intro out
        have hchar := ih (out ++ [b])
        rw [List.append_assoc] at hchar
        rw [List.foldl_cons, decodeChar, if_neg Bool.false_ne_true, if_neg hplain]
        exact hchar
    | @quoted c file chars rest ih =>
        intro out
        have hchar := ih (out ++ [ktrans c])
        rw [List.append_assoc] at hchar
        have hquote : decodeChar quote (false, out) quote = (true, out) := by
          rw [decodeChar, if_neg Bool.false_ne_true, if_pos rfl]
        rw [List.foldl_cons, List.foldl_cons, hquote]
        exact hchar
  exact hfold []

/-- The memory begins with what characters stand for, and the next byte goes behind it. -/
structure Stored (quote : Byte) (chars : List Byte) (d : KData) : Prop where
  escape : d.kDataEscape = (decode quote chars).1
  addr : d.osDataAddr = (decode quote chars).2.length
  memory : forall (i : Nat) (hi : i < (decode quote chars).2.length),
    d.memory i = (decode quote chars).2[i]

theorem Stored.put {quote : Byte} {chars : List Byte} {d : KData} (h : Stored quote chars d)
    {out : List Byte} {b : Byte} (hout : out = (decode quote chars).2) :
    (osDataChar d b).osDataAddr = (out ++ [b]).length ∧
      forall (i : Nat) (hi : i < (out ++ [b]).length),
        (osDataChar d b).memory i = (out ++ [b])[i] := by
  have haddr : d.osDataAddr = out.length := by
    rw [h.addr, hout]
  constructor
  · rw [List.length_append, List.length_singleton, ← haddr]
    rfl
  · intro i hi
    have hmemory := h.memory i
    rw [← hout] at hmemory
    unfold osDataChar
    dsimp only
    rw [haddr]
    by_cases hlast : i = out.length
    · rw [if_pos hlast]
      simp [hlast]
    · have hinside : i < out.length := by
        rw [List.length_append, List.length_singleton] at hi
        omega
      rw [if_neg hlast, List.getElem_append_left hinside]
      exact hmemory hinside

theorem Stored.kDataChar {quote : Byte} {chars : List Byte} {d : KData}
    (h : Stored quote chars d) (c : Byte) :
    Stored quote (chars ++ [c]) (kDataChar quote d c) := by
  have hsnoc := decode_snoc quote chars c
  unfold Load.kDataChar
  rw [h.escape]
  by_cases hescape : (decode quote chars).1 = true
  · rw [decodeChar, if_pos hescape] at hsnoc
    rcases h.put (b := ktrans c) rfl with ⟨haddr, hmemory⟩
    rw [if_pos hescape]
    constructor
    · rw [hsnoc]
    · rw [hsnoc]
      exact haddr
    · rw [hsnoc]
      exact hmemory
  · rw [decodeChar, if_neg hescape] at hsnoc
    rw [if_neg hescape]
    by_cases hquote : c = quote
    · rw [if_pos hquote] at hsnoc
      rw [if_pos hquote]
      constructor
      · rw [hsnoc]
      · rw [hsnoc]
        exact h.addr
      · rw [hsnoc]
        exact h.memory
    · rw [if_neg hquote] at hsnoc
      rcases h.put (b := c) rfl with ⟨haddr, hmemory⟩
      rw [if_neg hquote]
      constructor
      · rw [hsnoc]
        exact h.escape.trans (Bool.eq_false_iff.mpr hescape)
      · rw [hsnoc]
        exact haddr
      · rw [hsnoc]
        exact hmemory

theorem Stored.kDataChars {quote : Byte} (more : List Byte) {chars : List Byte} {d : KData}
    (h : Stored quote chars d) :
    Stored quote (chars ++ more) (more.foldl (Load.kDataChar quote) d) := by
  induction more generalizing chars d with
  | nil =>
      rw [List.append_nil]
      exact h
  | cons c more ih =>
      have hnext := ih (h.kDataChar c)
      rw [List.append_assoc] at hnext
      exact hnext

/-!
# The checkpoint
-/

/-- The checkpoint lies behind what characters stand for, and nothing in front of it is
written. -/
structure Saved (quote : Byte) (chars : List Byte) (d : KData) : Prop where
  restored : Stored quote chars (kDataRestore d)
  ahead : d.osDataAddrSaved <= d.osDataAddr

theorem Stored.kDataSave {quote : Byte} {chars : List Byte} {d : KData}
    (h : Stored quote chars d) : Saved quote chars (kDataSave d) :=
  ⟨⟨h.escape, h.addr, h.memory⟩, Nat.le_refl _⟩

theorem Saved.kDataRestore {quote : Byte} {chars : List Byte} {d : KData}
    (h : Saved quote chars d) : Saved quote chars (kDataRestore d) :=
  ⟨⟨h.restored.escape, h.restored.addr, h.restored.memory⟩, Nat.le_refl _⟩

theorem Saved.osDataChar {quote : Byte} {chars : List Byte} {d : KData}
    (h : Saved quote chars d) (c : Byte) : Saved quote chars (osDataChar d c) := by
  constructor
  · constructor
    · exact h.restored.escape
    · exact h.restored.addr
    · intro i hi
      have hbelow : i < d.osDataAddrSaved := by
        rw [← h.restored.addr] at hi
        exact hi
      have hother : ¬ i = d.osDataAddr := Nat.ne_of_lt (Nat.lt_of_lt_of_le hbelow h.ahead)
      rw [← h.restored.memory i hi]
      exact if_neg hother
  · exact Nat.le_succ_of_le h.ahead

/-- The data of a packet does not touch the checkpoint, whatever the quote character is. -/
theorem Saved.kDataChar {quote : Byte} {chars : List Byte} {d : KData}
    (h : Saved quote chars d) (other c : Byte) : Saved quote chars (kDataChar other d c) := by
  unfold Load.kDataChar
  split
  · rcases h.osDataChar (ktrans c) with ⟨hrestored, hahead⟩
    exact ⟨⟨hrestored.escape, hrestored.addr, hrestored.memory⟩, hahead⟩
  · split
    · exact ⟨⟨h.restored.escape, h.restored.addr, h.restored.memory⟩, h.ahead⟩
    · exact h.osDataChar c

end Load
end Bab750
