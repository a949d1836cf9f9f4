import Bab750.Foundation.HexText
import Bab750.Foundation.Memory
import Bab750.Foundation.Words

/-!
# S-records

`srec_decode` of `common/s_record.c`, and `save_serial` of `common/cmd_load.c`.
-/

namespace Bab750
namespace Load

open Foundation

/-- The types of `s_record.h` without an error. -/
inductive RecordType where
  | start
  | data2
  | data3
  | data4
  | count
  | end4
  | end3
  | end2
deriving DecidableEq

/-- What `srec_decode` returns, with what it stores. -/
inductive Decoded where
  | record (type : RecordType) (count : Int) (addr : BitVec 32) (data : List Byte)
  /-- `SREC_EMPTY` -/
  | empty
  /-- `SREC_E_BADTYPE` -/
  | badType
  /-- `SREC_E_NOSREC` -/
  | noSrec
  /-- `SREC_E_BADCHKS` -/
  | badChks
deriving DecidableEq

def hex1Bin (c : Byte) : Option Byte :=
  if 0x30#8 <= c ∧ c <= 0x39#8 then some (c - 0x30#8)
  else if 0x61#8 <= c ∧ c <= 0x66#8 then some (c + 10#8 - 0x61#8)
  else if 0x41#8 <= c ∧ c <= 0x46#8 then some (c + 10#8 - 0x41#8)
  else none

def hex2Bin : List Byte -> Option (Byte × List Byte)
  | high :: low :: rest =>
      match hex1Bin high, hex1Bin low with
      | some i, some j => some (i <<< (4 : Nat) + j, rest)
      | _, _ => none
  | _ => none

def skipToRecord : List Byte -> List Byte
  | [] => []
  | c :: rest => if c = 0x53#8 then rest else skipToRecord rest

def recordType (v : Byte) : Option RecordType :=
  if v = 0x30#8 then some .start
  else if v = 0x31#8 then some .data2
  else if v = 0x32#8 then some .data3
  else if v = 0x33#8 then some .data4
  else if v = 0x35#8 then some .count
  else if v = 0x37#8 then some .end4
  else if v = 0x38#8 then some .end3
  else if v = 0x39#8 then some .end2
  else none

def RecordType.addrSize : RecordType -> Nat
  | .data4 => 4
  | .end4 => 4
  | .data3 => 3
  | .end3 => 3
  | _ => 2

/-- `*count`, an `int`. -/
def RecordType.dataCount (type : RecordType) (length : Byte) : Int :=
  match type with
  | .count => 0
  | .start => length.toNat - 3
  | .data2 => length.toNat - 3
  | .end2 => length.toNat - 3
  | .data3 => length.toNat - 4
  | .end3 => length.toNat - 4
  | .data4 => length.toNat - 5
  | .end4 => length.toNat - 5

/-- `*addr <<= 8; *addr += v;` -/
def addressStep (addr : BitVec 32) (v : Byte) : BitVec 32 :=
  addr <<< (8 : Nat) + v.setWidth 32

/-- The cases of the address field that fall through one into the other. -/
def readAddress : Nat -> BitVec 32 -> Byte -> List Byte ->
    Option (BitVec 32 × Byte × List Byte)
  | 0, addr, chksum, input => some (addr, chksum, input)
  | n + 1, addr, chksum, input =>
      match hex2Bin input with
      | none => none
      | some (v, input) =>
          readAddress n (addressStep addr v) (chksum + v) input

def readData : Nat -> Byte -> List Byte -> Option (List Byte × Byte × List Byte)
  | 0, chksum, input => some ([], chksum, input)
  | n + 1, chksum, input =>
      match hex2Bin input with
      | none => none
      | some (v, input) =>
          match readData n (chksum + v) input with
          | none => none
          | some (data, chksum, input) => some (v :: data, chksum, input)

def srecDecode (input : List Byte) : Decoded :=
  match skipToRecord input with
  | [] => .empty
  | v :: input =>
      match hex2Bin input with
      | none => .noSrec
      | some (length, input) =>
          match recordType v with
          | none => .badType
          | some type =>
              match readAddress type.addrSize 0#32 length input with
              | none => .noSrec
              | some (addr, chksum, input) =>
                  -- `i < *count` never holds when the count is negative
                  match readData (type.dataCount length).toNat chksum input with
                  | none => .noSrec
                  | some (data, chksum, input) =>
                      match hex2Bin input with
                      | none => .noSrec
                      | some (v, _) =>
                          if v = ~~~chksum then
                            .record type (type.dataCount length) addr data
                          else .badChks

/-!
# The format
-/

structure Record where
  type : RecordType
  length : Byte
  address : List Byte
  data : List Byte
  check : Byte

def RecordType.digit : RecordType -> Byte
  | .start => 0x30#8
  | .data2 => 0x31#8
  | .data3 => 0x32#8
  | .data4 => 0x33#8
  | .count => 0x35#8
  | .end4 => 0x37#8
  | .end3 => 0x38#8
  | .end2 => 0x39#8

def Record.bytes (r : Record) : List Byte := r.length :: (r.address ++ r.data ++ [r.check])

def Record.In (r : Record) (line : List Byte) : Prop :=
  exists front text rest, line = front ++ 0x53#8 :: r.type.digit :: (text ++ rest) ∧
    0x53#8 ∉ front ∧ HexText text r.bytes

def Record.Checked (r : Record) : Prop :=
  r.check = ~~~(r.length + r.address.sum + r.data.sum)

structure Record.WellFormed (r : Record) : Prop where
  address : r.address.length = r.type.addrSize
  length : r.length.toNat = r.type.addrSize + r.data.length + 1
  checked : r.Checked

def addressValue (address : List Byte) : BitVec 32 :=
  address.foldl addressStep 0#32

/-- The decoder takes the well-formed records, and returns what they hold. -/
def Decodes (line : List Byte) : Prop :=
  forall type count addr data, srecDecode line = .record type count addr data <->
    exists r : Record, r.In line ∧ r.WellFormed ∧ r.type = type ∧
      count = r.data.length ∧ r.data.length <= 252 ∧ addr = addressValue r.address ∧
      data = r.data

/-- The length is too small for the address and the checksum, or a count record has another
length than three; the byte behind the address is the checksum all the same. -/
def ShortRecord (line : List Byte) : Prop :=
  exists r : Record, r.In line ∧ r.address.length = r.type.addrSize ∧ r.data = [] ∧
    r.Checked ∧ (r.length.toNat <= r.type.addrSize ∨ r.type = .count ∧ r.length.toNat ≠ 3)

def CountWithData (line : List Byte) : Prop :=
  exists r : Record, r.In line ∧ r.WellFormed ∧ r.type = .count ∧ r.data ≠ []

/-!
# The decoder and the format
-/

theorem hex1Bin_eq_some_iff {c d : Byte} : hex1Bin c = some d <-> HexDigit c d := by
  constructor
  · intro h
    have hall : forall c : Byte, (hex1Bin c).all (fun d => decide (HexDigit c d)) = true := by
      decide
    have hc := hall c
    rw [h] at hc
    exact of_decide_eq_true hc
  · rintro ⟨hd, hc⟩
    have hall : forall d : Byte, d < 16#8 ->
        hex1Bin (lowerDigit d) = some d ∧ hex1Bin (upperDigit d) = some d := by
      decide
    rcases hc with rfl | rfl
    · exact (hall d hd).left
    · exact (hall d hd).right

theorem hex2Bin_eq_some_iff {input rest : List Byte} {v : Byte} :
    hex2Bin input = some (v, rest) <->
      exists high low i j, HexDigit high i ∧ HexDigit low j ∧ v = i <<< (4 : Nat) + j ∧
        input = high :: low :: rest := by
  constructor
  · intro h
    cases input with
    | nil =>
        cases h
    | cons high input =>
        cases input with
        | nil =>
            cases h
        | cons low input =>
            simp only [hex2Bin] at h
            cases hi : hex1Bin high with
            | none =>
                rw [hi] at h
                cases h
            | some i =>
                cases hj : hex1Bin low with
                | none =>
                    rw [hi, hj] at h
                    cases h
                | some j =>
                    rw [hi, hj] at h
                    cases h
                    exact ⟨high, low, i, j, hex1Bin_eq_some_iff.mp hi,
                      hex1Bin_eq_some_iff.mp hj, rfl, rfl⟩
  · rintro ⟨high, low, i, j, hi, hj, rfl, rfl⟩
    simp only [hex2Bin]
    rw [hex1Bin_eq_some_iff.mpr hi, hex1Bin_eq_some_iff.mpr hj]

def readBytes : Nat -> List Byte -> Option (List Byte × List Byte)
  | 0, input => some ([], input)
  | n + 1, input =>
      match hex2Bin input with
      | none => none
      | some (v, input) =>
          match readBytes n input with
          | none => none
          | some (bytes, input) => some (v :: bytes, input)

theorem readBytes_succ {n : Nat} {input bytes rest : List Byte} :
    readBytes (n + 1) input = some (bytes, rest) <->
      exists v others middle, hex2Bin input = some (v, middle) ∧
        readBytes n middle = some (others, rest) ∧ bytes = v :: others := by
  constructor
  · intro h
    simp only [readBytes] at h
    cases hv : hex2Bin input with
    | none =>
        rw [hv] at h
        cases h
    | some first =>
        rw [hv] at h
        simp only at h
        cases hothers : readBytes n first.2 with
        | none =>
            rw [hothers] at h
            cases h
        | some others =>
            rw [hothers] at h
            cases h
            exact ⟨first.1, others.1, first.2, rfl, hothers, rfl⟩
  · rintro ⟨v, others, middle, hv, hothers, rfl⟩
    simp only [readBytes]
    rw [hv]
    simp only
    rw [hothers]

theorem readBytes_iff {n : Nat} {input bytes rest : List Byte} :
    readBytes n input = some (bytes, rest) <->
      bytes.length = n ∧ exists text, input = text ++ rest ∧ HexText text bytes := by
  induction n generalizing input bytes with
  | zero =>
      constructor
      · intro h
        cases h
        exact ⟨rfl, [], rfl, .nil⟩
      · rintro ⟨hlength, text, rfl, htext⟩
        cases List.length_eq_zero_iff.mp hlength
        cases htext
        rfl
  | succ n ih =>
      rw [readBytes_succ]
      constructor
      · rintro ⟨v, others, middle, hv, hothers, rfl⟩
        rcases hex2Bin_eq_some_iff.mp hv with ⟨high, low, i, j, hi, hj, rfl, rfl⟩
        rcases ih.mp hothers with ⟨hlength, text, rfl, htext⟩
        exact ⟨congrArg Nat.succ hlength, high :: low :: text, rfl, .cons hi hj htext⟩
      · rintro ⟨hlength, text, rfl, htext⟩
        cases htext with
        | nil =>
            cases hlength
        | @cons high low i j text others hi hj htext =>
            have hothers := ih.mpr ⟨Nat.succ.inj hlength, text, rfl, htext⟩
            exact ⟨_, others, text ++ rest,
              hex2Bin_eq_some_iff.mpr ⟨high, low, i, j, hi, hj, rfl, rfl⟩, hothers, rfl⟩

theorem readBytes_add {m n : Nat} {input first second rest : List Byte}
    (hfirst : first.length = m) :
    readBytes (m + n) input = some (first ++ second, rest) <->
      exists middle, readBytes m input = some (first, middle) ∧
        readBytes n middle = some (second, rest) := by
  subst hfirst
  induction first generalizing input with
  | nil =>
      constructor
      · intro h
        rw [List.length_nil, Nat.zero_add] at h
        exact ⟨input, rfl, h⟩
      · rintro ⟨middle, hfirst, hsecond⟩
        cases hfirst
        rw [List.length_nil, Nat.zero_add]
        exact hsecond
  | cons v first ih =>
      rw [List.length_cons, Nat.add_right_comm, readBytes_succ]
      constructor
      · rintro ⟨_, _, middle, hv, hothers, heq⟩
        cases heq
        rcases ih.mp hothers with ⟨later, hfirst, hsecond⟩
        exact ⟨later, readBytes_succ.mpr ⟨v, first, middle, hv, hfirst, rfl⟩, hsecond⟩
      · rintro ⟨later, hfirst, hsecond⟩
        rcases readBytes_succ.mp hfirst with ⟨_, _, middle, hv, hothers, heq⟩
        cases heq
        exact ⟨v, first ++ second, middle, hv, ih.mpr ⟨later, hothers, hsecond⟩, rfl⟩

theorem readAddress_eq (n : Nat) (addr : BitVec 32) (chksum : Byte) (input : List Byte) :
    readAddress n addr chksum input = (readBytes n input).map (fun read =>
      (read.1.foldl addressStep addr, chksum + read.1.sum, read.2)) := by
  induction n generalizing addr chksum input with
  | zero =>
      simp [readAddress, readBytes]
  | succ n ih =>
      simp only [readAddress, readBytes]
      cases hex2Bin input with
      | none =>
          rfl
      | some first =>
          simp only [ih]
          cases readBytes n first.2 with
          | none =>
              rfl
          | some others =>
              simp [BitVec.add_assoc]

theorem readData_eq (n : Nat) (chksum : Byte) (input : List Byte) :
    readData n chksum input = (readBytes n input).map (fun read =>
      (read.1, chksum + read.1.sum, read.2)) := by
  induction n generalizing chksum input with
  | zero =>
      simp [readData, readBytes]
  | succ n ih =>
      simp only [readData, readBytes]
      cases hex2Bin input with
      | none =>
          rfl
      | some first =>
          simp only [ih]
          cases readBytes n first.2 with
          | none =>
              rfl
          | some others =>
              simp [BitVec.add_assoc]

theorem skipToRecord_iff {line input : List Byte} {v : Byte} :
    skipToRecord line = v :: input <->
      exists front, line = front ++ 0x53#8 :: v :: input ∧ 0x53#8 ∉ front := by
  induction line with
  | nil =>
      constructor
      · intro h
        cases h
      · rintro ⟨front, hline, _⟩
        exact absurd hline.symm (by simp)
  | cons c line ih =>
      by_cases hc : c = 0x53#8
      · rw [skipToRecord, if_pos hc]
        constructor
        · rintro rfl
          exact ⟨[], by rw [hc]; rfl, List.not_mem_nil⟩
        · rintro ⟨front, hline, hfront⟩
          cases front with
          | nil =>
              exact (List.cons.inj hline).right
          | cons d front =>
              cases (List.cons.inj hline).left
              exact absurd (List.mem_cons.mpr (Or.inl hc.symm)) hfront
      · rw [skipToRecord, if_neg hc, ih]
        constructor
        · rintro ⟨front, rfl, hfront⟩
          refine ⟨c :: front, rfl, ?_⟩
          intro hmem
          cases List.mem_cons.mp hmem with
          | inl hsame =>
              exact hc hsame.symm
          | inr hmem =>
              exact hfront hmem
        · rintro ⟨front, hline, hfront⟩
          cases front with
          | nil =>
              exact absurd (List.cons.inj hline).left hc
          | cons d front =>
              cases hline
              exact ⟨front, rfl, fun hmem => hfront (List.mem_cons_of_mem _ hmem)⟩

theorem recordType_iff {v : Byte} {type : RecordType} :
    recordType v = some type <-> v = type.digit := by
  constructor
  · intro h
    revert v
    cases type <;> decide
  · rintro rfl
    cases type <;> rfl

theorem Record.in_iff {r : Record} {line : List Byte} :
    r.In line <-> exists input start middle later rest,
      skipToRecord line = r.type.digit :: input ∧ hex2Bin input = some (r.length, start) ∧
        readBytes r.address.length start = some (r.address, middle) ∧
        readBytes r.data.length middle = some (r.data, later) ∧
        hex2Bin later = some (r.check, rest) := by
  have hin : r.In line <-> exists input rest, skipToRecord line = r.type.digit :: input ∧
      readBytes (r.address.length + (r.data.length + 1) + 1) input =
        some (r.length :: (r.address ++ (r.data ++ [r.check])), rest) := by
    constructor
    · rintro ⟨front, text, rest, hline, hfront, htext⟩
      refine ⟨text ++ rest, rest, skipToRecord_iff.mpr ⟨front, hline, hfront⟩,
        readBytes_iff.mpr ⟨by simp, text, rfl, ?_⟩⟩
      rw [← List.append_assoc]
      exact htext
    · rintro ⟨input, rest, hskip, hread⟩
      rcases skipToRecord_iff.mp hskip with ⟨front, hline, hfront⟩
      rcases readBytes_iff.mp hread with ⟨_, text, rfl, htext⟩
      rw [← List.append_assoc] at htext
      exact ⟨front, text, rest, hline, hfront, htext⟩
  rw [hin]
  constructor
  · rintro ⟨input, rest, hskip, hread⟩
    rcases readBytes_succ.mp hread with ⟨_, _, start, hlength, hothers, heq⟩
    cases heq
    rcases (readBytes_add rfl).mp hothers with ⟨middle, haddress, hothers⟩
    rcases (readBytes_add rfl).mp hothers with ⟨later, hdata, hcheck⟩
    rcases readBytes_succ.mp hcheck with ⟨_, _, _, hcheck, _, heq⟩
    cases heq
    exact ⟨input, start, middle, later, _, hskip, hlength, haddress, hdata, hcheck⟩
  · rintro ⟨input, start, middle, later, rest, hskip, hlength, haddress, hdata, hcheck⟩
    have hlast : readBytes 1 later = some ([r.check], rest) :=
      readBytes_succ.mpr ⟨r.check, [], rest, hcheck, rfl, rfl⟩
    have hothers := (readBytes_add rfl).mpr ⟨middle, haddress,
      (readBytes_add rfl).mpr ⟨later, hdata, hlast⟩⟩
    exact ⟨input, rest, hskip, readBytes_succ.mpr ⟨_, _, start, hlength, hothers, rfl⟩⟩

/-- The record that the decoder takes: it counts the data from the length. -/
structure Record.Taken (r : Record) (line : List Byte) : Prop where
  inside : r.In line
  address : r.address.length = r.type.addrSize
  data : r.data.length = (r.type.dataCount r.length).toNat
  checked : r.Checked

theorem Record.Taken.decode {r : Record} {line : List Byte} (h : r.Taken line) :
    srecDecode line =
      .record r.type (r.type.dataCount r.length) (addressValue r.address) r.data := by
  rcases Record.in_iff.mp h.inside with
    ⟨input, start, middle, later, rest, hskip, hlength, haddress, hdata, hcheck⟩
  rw [h.address] at haddress
  rw [h.data] at hdata
  have hchecked : r.check = ~~~(r.length + r.address.sum + r.data.sum) := h.checked
  simp only [srecDecode, hskip, hlength, recordType_iff.mpr rfl, readAddress_eq, readData_eq,
    haddress, hdata, hcheck, Option.map_some]
  rw [if_pos hchecked]
  rfl

theorem srecDecode_taken {line data : List Byte} {type : RecordType} {count : Int}
    {addr : BitVec 32} (h : srecDecode line = .record type count addr data) :
    exists r : Record, r.Taken line ∧ r.type = type ∧ count = type.dataCount r.length ∧
      addr = addressValue r.address ∧ data = r.data := by
  unfold srecDecode at h
  cases hskip : skipToRecord line with
  | nil =>
      rw [hskip] at h
      cases h
  | cons v input =>
      simp only [hskip] at h
      cases hlength : hex2Bin input with
      | none =>
          rw [hlength] at h
          cases h
      | some first =>
          simp only [hlength] at h
          cases htype : recordType v with
          | none =>
              rw [htype] at h
              cases h
          | some kind =>
              simp only [htype, readAddress_eq] at h
              cases haddress : readBytes kind.addrSize first.2 with
              | none =>
                  rw [haddress] at h
                  cases h
              | some second =>
                  simp only [haddress, Option.map_some, readData_eq] at h
                  cases hdata : readBytes (kind.dataCount first.1).toNat second.2 with
                  | none =>
                      rw [hdata] at h
                      cases h
                  | some third =>
                      simp only [hdata, Option.map_some] at h
                      cases hcheck : hex2Bin third.2 with
                      | none =>
                          rw [hcheck] at h
                          cases h
                      | some last =>
                          simp only [hcheck] at h
                          split at h
                          case isFalse =>
                              cases h
                          case isTrue hsum =>
                              cases h
                              have hsizes := (readBytes_iff.mp haddress).left
                              have hcount := (readBytes_iff.mp hdata).left
                              rw [recordType_iff.mp htype] at hskip
                              rw [← hsizes] at haddress
                              rw [← hcount] at hdata
                              exact ⟨⟨_, first.1, second.1, third.1, last.1⟩,
                                ⟨Record.in_iff.mpr ⟨input, first.2, second.2, third.2, last.2,
                                  hskip, hlength, haddress, hdata, hcheck⟩, hsizes, hcount,
                                  hsum⟩, rfl, rfl, rfl, rfl⟩

theorem RecordType.dataCount_eq {type : RecordType} (htype : type ≠ .count) (length : Byte) :
    type.dataCount length = (length.toNat : Int) - (type.addrSize + 1 : Nat) := by
  cases type with
  | count =>
      exact absurd rfl htype
  | _ =>
      rfl

theorem Record.In.length_eq {r s : Record} {line : List Byte} (hr : r.In line)
    (hs : s.In line) : r.length = s.length := by
  rcases Record.in_iff.mp hr with ⟨_, _, _, _, _, hskip, hlength, _⟩
  rcases Record.in_iff.mp hs with ⟨_, _, _, _, _, hskip', hlength', _⟩
  rw [hskip] at hskip'
  cases (List.cons.inj hskip').right
  rw [hlength] at hlength'
  exact congrArg Prod.fst (Option.some.inj hlength')

theorem Record.WellFormed.data_le {r : Record} (h : r.WellFormed) : r.data.length <= 252 := by
  have hlength := h.length
  have hbyte := r.length.isLt
  have hsize : 2 <= r.type.addrSize := by
    cases r.type <;> decide
  omega

theorem Record.WellFormed.taken {r : Record} {line : List Byte} (h : r.WellFormed)
    (hin : r.In line) (hcount : r.type = .count -> r.data = []) :
    r.Taken line ∧ r.type.dataCount r.length = r.data.length := by
  have hdata : r.type.dataCount r.length = r.data.length := by
    by_cases htype : r.type = .count
    · rw [hcount htype, htype]
      rfl
    · have hlength := h.length
      rw [RecordType.dataCount_eq htype]
      omega
  refine ⟨⟨hin, h.address, ?_, h.checked⟩, hdata⟩
  rw [hdata, Int.toNat_natCast]

theorem Record.Taken.wellFormed {r : Record} {line : List Byte} (h : r.Taken line)
    (hshort : ¬ ShortRecord line) :
    r.WellFormed ∧ r.type.dataCount r.length = r.data.length := by
  have hdata := h.data
  by_cases htype : r.type = .count
  · rw [htype] at hdata
    have hnone : r.data = [] := List.length_eq_zero_iff.mp hdata
    have hlength : r.length.toNat = 3 := by
      by_contra hlength
      exact hshort ⟨r, h.inside, h.address, hnone, h.checked, Or.inr ⟨htype, hlength⟩⟩
    refine ⟨⟨h.address, ?_, h.checked⟩, ?_⟩
    · rw [hlength, hnone, htype]
      rfl
    · rw [hnone, htype]
      rfl
  · rw [RecordType.dataCount_eq htype] at hdata ⊢
    have hlength : ¬ r.length.toNat <= r.type.addrSize := by
      intro hlength
      have hnone : r.data = [] := by
        apply List.length_eq_zero_iff.mp
        omega
      exact hshort ⟨r, h.inside, h.address, hnone, h.checked, Or.inl hlength⟩
    refine ⟨⟨h.address, ?_, h.checked⟩, ?_⟩
    · omega
    · omega

theorem decodes_iff (line : List Byte) :
    Decodes line <-> ¬ ShortRecord line ∧ ¬ CountWithData line := by
  constructor
  · intro hdecodes
    constructor
    · rintro ⟨r, hin, haddress, hnone, hchecked, hlength⟩
      have hcount : r.type.dataCount r.length <= 0 := by
        by_cases htype : r.type = .count
        · rw [htype]
          exact Int.le_refl 0
        · rw [RecordType.dataCount_eq htype]
          have hsmall := hlength.resolve_right (fun h => htype h.left)
          omega
      have htaken : r.Taken line := by
        refine ⟨hin, haddress, ?_, hchecked⟩
        rw [hnone, Int.toNat_of_nonpos hcount]
        rfl
      rcases (hdecodes _ _ _ _).mp htaken.decode with
        ⟨s, hs, hwell, htype, hdata, _, _, hsame⟩
      rw [← hsame, hnone] at hdata
      cases hlength with
      | inl hsmall =>
          have hwhole := hwell.length
          rw [← hin.length_eq hs, htype] at hwhole
          omega
      | inr hother =>
          have hwhole := hwell.length
          rw [← hin.length_eq hs, ← hsame, hnone, htype, hother.left] at hwhole
          exact hother.right hwhole
    · rintro ⟨r, hin, hwell, htype, hsome⟩
      have hdecode := (hdecodes _ _ _ _).mpr
        ⟨r, hin, hwell, rfl, rfl, hwell.data_le, rfl, rfl⟩
      rcases srecDecode_taken hdecode with ⟨s, htaken, hs, _, _, hsame⟩
      have hdata := htaken.data
      rw [hs, htype, ← hsame] at hdata
      exact hsome (List.length_eq_zero_iff.mp hdata)
  · rintro ⟨hshort, hcount⟩ type count addr data
    constructor
    · intro hdecode
      rcases srecDecode_taken hdecode with ⟨r, htaken, rfl, hnumber, haddr, hdata⟩
      rcases htaken.wellFormed hshort with ⟨hwell, hlength⟩
      exact ⟨r, htaken.inside, hwell, rfl, hnumber.trans hlength, hwell.data_le, haddr, hdata⟩
    · rintro ⟨r, hin, hwell, rfl, rfl, _, rfl, rfl⟩
      have hnone : r.type = .count -> r.data = [] := by
        intro htype
        by_contra hsome
        exact hcount ⟨r, hin, hwell, htype, hsome⟩
      rcases hwell.taken hin hnone with ⟨htaken, hlength⟩
      rw [htaken.decode, hlength]

/-!
# Records out of memory
-/

/-- One record: `SREC3_FORMAT` with the length, the address, the text of the data, and the
checksum, to which the data was added before. -/
def dataRecord (address : BitVec 32) (reclen : Nat) (checksum : Byte) (data : List Byte) :
    List Byte :=
  let length := BitVec.ofNat 8 (4 + reclen + 1)
  let checksum := checksum + length + (wordBytes address).sum
  ascii "S3" ++ upperHex [length] ++ upperHex (wordBytes address) ++ data ++
    upperHex [~~~checksum] ++ ascii "\n"

/-- The loop of `save_serial`, by the number of bytes that are left. -/
def saveLoop (memory : Memory) (address : BitVec 32) (reclen : Nat) (checksum : Byte)
    (data : List Byte) : Nat -> List (List Byte)
  | 0 => []
  | count + 1 =>
      let c := memory (address + BitVec.ofNat 32 reclen)
      let checksum := checksum + c
      let data := data ++ upperHex [c]
      let reclen := reclen + 1
      if reclen = 16 ∨ count = 0 then
        dataRecord address reclen checksum data ::
          saveLoop memory (address + BitVec.ofNat 32 reclen) 0 0#8 [] count
      else saveLoop memory address reclen checksum data count

/-- `save_serial`: what it hands to `write_record`, when nothing interrupts it. -/
def saveSerial (memory : Memory) (address count : BitVec 32) : List (List Byte) :=
  ascii "S0030000FC\n" :: saveLoop memory address 0 0#8 [] count.toNat ++
    [ascii "S70500000000FA\n"]

def placed (address : BitVec 32) (data : List Byte) : List (BitVec 32 × Byte) :=
  data.mapIdx (fun i b => (address + BitVec.ofNat 32 i, b))

theorem placed_append (address : BitVec 32) (data more : List Byte) :
    placed address (data ++ more) =
      placed address data ++ placed (address + BitVec.ofNat 32 data.length) more := by
  unfold placed
  rw [List.mapIdx_append]
  congr 2
  funext i b
  rw [Nat.add_comm, BitVec.ofNat_add, BitVec.add_assoc]

theorem addressValue_wordBytes (address : BitVec 32) :
    addressValue (wordBytes address) = address := by
  apply BitVec.eq_of_toNat_eq
  simp only [addressValue, wordBytes, List.foldl_cons, List.foldl_nil, addressStep,
    BitVec.toNat_add, BitVec.toNat_shiftLeft, BitVec.toNat_setWidth, BitVec.extractLsb'_toNat,
    BitVec.toNat_ofNat, Nat.shiftLeft_eq, Nat.shiftRight_eq_div_pow]
  have hlt := address.isLt
  omega

theorem dataRecord_decode (address : BitVec 32) (bytes : List Byte)
    (hlength : bytes.length <= 16) :
    srecDecode (dataRecord address bytes.length bytes.sum (upperHex bytes)) =
      .record .data4 bytes.length address bytes := by
  let length := BitVec.ofNat 8 (4 + bytes.length + 1)
  let r : Record := ⟨.data4, length, wordBytes address, bytes,
    ~~~(bytes.sum + length + (wordBytes address).sum)⟩
  have hin : r.In (dataRecord address bytes.length bytes.sum (upperHex bytes)) := by
    refine ⟨[], upperHex r.bytes, ascii "\n", ?_, List.not_mem_nil, hexText_upperHex _⟩
    show _ = ascii "S3" ++ (upperHex ([length] ++ (wordBytes address ++ bytes ++ [_])) ++ _)
    simp only [upperHex_append]
    simp only [dataRecord, List.append_assoc]
    rfl
  have hwell : r.WellFormed := by
    refine ⟨rfl, ?_, ?_⟩
    · show (BitVec.ofNat 8 (4 + bytes.length + 1)).toNat = 4 + bytes.length + 1
      rw [BitVec.toNat_ofNat]
      omega
    · show ~~~(bytes.sum + length + (wordBytes address).sum) =
        ~~~(length + (wordBytes address).sum + bytes.sum)
      rw [BitVec.add_comm bytes.sum, BitVec.add_assoc, BitVec.add_assoc,
        BitVec.add_comm bytes.sum]
  rcases hwell.taken hin (fun h => by cases h) with ⟨htaken, hcount⟩
  rw [htaken.decode, hcount]
  show Decoded.record .data4 bytes.length (addressValue (wordBytes address)) bytes = _
  rw [addressValue_wordBytes]

/-- The records of the loop hold the collected bytes and the rest of the range. -/
theorem saveLoop_decode (memory : Memory) (address : BitVec 32) (bytes : List Byte)
    (count : Nat) (hlength : bytes.length < 16) (hdone : count = 0 -> bytes = []) :
    exists pieces : List (BitVec 32 × List Byte),
      (saveLoop memory address bytes.length bytes.sum (upperHex bytes) count).map srecDecode =
          pieces.map (fun piece => .record .data4 piece.2.length piece.1 piece.2) ∧
        pieces.flatMap (fun piece => placed piece.1 piece.2) =
          placed address (bytes ++
            memoryRange memory (address + BitVec.ofNat 32 bytes.length) count) := by
  induction count generalizing address bytes with
  | zero =>
      rw [hdone rfl]
      exact ⟨[], rfl, rfl⟩
  | succ count ih =>
      rw [memoryRange_succ]
      let c := memory (address + BitVec.ofNat 32 bytes.length)
      have hcollected : (bytes ++ [c]).length = bytes.length + 1 := List.length_append
      have hsum : (bytes ++ [c]).sum = bytes.sum + c := by
        rw [List.sum_append, List.sum_singleton]
      have hnext : address + BitVec.ofNat 32 bytes.length + 1#32 =
          address + BitVec.ofNat 32 (bytes ++ [c]).length := by
        rw [hcollected, BitVec.ofNat_add, BitVec.add_assoc]
      have hbytes : bytes ++ c :: memoryRange memory
          (address + BitVec.ofNat 32 bytes.length + 1#32) count = (bytes ++ [c]) ++
            memoryRange memory (address + BitVec.ofNat 32 (bytes ++ [c]).length) count := by
        rw [hnext, List.append_assoc]
        rfl
      show exists pieces : List (BitVec 32 × List Byte), _ ∧ _ = placed address (bytes ++ c :: _)
      rw [hbytes]
      simp only [saveLoop]
      rw [← hcollected, ← upperHex_append, ← hsum]
      by_cases hrecord : (bytes ++ [c]).length = 16 ∨ count = 0
      · rw [if_pos hrecord]
        rcases ih (address + BitVec.ofNat 32 (bytes ++ [c]).length) [] (by decide)
          (fun _ => rfl) with ⟨pieces, hpieces, hplaced⟩
        refine ⟨(address, bytes ++ [c]) :: pieces, ?_, ?_⟩
        · rw [List.map_cons, List.map_cons, dataRecord_decode _ _ (by omega)]
          exact congrArg _ hpieces
        · rw [List.flatMap_cons, hplaced, List.nil_append, List.length_nil, BitVec.add_zero]
          exact (placed_append _ _ _).symm
      · rw [if_neg hrecord]
        rw [not_or] at hrecord
        exact ih address (bytes ++ [c]) (by omega) (fun h => absurd h hrecord.right)

/-- A line is decoded right exactly when its length byte is the one that the decoder counts
with; the lines of `save_serial` are. -/
theorem srecDecode_decodes_iff (line : CString) (memory : Memory) (address count : BitVec 32) :
    (Decodes line.bytes <-> ¬ ShortRecord line.bytes ∧ ¬ CountWithData line.bytes) ∧
      exists pieces : List (BitVec 32 × List Byte),
        (saveSerial memory address count).map srecDecode =
            Decoded.record .start 0 0#32 [] ::
              pieces.map (fun piece => Decoded.record .data4 piece.2.length piece.1 piece.2) ++
                [Decoded.record .end4 0 0#32 []] ∧
          pieces.flatMap (fun piece => placed piece.1 piece.2) =
            placed address (memoryRange memory address count.toNat) := by
  refine ⟨decodes_iff line.bytes, ?_⟩
  rcases saveLoop_decode memory address [] count.toNat (by decide) (fun _ => rfl) with
    ⟨pieces, hpieces, hplaced⟩
  rw [List.nil_append, List.length_nil, BitVec.add_zero] at hplaced
  refine ⟨pieces, ?_, hplaced⟩
  have hstart : srecDecode (ascii "S0030000FC\n") = .record .start 0 0#32 [] := by decide
  have hend : srecDecode (ascii "S70500000000FA\n") = .record .end4 0 0#32 [] := by decide
  rw [saveSerial, List.map_append, List.map_cons, hstart, List.map_singleton, hend]
  exact congrArg (fun records => _ :: records ++ _) hpieces

/-- `S1000000FF` is taken as a record with minus three bytes. -/
theorem short_record_decoded : ¬ (forall line : CString, Decodes line.bytes) := by
  intro hall
  have hdecode : srecDecode (ascii "S1000000FF") = .record .data2 (-3) 0#32 [] := by decide
  have hdecodes := hall ⟨ascii "S1000000FF", by decide⟩
  rcases (hdecodes _ _ _ _).mp hdecode with ⟨r, _, _, _, hcount, _⟩
  omega

end Load
end Bab750
