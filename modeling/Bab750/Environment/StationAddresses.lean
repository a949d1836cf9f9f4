import Bab750.Environment.NetbootUpdate

/-!
# Station addresses in the environment

`eth_setenv_enetaddr`, `eth_getenv_enetaddr` and `eth_getenv_enetaddr_by_index` of `net/eth.c`.
Each interface has a variable of its own.
-/

namespace Bab750
namespace Environment

open Foundation
open Support
open Network

/-- The name of the variable in `eth_getenv_enetaddr_by_index`. -/
def enetvar (index : BitVec 32) : Option (List Byte) :=
  (vsprintf (if index ≠ 0#32 then ascii "eth%daddr" else ascii "ethaddr") [.word index]).map
    Printed.text

def ethGetenvEnetaddr (s : BoardState) (name : List Byte) : Bool × List Byte :=
  let enetaddr := ethParseEnetaddr ((getenvString (dataChar s.data) name).getD none)
  (isValidEtherAddr enetaddr, enetaddr)

def ethGetenvEnetaddrByIndex (s : BoardState) (index : BitVec 32) : Option (Bool × List Byte) :=
  (enetvar index).map (ethGetenvEnetaddr s)

def ethSetenvEnetaddr (s : BoardState) (name : List Byte) (enetaddr : BitVec 32)
    (bytes : List Byte) : Option (Int × BoardState) :=
  (vsprintf (ascii "%pM") [.pointer enetaddr bytes]).bind
    (fun buf => setenvText s name buf.text)

structure StationCall where
  index : BitVec 32
  enetaddr : BitVec 32
  bytes : List Byte

def stationCalls (s : BoardState) (calls : List StationCall) : Option BoardState :=
  calls.foldlM (fun s call => (enetvar call.index).bind (fun name =>
    (ethSetenvEnetaddr s name call.enetaddr call.bytes).map Prod.snd)) s

/-- The interface has a number, and there are six bytes at the address. -/
structure StationCall.Proper (call : StationCall) : Prop where
  index : call.index.toNat < 2 ^ 31
  enetaddr : call.enetaddr ≠ 0#32
  bytes : call.bytes.length = 6

/-!
# Names
-/

def interfaceName (index : BitVec 32) : List Byte :=
  if index = 0#32 then ascii "ethaddr"
  else ascii "eth" ++ decimalBytesOf index.toNat ++ ascii "addr"

theorem enetvar_eq {index : BitVec 32} (h : index.toNat < 2 ^ 31) :
    enetvar index = some (interfaceName index) := by
  unfold enetvar interfaceName
  by_cases hzero : index = 0#32
  · rw [if_neg (not_not_intro hzero), if_pos hzero]
    rfl
  · have hfmt : ascii "eth%daddr" = [0x65#8, 0x74#8, 0x68#8, 0x25#8, 0x64#8, 0x61#8, 0x64#8,
      0x64#8, 0x72#8] := rfl
    rw [if_pos hzero, if_neg hzero]
    unfold vsprintf
    rw [hfmt]
    show Option.map Printed.text (formatLoop 10 _ _ _) = _
    rw [formatLoop_char (by decide), formatLoop_char (by decide), formatLoop_char (by decide),
      formatLoop_decimal h, formatLoop_char (by decide), formatLoop_char (by decide),
      formatLoop_char (by decide), formatLoop_char (by decide)]
    unfold formatLoop Printed.put
    simp
    rfl

theorem digits_length {n k : Nat} (h : n < 10 ^ k) : (Nat.digits 10 n).length ≤ k :=
  (Nat.digits_length_le_iff (by decide) n).mpr h

theorem decimalBytesOf_short {d : Nat} (h : d < 2 ^ 31) :
    0 < (decimalBytesOf d).length ∧ (decimalBytesOf d).length ≤ 10 := by
  unfold decimalBytesOf
  rw [List.length_reverse, List.length_map]
  refine ⟨List.length_pos_of_ne_nil (digitList_ne_nil 10 d), ?_⟩
  unfold digitList
  split
  · decide
  · exact digits_length (by omega)

theorem decimalBytesOf_injective {d e : Nat} (hd : d < 2 ^ 32) (he : e < 2 ^ 32)
    (h : decimalBytesOf d = decimalBytesOf e) : d = e := by
  have hend : Stops [] := fun _ h => absurd h (by simp)
  have hplain : NoPrefix [] := fun _ h => absurd h List.not_mem_nil
  have hread := congrArg Prod.fst (simpleStrtoul_decimalBytesOf d hend hplain)
  rw [h, congrArg Prod.fst (simpleStrtoul_decimalBytesOf e hend hplain)] at hread
  have hnum := congrArg BitVec.toNat hread
  dsimp only at hnum
  rw [BitVec.toNat_ofNat, BitVec.toNat_ofNat, Nat.mod_eq_of_lt hd, Nat.mod_eq_of_lt he] at hnum
  exact hnum.symm

theorem interfaceName_length {index : BitVec 32} (h : index.toNat < 2 ^ 31) :
    (interfaceName index).length ≤ 17 ∧
      (index ≠ 0#32 -> 7 < (interfaceName index).length) := by
  have hdigits := decimalBytesOf_short h
  have heth : (ascii "eth").length = 3 := rfl
  have haddr : (ascii "addr").length = 4 := rfl
  unfold interfaceName
  split
  case isTrue hzero => exact ⟨by decide, fun hne => absurd hzero hne⟩
  case isFalse =>
      rw [List.length_append, List.length_append, heth, haddr]
      omega

theorem interfaceName_injective {i j : BitVec 32} (hi : i.toNat < 2 ^ 31)
    (hj : j.toNat < 2 ^ 31) (h : interfaceName i = interfaceName j) : i = j := by
  by_cases hzero : i = 0#32
  · by_cases hzero' : j = 0#32
    · rw [hzero, hzero']
    · have hlong := (interfaceName_length hj).2 hzero'
      rw [← h, hzero] at hlong
      exact absurd hlong (by decide)
  · by_cases hzero' : j = 0#32
    · have hlong := (interfaceName_length hi).2 hzero
      rw [h, hzero'] at hlong
      exact absurd hlong (by decide)
    · unfold interfaceName at h
      rw [if_neg hzero, if_neg hzero'] at h
      have hdigits := List.append_cancel_left (List.append_cancel_right h)
      exact BitVec.eq_of_toNat_eq (decimalBytesOf_injective i.isLt j.isLt hdigits)

theorem decimalBytesOf_chars (d : Nat) {c : Byte} (hc : c ∈ decimalBytesOf d) :
    0x30 ≤ c.toNat ∧ c.toNat ≤ 0x39 := by
  rcases List.mem_map.mp (List.mem_reverse.mp hc) with ⟨e, he, rfl⟩
  have hall : forall e, e < 10 ->
      0x30 ≤ (decimalDigit e).toNat ∧ (decimalDigit e).toNat ≤ 0x39 := by decide
  exact hall e (digitList_lt (by decide) he)

theorem interfaceName_free {index : BitVec 32} :
    FreeName (interfaceName index) ∧ 0#8 ∉ interfaceName index := by
  unfold interfaceName
  split
  · decide
  · have hchars : forall c, c = 0#8 ∨ c = equalsSign ->
        c ∉ ascii "eth" ++ decimalBytesOf index.toNat ++ ascii "addr" := by
      intro c hc hmem
      rw [List.append_assoc] at hmem
      rcases List.mem_append.mp hmem with hmem | hmem
      · rcases hc with rfl | rfl <;> exact absurd hmem (by decide)
      · rcases List.mem_append.mp hmem with hmem | hmem
        · have hdigit := decimalBytesOf_chars _ hmem
          rcases hc with rfl | rfl <;> exact absurd hdigit (by decide)
        · rcases hc with rfl | rfl <;> exact absurd hmem (by decide)
    have hhead : forall name : List Byte, name.head? ≠ some 0x65#8 ->
        ascii "eth" ++ decimalBytesOf index.toNat ++ ascii "addr" ≠ name := by
      intro name hname heq
      rw [← heq] at hname
      exact hname rfl
    refine ⟨⟨hchars equalsSign (Or.inr rfl), ?_, hhead _ (by decide)⟩, hchars 0#8 (Or.inl rfl)⟩
    unfold consoleFile
    rw [if_neg (hhead _ (by decide)), if_neg (hhead _ (by decide)),
      if_neg (hhead _ (by decide))]

/-!
# Calls
-/

theorem stationText_length (m : List Byte) : (stationText m).length = 3 * m.length - 1 := by
  induction m with
  | nil => rfl
  | cons b m ih =>
      cases m with
      | nil => rfl
      | cons c m =>
          rw [stationText_cons, List.length_append, List.length_cons, ih]
          simp [packHexByte]
          omega

theorem stationText_noNul (m : List Byte) : 0#8 ∉ stationText m := by
  have hall : forall b : Byte, 0#8 ∉ packHexByte b := by decide +kernel
  induction m with
  | nil => exact List.not_mem_nil
  | cons b m ih =>
      cases m with
      | nil => exact hall b
      | cons c m =>
          rw [stationText_cons]
          intro hmem
          rcases List.mem_append.mp hmem with hmem | hmem
          · exact hall b hmem
          · rcases List.mem_cons.mp hmem with heq | hmem
            · exact absurd heq (by decide)
            · exact ih hmem

theorem vsprintf_station {p : BitVec 32} (hp : p ≠ 0#32) {m : List Byte} (hm : m.length = 6) :
    vsprintf (ascii "%pM") [.pointer p m] = some ⟨stationText m, []⟩ := by
  have htext : pointer [0x4d#8] p m (-1) (-1) .none = some (stationText m) := by
    unfold pointer
    dsimp only
    rw [if_neg hp, if_neg (by decide), if_pos (by rfl)]
    unfold macAddressString
    rw [if_neg (by omega), List.take_of_length_le (Nat.le_of_eq hm)]
    exact string_text (stationText_noNul m) _
  have hdirective : directive [0x70#8, 0x4d#8] [.pointer p m] ⟨[], []⟩ =
      some ([], [], ⟨stationText m, []⟩) := by
    show conversion 0x70#8 [0x4d#8] [.pointer p m] ⟨[], []⟩ .none (-1) (-1) none = _
    show (pointer [0x4d#8] p m (-1) (-1) .none).bind _ = _
    rw [htext]
    rfl
  show (directive [0x70#8, 0x4d#8] [.pointer p m] ⟨[], []⟩).bind _ = _
  rw [hdirective]
  rfl

def StationCall.update (call : StationCall) : List Byte × List Byte :=
  (interfaceName call.index, stationText call.bytes)

theorem StationCall.Proper.textLength {call : StationCall} (h : call.Proper) :
    (stationText call.bytes).length = 17 := by
  rw [stationText_length, h.bytes]

theorem StationCall.Proper.settable {call : StationCall} (h : call.Proper) :
    Settable call.update where
  free := interfaceName_free.1
  name := interfaceName_free.2
  value := stationText_noNul call.bytes
  nonempty := List.ne_nil_of_length_pos (by
    show 0 < (stationText call.bytes).length
    rw [h.textLength]
    decide)
  short := by
    have hname := (interfaceName_length h.index).1
    show (interfaceName call.index).length + (stationText call.bytes).length + 3 < 2 ^ 31
    rw [h.textLength]
    omega

theorem stationCalls_eq (calls : List StationCall) :
    forall s : BoardState, (forall call, call ∈ calls -> call.Proper) ->
      stationCalls s calls = setenvUpdates s (calls.map StationCall.update) := by
  induction calls with
  | nil => exact fun _ _ => rfl
  | cons call calls ih =>
      intro s hproper
      have hcall := hproper call List.mem_cons_self
      unfold stationCalls setenvUpdates at ih ⊢
      rw [List.map_cons, List.foldlM_cons, List.foldlM_cons, enetvar_eq hcall.index]
      unfold ethSetenvEnetaddr
      rw [Option.bind_some, vsprintf_station hcall.enetaddr hcall.bytes, Option.bind_some]
      exact congrArg _ (funext fun t =>
        ih t (fun other hother => hproper other (List.mem_cons_of_mem call hother)))

def stationBytes (index : BitVec 32) (calls : List StationCall) : Option (List Byte) :=
  (calls.filter (fun call => call.index = index)).getLast?.map StationCall.bytes

theorem updatedValue_stations {index : BitVec 32} (h : index.toNat < 2 ^ 31)
    (calls : List StationCall) (hproper : forall call, call ∈ calls -> call.Proper) :
    updatedValue (interfaceName index) (calls.map StationCall.update) =
      (stationBytes index calls).map stationText := by
  have hfilter : calls.filter (fun call => decide (call.index = index)) =
      calls.filter (fun call => decide (call.update.1 = interfaceName index)) := by
    apply List.filter_congr
    intro call hcall
    have hiff : call.index = index <-> call.update.1 = interfaceName index :=
      ⟨congrArg interfaceName, interfaceName_injective (hproper call hcall).index h⟩
    exact decide_eq_decide.mpr hiff
  unfold updatedValue stationBytes
  rw [List.filter_map, List.getLast?_map, hfilter, Option.map_map, Option.map_map]
  rfl

theorem updatedCopy_stations (copy : BitVec 32) (calls : List StationCall) :
    updatedCopy copy (calls.map StationCall.update) = copy := by
  have hname : forall index : BitVec 32, interfaceName index ≠ ascii "ipaddr" := by
    intro index heq
    have hhead : (interfaceName index).head? = some 0x65#8 := by
      unfold interfaceName
      split <;> rfl
    rw [heq] at hhead
    exact absurd hhead (by decide)
  induction calls with
  | nil => rfl
  | cons call calls ih =>
      show updatedCopy (if (interfaceName call.index) = ascii "ipaddr" then _ else copy) _ = copy
      rw [if_neg (hname call.index)]
      exact ih

theorem ethGetenvEnetaddrByIndex_eq {s : BoardState} {vars : List Variable}
    (hdata : WellFormed s.data vars) {index : BitVec 32} (h : index.toNat < 2 ^ 31) :
    ethGetenvEnetaddrByIndex s index =
      some (isValidEtherAddr (ethParseEnetaddr (lookupVariable (interfaceName index) vars)),
        ethParseEnetaddr (lookupVariable (interfaceName index) vars)) := by
  unfold ethGetenvEnetaddrByIndex ethGetenvEnetaddr
  rw [enetvar_eq h, Option.map_some, getenvString_wellFormed hdata interfaceName_free.2,
    nameOf_eq_self interfaceName_free.1.noEquals]
  rfl

theorem stationCalls_settable {calls : List StationCall}
    (hproper : forall call, call ∈ calls -> call.Proper) :
    forall update, update ∈ calls.map StationCall.update -> Settable update := by
  intro update hupdate
  rcases List.mem_map.mp hupdate with ⟨call, hcall, rfl⟩
  exact (hproper call hcall).settable

/--
Each interface has the station address that it was given last, whatever the others were given, and
the answer says whether the address is one that a station may have.
-/
theorem ethGetenvEnetaddrByIndex_calls {s : BoardState} {vars : List Variable}
    {calls : List StationCall} (hdata : WellFormed s.data vars)
    (hproper : forall call, call ∈ calls -> call.Proper)
    (hfits : FitsAll vars (updateArgs (calls.map StationCall.update))) :
    exists t, stationCalls s calls = some t ∧
      (forall index : BitVec 32, index.toNat < 2 ^ 31 ->
        ethGetenvEnetaddrByIndex t index =
          ((stationBytes index calls).map (fun m => (isValidEtherAddr m, m))).or
            (ethGetenvEnetaddrByIndex s index)) ∧
      t.ipAddr = s.ipAddr := by
  rcases setenvUpdates_fits (calls.map StationCall.update) s vars hdata
    (stationCalls_settable hproper) hfits with ⟨t, after, hrun, hwf, hlookup, hcopy⟩
  refine ⟨t, (stationCalls_eq calls s hproper).trans hrun, fun index hindex => ?_, ?_⟩
  · rw [ethGetenvEnetaddrByIndex_eq hwf hindex, ethGetenvEnetaddrByIndex_eq hdata hindex, hlookup,
      updatedValue_stations hindex calls hproper]
    cases hbytes : stationBytes index calls with
    | none => rfl
    | some m =>
        have hlength : m.length = 6 := by
          unfold stationBytes at hbytes
          rcases Option.map_eq_some_iff.mp hbytes with ⟨call, hcall, rfl⟩
          exact (hproper call (List.mem_of_mem_filter (List.mem_of_getLast? hcall))).bytes
        have hread := enetaddrBytes_stationText m
        rw [hlength] at hread
        show some (isValidEtherAddr (ethParseEnetaddr (some (stationText m))),
          ethParseEnetaddr (some (stationText m))) = some (isValidEtherAddr m, m)
        unfold ethParseEnetaddr
        rw [hread]
  · rw [hcopy, updatedCopy_stations]

/-- Two interfaces, one of which is given a second address. -/
def sampleCalls : List StationCall :=
  [⟨0#32, 0x1000#32, [0#8, 1#8, 2#8, 3#8, 4#8, 5#8]⟩,
    ⟨1#32, 0x1000#32, [0#8, 0xa1#8, 0xb2#8, 3#8, 4#8, 5#8]⟩,
    ⟨0#32, 0x1000#32, [1#8, 1#8, 2#8, 3#8, 4#8, 6#8]⟩]

theorem sampleCalls_proper : forall call, call ∈ sampleCalls -> call.Proper := by
  unfold sampleCalls
  simp only [List.mem_cons, List.not_mem_nil, or_false, forall_eq_or_imp, forall_eq]
  exact ⟨⟨by decide, by decide, rfl⟩, ⟨by decide, by decide, rfl⟩, ⟨by decide, by decide, rfl⟩⟩

theorem ethGetenvEnetaddrByIndex_calls_sample :
    exists t, stationCalls sampleBoard sampleCalls = some t ∧
      ethGetenvEnetaddrByIndex t 0#32 = some (false, [1#8, 1#8, 2#8, 3#8, 4#8, 6#8]) ∧
      ethGetenvEnetaddrByIndex t 1#32 = some (true, [0#8, 0xa1#8, 0xb2#8, 3#8, 4#8, 5#8]) := by
  rcases ethGetenvEnetaddrByIndex_calls sampleBoard_wellFormed sampleCalls_proper
    (updateArgs_room (stationCalls_settable sampleCalls_proper) (by decide)) with
    ⟨t, hrun, hread, _⟩
  exact ⟨t, hrun, hread 0#32 (by decide), hread 1#32 (by decide)⟩

end Environment
end Bab750
