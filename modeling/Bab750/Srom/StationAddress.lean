import Bab750.Srom.MicrowireRuns

/-!
# The station address

The reads of `dc2114x.c`, which look at the data output while the command is clocked in, and
the way of a buffer through the network EEPROM.
-/

namespace Bab750
namespace Srom

open Foundation

/-!
# What is seen while bits are clocked in
-/

def Microwire.outputs (s : Microwire) : List Bool -> List Bool
  | [] => []
  | bit :: bits => (s.shift bit).output :: (s.shift bit).outputs bits

namespace Microwire

theorem outputs_length (s : Microwire) (bits : List Bool) :
    (s.outputs bits).length = bits.length := by
  induction bits generalizing s with
  | nil =>
      rfl
  | cons bit bits ih =>
      exact congrArg (fun n => n + 1) (ih (s.shift bit))

theorem outputs_append (s : Microwire) (bits more : List Bool) :
    s.outputs (bits ++ more) = s.outputs bits ++ (s.clockIn bits).outputs more := by
  induction bits generalizing s with
  | nil =>
      rfl
  | cons bit bits ih =>
      exact congrArg (fun rest => (s.shift bit).output :: rest) (ih (s.shift bit))

theorem outputs_sends (s : Microwire) (first : Bool) (bits more : List Bool)
    (hmore : more.length = bits.length) : (s.sends (first :: bits)).outputs more = bits := by
  induction bits generalizing first more with
  | nil =>
      rw [List.length_eq_zero_iff.mp hmore]
      rfl
  | cons next bits ih =>
      cases more with
      | nil =>
          cases hmore
      | cons bit more =>
          exact congrArg (fun rest => next :: rest) (ih next more (Nat.succ.inj hmore))

theorem outputs_getD (s : Microwire) (bits : List Bool) (i : Nat) (hi : i < bits.length) :
    (s.outputs bits).getD i false = (s.clockIn (bits.take (i + 1))).output := by
  induction bits generalizing s i with
  | nil =>
      exact absurd hi (Nat.not_lt_zero i)
  | cons bit bits ih =>
      cases i with
      | zero =>
          rfl
      | succ i =>
          exact ih (s.shift bit) i (Nat.lt_of_succ_lt_succ hi)

theorem clockIn_sends (s : Microwire) (bits more : List Bool) :
    (s.sends bits).clockIn more = s.sends (bits.drop more.length) := by
  induction more generalizing bits with
  | nil =>
      rfl
  | cons bit more ih =>
      have hshift : (s.sends bits).shift bit = s.sends bits.tail := rfl
      unfold clockIn at ih ⊢
      rw [List.foldl_cons, hshift, ih, List.length_cons, List.drop_tail]

end Microwire

variable {s : Microwire}

def commandBits (cmd : BitVec 32) : Nat -> List Bool
  | 0 => []
  | i + 1 => cmd.getLsbD i :: commandBits cmd i

theorem commandBits_length (cmd : BitVec 32) (n : Nat) : (commandBits cmd n).length = n := by
  induction n with
  | zero =>
      rfl
  | succ n ih =>
      exact congrArg (fun n => n + 1) ih

theorem selects_dataval (cmd : BitVec 32) (i : Nat) :
    Selects (sromRd ||| sromSr ||| dtCs ||| dataval cmd i) (cmd.getLsbD i) := by
  have hselects : Selects (sromRd ||| sromSr ||| dtCs) false := by constructor <;> decide
  exact selects_data hselects _

theorem commandLoop_ready (cmd : BitVec 32) (n : Nat) (retval : BitVec 32)
    (hready : s.Ready) (hsome : 0 < n) :
    commandLoop cmd n retval s =
      (((s.withClock false).outputs (commandBits cmd n)).foldl shiftIn retval,
        ((s.withClock false).clockIn (commandBits cmd n)).withClock true) := by
  induction n generalizing s retval with
  | zero =>
      exact absurd hsome (Nat.lt_irrefl 0)
  | succ n ih =>
      have hselects := selects_dataval cmd n
      have hlowReady := hready.withClock false
      have hnextReady := hlowReady.shift (cmd.getLsbD n)
      have hrise : sendtoSrom (s.withClock false)
          (sromRd ||| sromSr ||| dtCs ||| dataval cmd n ||| dtClk) =
            ((s.withClock false).shift (cmd.getLsbD n)).withClock true :=
        sendtoSrom_rise_ready hselects hlowReady rfl
      unfold commandLoop
      dsimp only
      rw [sendtoSrom_low_ready hselects hready, hrise,
        getfromSrom_idle (hnextReady.withClock true).idle]
      dsimp only
      have hback : (((s.withClock false).shift (cmd.getLsbD n)).withClock true).withClock false =
          (s.withClock false).shift (cmd.getLsbD n) :=
        Microwire.withClock_self (Microwire.shift_clock rfl _)
      cases n with
      | zero =>
          rfl
      | succ n =>
          rw [ih _ (hnextReady.withClock true) (Nat.succ_pos n), hback]
          rfl

theorem dataLoop_sends (hidle : s.busy = 0) (n : Nat) (bits : List Bool) (retval : BitVec 32) :
    exists outs : List Bool, outs.length = n ∧
      dataLoop n retval (s.sends bits) =
        (outs.foldl shiftIn retval, s.sends (bits.drop n)) := by
  have hselects : Selects (sromRd ||| sromSr ||| dtCs) false := by constructor <;> decide
  induction n generalizing bits retval with
  | zero =>
      exact ⟨[], rfl, rfl⟩
  | succ n ih =>
      have hready := sends_ready hidle bits
      have hnext := sends_ready hidle bits.tail
      have hrise : sendtoSrom (s.sends bits) (sromRd ||| sromSr ||| dtCs ||| dtClk) =
          (s.sends bits.tail).withClock true :=
        sendtoSrom_rise_ready hselects hready rfl
      have hlow : sendtoSrom ((s.sends bits.tail).withClock true) (sromRd ||| sromSr ||| dtCs) =
          s.sends bits.tail := sendtoSrom_low_ready hselects (hnext.withClock true)
      unfold dataLoop
      dsimp only
      rw [hrise, getfromSrom_idle (hnext.withClock true).idle]
      dsimp only
      rw [hlow]
      rcases ih bits.tail (shiftIn retval ((s.sends bits.tail).withClock true).output) with
        ⟨outs, hlength, hrest⟩
      refine ⟨((s.sends bits.tail).withClock true).output :: outs,
        congrArg (fun n => n + 1) hlength, ?_⟩
      rw [hrest, List.drop_tail]
      rfl

/-!
# `read_srom`
-/

theorem commandBits_probe :
    commandBits (0xff#32 ||| (sromReadCmd <<< 8)) 13 =
      [false, false] ++ ([true, true, false] ++ msbFirst 63#6) ++ [true, true] := by
  decide

theorem sends_off (hidle : s.busy = 0) (bits : List Bool) :
    sendtoSrom (s.sends bits) (sromRd ||| sromSr) = s.rested := by
  rw [sendtoSrom_off_resting (sends_resting hidle bits) (by decide) (by decide) (by decide)]
  rfl

/-- The dummy bit comes in with the last of six bits of the address. -/
theorem doReadEeprom_six (hrest : s.Resting) :
    exists retval : BitVec 32, retval.getLsbD 18 = false ∧
      doReadEeprom s 0xff#32 8 = (retval, s.rested) := by
  have hidle := hrest.idle
  have hselects : Selects (sromRd ||| sromSr ||| dtCs) false := by constructor <;> decide
  have hstart : s.begin.clockIn [false, false] = s.begin := rfl
  have hsends : s.reading 63#6 = s.sends (false :: msbFirst (s.cells 63#6)) := rfl
  have hloop : commandLoop (0xff#32 ||| (sromReadCmd <<< 8)) (5 + 8) 0#32 s.begin =
      ((s.begin.outputs (commandBits (0xff#32 ||| (sromReadCmd <<< 8)) 13)).foldl shiftIn 0#32,
        (s.sends ((false :: msbFirst (s.cells 63#6)).drop 2)).withClock true) := by
    have hready := commandLoop_ready (0xff#32 ||| (sromReadCmd <<< 8)) 13 0#32
      (begin_ready hidle) (Nat.succ_pos 12)
    have hbegin : s.begin.withClock false = s.begin := rfl
    have hend : s.begin.clockIn (commandBits (0xff#32 ||| (sromReadCmd <<< 8)) 13) =
        s.sends ((false :: msbFirst (s.cells 63#6)).drop 2) := by
      rw [commandBits_probe, Microwire.clockIn_append, Microwire.clockIn_append, hstart,
        begin_reading, hsends, Microwire.clockIn_sends]
      rfl
    rw [hbegin, hend] at hready
    exact hready
  have hdummy : (s.begin.outputs (commandBits (0xff#32 ||| (sromReadCmd <<< 8)) 13)).getD 10
      false = false := by
    have hprefix : (commandBits (0xff#32 ||| (sromReadCmd <<< 8)) 13).take 11 =
        [false, false] ++ ([true, true, false] ++ msbFirst 63#6) := by decide
    rw [Microwire.outputs_getD _ _ 10 (by rw [commandBits_length]; decide), hprefix,
      Microwire.clockIn_append, hstart, begin_reading]
    rfl
  have hlength : (s.begin.outputs (commandBits (0xff#32 ||| (sromReadCmd <<< 8)) 13)).length =
      13 := by
    rw [Microwire.outputs_length, commandBits_length]
  generalize s.begin.outputs (commandBits (0xff#32 ||| (sromReadCmd <<< 8)) 13) = outs
    at hloop hdummy hlength
  rcases dataLoop_sends hidle 16 ((false :: msbFirst (s.cells 63#6)).drop 2)
    (outs.foldl shiftIn 0#32) with ⟨more, hmore, hdata⟩
  refine ⟨(outs ++ more).foldl shiftIn 0#32, ?_, ?_⟩
  · have hall : (outs ++ more).length = 29 := by
      rw [List.length_append, hlength, hmore]
    rw [foldl_shiftIn_getLsbD _ _ 18 (by decide) (by rw [hall]; decide), hall,
      List.getD_append _ _ _ _ (by rw [hlength]; decide)]
    exact hdummy
  · unfold doReadEeprom
    dsimp only
    rw [sendtoSrom_off_resting hrest (by decide) (by decide) (by decide),
      sendtoSrom_select hselects, hloop]
    dsimp only
    rw [sendtoSrom_low_ready hselects ((sends_ready hidle _).withClock true)]
    have hlow : ((s.sends ((false :: msbFirst (s.cells 63#6)).drop 2)).withClock true).withClock
        false = s.sends ((false :: msbFirst (s.cells 63#6)).drop 2) := rfl
    rw [hlow, hdata, sends_off hidle, List.foldl_append]

theorem commandBits_read (index : BitVec 6) :
    commandBits ((((sromReadCmd <<< 6) ||| index.setWidth 32) <<< 16) ||| 0xffff#32) 26 =
      [false] ++ ([true, true, false] ++ msbFirst index) ++ List.replicate 16 true := by
  simp [commandBits, msbFirst_six, sromReadCmd]

theorem doEepromCmd_cell (hidle : s.busy = 0) (index : BitVec 6) :
    exists retval : BitVec 32, retval.setWidth 16 = s.cells index ∧
      doEepromCmd s.rested
        ((((sromReadCmd <<< 6) ||| index.setWidth 32) <<< 16) ||| 0xffff#32) (3 + 6 + 16) =
          (retval, s.rested) := by
  have hselects : Selects (sromRd ||| sromSr ||| dtCs) false := by constructor <;> decide
  have hrise : sendtoSrom s.rested (sromRd ||| sromSr ||| dtCs ||| dtClk) =
      s.rested.begin.withClock true := by
    rw [sendtoSrom_rise (s := s.rested) hselects rfl hidle]
    rfl
  have hbegin : (s.rested.begin.withClock true).withClock false = s.rested.begin := rfl
  have hstart : s.rested.begin.clockIn [false] = s.rested.begin := rfl
  have hsends : s.rested.reading index = s.sends (false :: msbFirst (s.cells index)) := rfl
  have hcommand : s.rested.begin.clockIn ([false] ++ ([true, true, false] ++ msbFirst index)) =
      s.sends (false :: msbFirst (s.cells index)) := by
    rw [Microwire.clockIn_append, hstart, begin_reading, hsends]
  have hmore : (List.replicate 16 true).length = (msbFirst (s.cells index)).length := by
    rw [List.length_replicate, msbFirst_length]
  have hloop := commandLoop_ready
    ((((sromReadCmd <<< 6) ||| index.setWidth 32) <<< 16) ||| 0xffff#32) 26 0#32
    ((begin_ready (s := s.rested) hidle).withClock true) (Nat.succ_pos 25)
  rw [hbegin, commandBits_read] at hloop
  generalize [false] ++ ([true, true, false] ++ msbFirst index) = start at hloop hcommand
  rw [Microwire.outputs_append, Microwire.clockIn_append, hcommand,
    Microwire.outputs_sends _ _ _ _ hmore, Microwire.clockIn_sends] at hloop
  have hword := foldl_shiftIn_msbFirst 0#32 (s.rested.begin.outputs start) (s.cells index)
    (by decide)
  refine ⟨_, hword, ?_⟩
  unfold doEepromCmd
  dsimp only
  rw [hrise, hloop]
  dsimp only
  rw [sendtoSrom_low_ready hselects ((sends_ready hidle _).withClock true)]
  exact congrArg (fun t => (_, t)) (sends_off hidle _)

theorem readSrom_cell (hrest : s.Resting) (index : BitVec 6) :
    exists retval : BitVec 32, retval.setWidth 16 = s.cells index ∧
      readSrom s (index.setWidth 32) = (retval, s.rested) := by
  rcases doReadEeprom_six hrest with ⟨probe, hsix, hprobe⟩
  rcases doEepromCmd_cell hrest.idle index with ⟨retval, hword, hcmd⟩
  refine ⟨retval, hword, ?_⟩
  unfold readSrom
  dsimp only
  rw [hprobe]
  dsimp only
  rw [hsix]
  exact hcmd

/-!
# `read_hw_addr`
-/

theorem le16ToCpu_le16ToCpu (v : BitVec 16) : le16ToCpu (le16ToCpu v) = v := by
  apply BitVec.eq_of_getLsbD_eq
  intro i hi
  unfold le16ToCpu
  simp only [BitVec.getLsbD_append, BitVec.getLsbD_extractLsb']
  by_cases hlow : i < 8
  · simp [hlow]
  · simp [hlow, show i - 8 < 8 by omega, show 8 + (i - 8) = i by omega]

def bufferBytes (words : List (BitVec 16)) : List Byte :=
  words.flatMap (fun word => [word.extractLsb' 8 8, word.extractLsb' 0 8])

theorem bufferBytes_drop (words : List (BitVec 16)) (n : Nat) :
    (bufferBytes words).drop (2 * n) = bufferBytes (words.drop n) := by
  induction n generalizing words with
  | zero =>
      rfl
  | succ n ih =>
      cases words with
      | nil =>
          rfl
      | cons word words =>
          exact ih words

theorem bufferBytes_take (words : List (BitVec 16)) (n : Nat) :
    (bufferBytes words).take (2 * n) = bufferBytes (words.take n) := by
  induction n generalizing words with
  | zero =>
      rfl
  | succ n ih =>
      cases words with
      | nil =>
          rfl
      | cons word words =>
          exact congrArg (fun rest => word.extractLsb' 8 8 :: word.extractLsb' 0 8 :: rest)
            (ih words)

def stationBytes (src : List (BitVec 16)) : List Byte := ((bufferBytes src).drop 20).take 6

theorem stationBytes_words (src : List (BitVec 16)) :
    stationBytes src = bufferBytes ((src.drop 10).take 3) := by
  have hdrop := bufferBytes_drop src 10
  have htake := bufferBytes_take (src.drop 10) 3
  unfold stationBytes
  rw [hdrop, htake]

def AllAre (fill : Byte) (bytes : List Byte) : Prop := forall byte, byte ∈ bytes -> byte = fill

theorem word_fill (fill : Byte) (word : BitVec 16) :
    word.extractLsb' 8 8 = fill ∧ word.extractLsb' 0 8 = fill ↔ word = fill ++ fill := by
  constructor
  · rintro ⟨hhigh, hlow⟩
    apply BitVec.eq_of_getLsbD_eq
    intro i hi
    rw [BitVec.getLsbD_append]
    by_cases hi8 : i < 8
    · rw [if_pos hi8, ← hlow]
      simp [hi8]
    · rw [if_neg hi8, ← hhigh]
      simp [show i - 8 < 8 by omega, show 8 + (i - 8) = i by omega]
  · intro hword
    rw [hword]
    constructor
    · exact BitVec.extractLsb'_append_eq_left
    · exact BitVec.extractLsb'_append_eq_right

theorem allAre_bufferBytes (fill : Byte) (words : List (BitVec 16)) :
    AllAre fill (bufferBytes words) ↔ forall word, word ∈ words -> word = fill ++ fill := by
  constructor
  · intro hall word hword
    apply (word_fill fill word).mp
    constructor
    · exact hall _ (List.mem_flatMap.mpr ⟨word, hword, List.mem_cons_self⟩)
    · exact hall _ (List.mem_flatMap.mpr ⟨word, hword, List.mem_cons_of_mem _ List.mem_cons_self⟩)
  · intro hall byte hbyte
    rcases List.mem_flatMap.mp hbyte with ⟨word, hword, hmem⟩
    rcases (word_fill fill word).mpr (hall word hword) with ⟨hhigh, hlow⟩
    rcases List.mem_pair.mp hmem with hbyte | hbyte
    · rw [hbyte, hhigh]
    · rw [hbyte, hlow]

theorem hwAddrLoop_cells (hrest : s.Resting) :
    (hwAddrLoop 3 0x0a#32 s).1 =
      [le16ToCpu (s.cells 10#6), le16ToCpu (s.cells 11#6), le16ToCpu (s.cells 12#6)] := by
  have hidle := hrest.idle
  rcases readSrom_cell hrest 10#6 with ⟨first, hfirst, hread1⟩
  rcases readSrom_cell (rested_resting hidle) 11#6 with ⟨second, hsecond, hread2⟩
  rcases readSrom_cell (rested_resting (s := s.rested) hidle) 12#6 with ⟨third, hthird, hread3⟩
  have hten : (10#6).setWidth 32 = 0x0a#32 := rfl
  have heleven : (11#6).setWidth 32 = 0x0a#32 + 1#32 := rfl
  have htwelve : (12#6).setWidth 32 = 0x0a#32 + 1#32 + 1#32 := rfl
  rw [hten] at hread1
  rw [heleven] at hread2
  rw [htwelve] at hread3
  unfold hwAddrLoop
  dsimp only
  rw [hread1]
  unfold hwAddrLoop
  dsimp only
  rw [hread2]
  unfold hwAddrLoop
  dsimp only
  rw [hread3, hfirst, hsecond, hthird]
  rfl

theorem stationWords {src : List (BitVec 16)} (hlength : src.length = 64) :
    (src.drop 10).take 3 = [src.getD 10 0#16, src.getD 11 0#16, src.getD 12 0#16] := by
  have hten : 10 < src.length := by omega
  have heleven : 11 < src.length := by omega
  have htwelve : 12 < src.length := by omega
  rw [List.drop_eq_getElem_cons hten, List.drop_eq_getElem_cons heleven,
    List.drop_eq_getElem_cons htwelve, List.getD_eq_getElem _ _ hten,
    List.getD_eq_getElem _ _ heleven, List.getD_eq_getElem _ _ htwelve]
  rfl

theorem sum_fill (a b c : BitVec 16) :
    ((([a, b, c].map BitVec.toNat).sum = 0) ↔
      forall word, word ∈ [a, b, c] -> word = 0#8 ++ 0#8) ∧
    ((([a, b, c].map BitVec.toNat).sum = 0x2fffd) ↔
      forall word, word ∈ [a, b, c] -> word = 0xff#8 ++ 0xff#8) := by
  have hzero : (0#8 ++ 0#8).toNat = 0 := rfl
  have hones : (0xff#8 ++ 0xff#8).toNat = 0xffff := rfl
  have ha := a.isLt
  have hb := b.isLt
  have hc := c.isLt
  simp only [List.forall_mem_cons, List.map_cons, List.map_nil, List.sum_cons, List.sum_nil,
    ← BitVec.toNat_inj, hzero, hones]
  constructor
  · constructor
    · intro hsum
      refine ⟨by omega, by omega, by omega, fun word h => absurd h List.not_mem_nil⟩
    · omega
  · constructor
    · intro hsum
      refine ⟨by omega, by omega, by omega, fun word h => absurd h List.not_mem_nil⟩
    · omega

theorem readHwAddr_station (hrest : s.Resting) {src : List (BitVec 16)}
    (hlength : src.length = 64)
    (hcells : forall i, i < 64 ->
      s.cells (BitVec.ofNat 6 i) = le16ToCpu (src.getD i 0#16)) :
    ((readHwAddr s).1 = true ↔
      ¬ (AllAre 0x00#8 (stationBytes src) ∨ AllAre 0xff#8 (stationBytes src))) ∧
    ((readHwAddr s).1 = true -> bufferBytes (readHwAddr s).2.1 = stationBytes src) := by
  have hloop := hwAddrLoop_cells hrest
  have hten := hcells 10 (by decide)
  have heleven := hcells 11 (by decide)
  have htwelve := hcells 12 (by decide)
  rw [hten, heleven, htwelve, le16ToCpu_le16ToCpu, le16ToCpu_le16ToCpu, le16ToCpu_le16ToCpu,
    ← stationWords hlength] at hloop
  have hsum := sum_fill (src.getD 10 0#16) (src.getD 11 0#16) (src.getD 12 0#16)
  rw [← stationWords hlength, ← allAre_bufferBytes, ← allAre_bufferBytes,
    ← stationBytes_words] at hsum
  rcases hsum with ⟨hzero, hones⟩
  unfold readHwAddr
  dsimp only
  rw [hloop, ← hzero, ← hones]
  split
  · rename_i hfill
    exact ⟨⟨fun h => (by cases h), fun h => absurd hfill h⟩, fun h => (by cases h)⟩
  · rename_i hfill
    exact ⟨⟨fun _ => hfill, fun _ => rfl⟩, fun _ => (stationBytes_words src).symm⟩

/-!
# The way of a buffer
-/

theorem storedCells_cell (cells : BitVec 6 -> BitVec 16) {src : List (BitVec 16)}
    (hlength : src.length = 64) {i : Nat} (hi : i < 64) :
    storedCells cells src 0 (BitVec.ofNat 6 i) = le16ToCpu (src.getD i 0#16) := by
  have htoNat : (BitVec.ofNat 6 i).toNat = i := by
    rw [BitVec.toNat_ofNat]
    exact Nat.mod_eq_of_lt hi
  unfold storedCells
  rw [htoNat, hlength, if_pos ⟨Nat.zero_le i, by omega⟩]
  rfl

theorem dcSromLoad_stored (hrest : s.Resting) {src : List (BitVec 16)}
    (hlength : src.length = 64)
    (hcells : forall i, i < 64 ->
      s.cells (BitVec.ofNat 6 i) = le16ToCpu (src.getD i 0#16)) :
    (dcSromLoad s).1 = src := by
  rcases loadWords_cells hrest 64 0#8 with ⟨hwords, _, _⟩
  unfold dcSromLoad
  rw [hwords]
  apply List.ext_getElem
  · rw [List.length_map, List.length_range, hlength]
  · intro i hi hsrc
    have hlt : i < 64 := by
      rw [← hlength]
      exact hsrc
    have haddr : (0#8 + BitVec.ofNat 8 i).setWidth 6 = BitVec.ofNat 6 i := by
      apply BitVec.eq_of_toNat_eq
      rw [BitVec.zero_add, BitVec.toNat_setWidth, BitVec.toNat_ofNat, BitVec.toNat_ofNat]
      omega
    rw [List.getElem_map, List.getElem_range, haddr, hcells i hlt, le16ToCpu_le16ToCpu,
      List.getD_eq_getElem _ _ hsrc]

/-- `dc_srom_store` reports a chip that stays busy, or the cells, `dc_srom_load` and
`read_hw_addr` all have the buffer. -/
theorem srom_roundTrip (s : Microwire) (hrest : s.Resting) (src : List (BitVec 16))
    (hlength : src.length = 64) :
    ((dcSromStore s src).1 = -1 ∧ exists i, i < 64 ∧ 100 <= s.cycles (s.writes + i)) ∨
    ((dcSromStore s src).1 = 0 ∧
      (forall i, i < 64 -> s.cycles (s.writes + i) < 100) ∧
      (forall i, i < 64 ->
        (dcSromStore s src).2.cells (BitVec.ofNat 6 i) = le16ToCpu (src.getD i 0#16)) ∧
      (dcSromLoad (dcSromStore s src).2).1 = src ∧
      forall chip, chip = (dcSromStore s src).2 ∨ chip = (dcSromLoad (dcSromStore s src).2).2 ->
        ((readHwAddr chip).1 = true ↔
          ¬ (AllAre 0x00#8 (stationBytes src) ∨ AllAre 0xff#8 (stationBytes src))) ∧
        ((readHwAddr chip).1 = true ->
          bufferBytes (readHwAddr chip).2.1 = stationBytes src)) := by
  rcases storeWords_cells hrest src 0 (by omega) with
    ⟨hcode, hcycles, hrested, hcells⟩ | ⟨hcode, i, hi, hbusy⟩
  · right
    have hheld : forall i, i < 64 ->
        (dcSromStore s src).2.cells (BitVec.ofNat 6 i) = le16ToCpu (src.getD i 0#16) := by
      intro i hi
      unfold dcSromStore
      rw [hcells]
      exact storedCells_cell s.cells hlength hi
    rw [hlength] at hcycles
    refine ⟨hcode, hcycles, hheld, dcSromLoad_stored hrested hlength hheld, ?_⟩
    intro chip hchip
    cases hchip with
    | inl hstored =>
        rw [hstored]
        exact readHwAddr_station hrested hlength hheld
    | inr hloaded =>
        rcases loadWords_cells hrested 64 0#8 with ⟨_, hafter, hsame⟩
        rw [hloaded]
        apply readHwAddr_station hafter hlength
        intro i hi
        rw [hsame]
        exact hheld i hi
  · left
    rw [hlength] at hi
    exact ⟨hcode, i, hi, hbusy⟩

def Microwire.blank : Microwire where
  cells := fun _ => 0xffff#16
  enabled := false
  stage := Stage.standby
  status := false
  busy := 0
  cycles := fun _ => 40
  writes := 0
  clock := false
  floating := true

def indexWords : List (BitVec 16) := (List.range 64).map (BitVec.ofNat 16)

theorem srom_roundTrip_blank :
    (dcSromStore Microwire.blank indexWords).1 = 0 ∧
      (dcSromLoad (dcSromStore Microwire.blank indexWords).2).1 = indexWords ∧
      bufferBytes (readHwAddr (dcSromStore Microwire.blank indexWords).2).2.1 =
        [0#8, 10#8, 0#8, 11#8, 0#8, 12#8] := by
  have hrest : Microwire.blank.Resting := ⟨fun addr word h => (by cases h), rfl⟩
  have hstation : stationBytes indexWords = [0#8, 10#8, 0#8, 11#8, 0#8, 12#8] := by decide
  have hten : 10#8 ∈ stationBytes indexWords := by
    rw [hstation]
    decide
  rcases srom_roundTrip Microwire.blank hrest indexWords rfl with
    ⟨_, i, _, hbusy⟩ | ⟨hcode, _, _, hload, hread⟩
  · exact absurd (show 100 <= 40 from hbusy) (by decide)
  · rcases hread _ (Or.inl rfl) with ⟨hvalid, hbytes⟩
    refine ⟨hcode, hload, ?_⟩
    rw [hbytes, hstation]
    apply hvalid.mpr
    rintro (hzero | hones)
    · exact absurd (hzero 10#8 hten) (by decide)
    · exact absurd (hones 10#8 hten) (by decide)

end Srom
end Bab750
