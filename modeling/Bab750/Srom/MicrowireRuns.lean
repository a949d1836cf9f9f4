import Bab750.Srom.Microwire

/-!
# Clocking the network EEPROM

What the chip makes of the levels that `dc_srom.c` and `dc2114x.c` put on its lines: a latch is
one bit that is clocked in, and the sequences of latches are commands.
-/

namespace Bab750
namespace Srom

open Foundation

namespace Microwire

/-!
# Bits on the data input
-/

def withClock (s : Microwire) (clk : Bool) : Microwire := { s with clock := clk }

theorem withClock_self {s : Microwire} {clk : Bool} (h : s.clock = clk) :
    s.withClock clk = s := by
  rw [← h]
  rfl

def clockIn (s : Microwire) (bits : List Bool) : Microwire := bits.foldl shift s

theorem clockIn_append (s : Microwire) (bits more : List Bool) :
    s.clockIn (bits ++ more) = (s.clockIn bits).clockIn more :=
  List.foldl_append

structure Ready (s : Microwire) : Prop where
  active : s.stage ≠ Stage.standby
  idle : s.busy = 0

structure Resting (s : Microwire) : Prop where
  nothing : forall addr word, s.stage ≠ Stage.received addr word
  idle : s.busy = 0

theorem select_of_active {s : Microwire} (h : s.stage ≠ Stage.standby) : s.select = s :=
  if_neg h

theorem execute_ready (s : Microwire) (op1 op0 : Bool) (addr : BitVec 6) (hidle : s.busy = 0) :
    (s.execute op1 op0 addr).Ready := by
  unfold execute
  split
  · exact ⟨by simp, hidle⟩
  · exact ⟨by simp, hidle⟩
  · exact ⟨by simp, hidle⟩
  · split
    · exact ⟨by simp, hidle⟩
    · split
      · exact ⟨by simp, hidle⟩
      · exact ⟨by simp, hidle⟩

theorem Ready.shift {s : Microwire} (h : s.Ready) (bit : Bool) : (s.shift bit).Ready := by
  have hidle := h.idle
  unfold Microwire.shift
  split
  · split
    · exact ⟨by simp, hidle⟩
    · exact h
  · exact execute_ready s _ _ _ hidle
  · exact ⟨by simp, hidle⟩
  · exact ⟨by simp, hidle⟩
  · split
    · exact ⟨by simp, hidle⟩
    · exact ⟨by simp, hidle⟩
  · exact h

theorem execute_withClock (s : Microwire) (op1 op0 : Bool) (addr : BitVec 6) (clk : Bool) :
    (s.withClock clk).execute op1 op0 addr = (s.execute op1 op0 addr).withClock clk := by
  unfold execute
  split
  · rfl
  · rfl
  · rfl
  · split
    · rfl
    · split
      · rfl
      · rfl

theorem shift_withClock (s : Microwire) (bit clk : Bool) :
    (s.withClock clk).shift bit = (s.shift bit).withClock clk := by
  rcases s with ⟨cells, enabled, stage, status, busy, cycles, writes, clock, floating⟩
  unfold shift withClock
  dsimp only
  split
  · split
    · rfl
    · rfl
  · exact execute_withClock ⟨cells, enabled, _, status, busy, cycles, writes, clock, floating⟩
      _ _ _ clk
  · rfl
  · rfl
  · split
    · rfl
    · rfl
  · rfl

theorem shift_clock {s : Microwire} {clk : Bool} (h : s.clock = clk) (bit : Bool) :
    (s.shift bit).clock = clk := by
  rw [← withClock_self h, shift_withClock]
  rfl

theorem Ready.withClock {s : Microwire} (h : s.Ready) (clk : Bool) : (s.withClock clk).Ready :=
  ⟨h.active, h.idle⟩

theorem Ready.clockIn {s : Microwire} (h : s.Ready) (bits : List Bool) :
    (s.clockIn bits).Ready := by
  induction bits generalizing s with
  | nil =>
      exact h
  | cons bit bits ih =>
      exact ih (h.shift bit)

theorem clockIn_clock {s : Microwire} {clk : Bool} (h : s.clock = clk) (bits : List Bool) :
    (s.clockIn bits).clock = clk := by
  induction bits generalizing s with
  | nil =>
      exact h
  | cons bit bits ih =>
      exact ih (shift_clock h bit)

end Microwire

/-!
# The register
-/

/-- A command that selects the chip, with the clock low and a level of the data input. -/
structure Selects (command : BitVec 32) (di : Bool) : Prop where
  serial : command.getLsbD 11 = true
  select : command.getLsbD 0 = true
  clock : command.getLsbD 1 = false
  data : command.getLsbD 2 = di

variable {s : Microwire} {command : BitVec 32} {di : Bool}

theorem sendtoSrom_low (h : Selects command di) :
    sendtoSrom s command = s.select.withClock false := by
  unfold sendtoSrom Microwire.lines
  rw [h.serial, h.select, h.clock]
  rfl

theorem sendtoSrom_rise (h : Selects command di) (hclock : s.clock = false)
    (hidle : s.busy = 0) :
    sendtoSrom s (command ||| dtClk) = (s.select.shift di).withClock true := by
  have hserial : (command ||| dtClk).getLsbD 11 = true := by
    rw [BitVec.getLsbD_or, h.serial]
    rfl
  have hselect : (command ||| dtClk).getLsbD 0 = true := by
    rw [BitVec.getLsbD_or, h.select]
    rfl
  have hhigh : (command ||| dtClk).getLsbD 1 = true := by
    rw [BitVec.getLsbD_or, h.clock]
    rfl
  have hdata : (command ||| dtClk).getLsbD 2 = di := by
    rw [BitVec.getLsbD_or, h.data, show dtClk.getLsbD 2 = false from rfl, Bool.or_false]
  unfold sendtoSrom Microwire.lines
  rw [hserial, hselect, hhigh, hdata, hclock, hidle]
  rfl

theorem sendtoSrom_rise_ready (h : Selects command di) (hready : s.Ready)
    (hclock : s.clock = false) :
    sendtoSrom s (command ||| dtClk) = (s.shift di).withClock true := by
  rw [sendtoSrom_rise h hclock hready.idle, Microwire.select_of_active hready.active]

theorem sendtoSrom_low_ready (h : Selects command di) (hready : s.Ready) :
    sendtoSrom s command = s.withClock false := by
  rw [sendtoSrom_low h, Microwire.select_of_active hready.active]

theorem sendtoSrom_off (s : Microwire) (hserial : command.getLsbD 11 = true)
    (hselect : command.getLsbD 0 = false) (hclock : command.getLsbD 1 = false) :
    sendtoSrom s command = s.deselect.withClock false := by
  unfold sendtoSrom Microwire.lines
  rw [hserial, hselect, hclock]
  rfl

def Microwire.off (s : Microwire) : Microwire :=
  { s with stage := Stage.standby, clock := false }

def Microwire.begin (s : Microwire) : Microwire :=
  { s with stage := Stage.waiting, clock := false }

theorem sendtoSrom_off_resting (hrest : s.Resting) (hserial : command.getLsbD 11 = true)
    (hselect : command.getLsbD 0 = false) (hclock : command.getLsbD 1 = false) :
    sendtoSrom s command = s.off := by
  have hdeselect : s.deselect = { s with stage := Stage.standby } := by
    unfold Microwire.deselect
    split
    · rename_i hstage
      exact absurd hstage (hrest.nothing _ _)
    · rfl
  rw [sendtoSrom_off s hserial hselect hclock, hdeselect]
  rfl

theorem sromLatch_ready (h : Selects command di) (hready : s.Ready) (hclock : s.clock = false) :
    sromLatch s command = s.shift di := by
  have hlow : sendtoSrom s command = s := by
    rw [sendtoSrom_low_ready h hready]
    exact Microwire.withClock_self hclock
  have hend : sendtoSrom ((s.shift di).withClock true) command = s.shift di := by
    rw [sendtoSrom_low_ready h ((hready.shift di).withClock true)]
    exact Microwire.withClock_self (Microwire.shift_clock hclock di)
  unfold sromLatch
  rw [hlow, sendtoSrom_rise_ready h hready hclock, hend]

theorem begin_ready (hidle : s.busy = 0) : s.begin.Ready :=
  ⟨by simp [Microwire.begin], hidle⟩

theorem sendtoSrom_select (h : Selects command di) : sendtoSrom s.off command = s.begin := by
  rw [sendtoSrom_low h]
  rfl

theorem sromLatch_begin (h : Selects command false) (hidle : s.busy = 0) :
    sromLatch s.off command = s.begin := by
  have hlatch := sromLatch_ready h (begin_ready hidle) rfl
  have hagain : sendtoSrom s.begin command = s.begin := by
    rw [sendtoSrom_low_ready h (begin_ready hidle)]
    rfl
  unfold sromLatch at hlatch ⊢
  rw [hagain] at hlatch
  rw [sendtoSrom_select h, hlatch]
  rfl

/-!
# Commands
-/

theorem foldl_shiftIn_word {w : Nat} (v : BitVec w) : (msbFirst v).foldl shiftIn 0#w = v := by
  have hword := foldl_shiftIn_msbFirst 0#w [] v (Nat.le_refl w)
  rw [List.nil_append, BitVec.setWidth_eq] at hword
  exact hword

/-- The chip sends the word of an address, with a bit in front. -/
def Microwire.reading (s : Microwire) (addr : BitVec 6) : Microwire :=
  { s with
    stage := Stage.sending (false :: msbFirst (s.cells addr))
    status := false
    clock := false }

def Microwire.writing (s : Microwire) (addr : BitVec 6) : Microwire :=
  { s with stage := Stage.receiving addr [], status := false, clock := false }

def Microwire.opened (s : Microwire) : Microwire :=
  { s with enabled := true, stage := Stage.done, status := false, clock := false }

theorem msbFirst_six (addr : BitVec 6) :
    msbFirst addr = [addr.getLsbD 5, addr.getLsbD 4, addr.getLsbD 3, addr.getLsbD 2,
      addr.getLsbD 1, addr.getLsbD 0] := by
  simp [msbFirst, List.range_succ]

/-- A start bit, the two bits of a command and the six of an address. -/
theorem begin_command (s : Microwire) (op1 op0 : Bool) (addr : BitVec 6) :
    s.begin.clockIn ([true, op1, op0] ++ msbFirst addr) =
      ({ s with
        stage := Stage.command [op1, op0, addr.getLsbD 5, addr.getLsbD 4, addr.getLsbD 3,
          addr.getLsbD 2, addr.getLsbD 1]
        status := false
        clock := false } : Microwire).execute op1 op0 addr := by
  have hword := foldl_shiftIn_word addr
  rw [msbFirst_six] at hword ⊢
  simp only [Microwire.clockIn, Microwire.begin, Microwire.shift, List.foldl_cons,
    List.foldl_nil, List.nil_append, List.cons_append, if_true] at hword ⊢
  rw [hword]

theorem begin_reading (s : Microwire) (addr : BitVec 6) :
    s.begin.clockIn ([true, true, false] ++ msbFirst addr) = s.reading addr := by
  rw [begin_command]
  rfl

theorem begin_writing (s : Microwire) (addr : BitVec 6) :
    s.begin.clockIn ([true, false, true] ++ msbFirst addr) = s.writing addr := by
  rw [begin_command]
  rfl

theorem begin_opened (s : Microwire) :
    s.begin.clockIn ([true, false, false] ++ msbFirst 63#6) = s.opened := by
  rw [begin_command]
  rfl

/-!
# The sequences of `dc_srom.c`
-/

theorem selects_data (h : Selects command false) (bit : Bool) :
    Selects (command ||| (if bit then dtIn else 0#32)) bit := by
  cases bit with
  | true =>
      constructor
      · rw [BitVec.getLsbD_or, h.serial]
        rfl
      · rw [BitVec.getLsbD_or, h.select]
        rfl
      · rw [BitVec.getLsbD_or, h.clock]
        rfl
      · rw [BitVec.getLsbD_or, h.data]
        rfl
  | false =>
      rw [if_neg Bool.false_ne_true, BitVec.or_zero]
      exact h

theorem getfromSrom_idle (hidle : s.busy = 0) : getfromSrom s = (s.output, s) := by
  have hsame : { s with busy := s.busy - 1 } = s := by
    have hbusy : s.busy - 1 = s.busy := by omega
    rw [hbusy]
  unfold getfromSrom
  rw [hsame]

def topBits : Nat -> Byte -> List Bool
  | 0, _ => []
  | n + 1, a => a.getLsbD 7 :: topBits n (a <<< 1)

theorem topBits_address (offset : Byte) :
    topBits 6 (offset <<< 2) = msbFirst (offset.setWidth 6) := by
  simp [topBits, msbFirst, List.range_succ]

theorem addressLoop_ready (h : Selects command false) (n : Nat) (a : Byte) (hready : s.Ready)
    (hclock : s.clock = false) :
    addressLoop command n a s = s.clockIn (topBits n a) := by
  induction n generalizing a s with
  | zero =>
      rfl
  | succ n ih =>
      unfold addressLoop
      rw [sromLatch_ready (selects_data h _) hready hclock,
        ih (a <<< 1) (hready.shift _) (Microwire.shift_clock hclock _)]
      rfl

theorem sromAddress_ready (h : Selects command false) (offset : Byte) (hready : s.Ready)
    (hclock : s.clock = false) :
    sromAddress s command offset = s.clockIn (msbFirst (offset.setWidth 6)) := by
  unfold sromAddress
  rw [addressLoop_ready h 6 _ hready hclock, topBits_address,
    getfromSrom_idle (hready.clockIn _).idle]

def Microwire.sends (s : Microwire) (bits : List Bool) : Microwire :=
  { s with stage := Stage.sending bits, status := false, clock := false }

theorem sends_ready (hidle : s.busy = 0) (bits : List Bool) : (s.sends bits).Ready :=
  ⟨by simp [Microwire.sends], hidle⟩

theorem sends_resting (hidle : s.busy = 0) (bits : List Bool) : (s.sends bits).Resting :=
  ⟨fun addr word h => (by cases h), hidle⟩

theorem readLoopWord_sends (h : Selects command false) (hidle : s.busy = 0) (bit : Bool)
    (bits : List Bool) (word : BitVec 16) :
    exists last, readLoopWord command bits.length word (s.sends (bit :: bits)) =
      (bits.foldl shiftIn word, s.sends [last]) := by
  induction bits generalizing bit word with
  | nil =>
      exact ⟨bit, rfl⟩
  | cons next bits ih =>
      rcases ih next (shiftIn word next) with ⟨last, hrest⟩
      refine ⟨last, ?_⟩
      have hrise : sendtoSrom (s.sends (bit :: next :: bits)) (command ||| dtClk) =
          (s.sends (next :: bits)).withClock true := by
        rw [sendtoSrom_rise_ready h (sends_ready hidle _) rfl]
        rfl
      have hget : getfromSrom ((s.sends (next :: bits)).withClock true) =
          (next, (s.sends (next :: bits)).withClock true) := getfromSrom_idle hidle
      have hlow : sendtoSrom ((s.sends (next :: bits)).withClock true) command =
          s.sends (next :: bits) := by
        rw [sendtoSrom_low_ready h ((sends_ready hidle _).withClock true)]
        rfl
      rw [List.length_cons, readLoopWord, hrise, hget, hlow, hrest]
      rfl

/-- The chip is at rest again, and its cells are as they were. -/
def Microwire.rested (s : Microwire) : Microwire :=
  { s with stage := Stage.standby, status := false, clock := false }

theorem rested_resting (hidle : s.busy = 0) : s.rested.Resting :=
  ⟨fun addr word h => (by cases h), hidle⟩

theorem sromRdWord_cell (hrest : s.Resting) (offset : Byte) :
    sromRdWord s offset = (s.cells (offset.setWidth 6), s.rested) := by
  have hidle := hrest.idle
  have hready := begin_ready hidle
  have hselects : Selects (sromRd ||| sromSr ||| dtCs) false := by constructor <;> decide
  have hstart : Selects (sromRd ||| sromSr ||| dtIn ||| dtCs) true := by constructor <;> decide
  have hlow : Selects (((sromRd ||| sromSr ||| dtIn ||| dtCs) &&& 0x0000ff00#32) ||| dtCs)
      false := by constructor <;> decide
  have hcommand : sromCommandRd s.begin (sromRd ||| sromSr ||| dtIn ||| dtCs) =
      s.begin.clockIn [true, true, false] := by
    unfold sromCommandRd
    rw [sromLatch_ready hstart hready rfl,
      sromLatch_ready hstart (hready.shift true) (Microwire.shift_clock rfl _),
      sromLatch_ready hlow ((hready.shift true).shift true)
        (Microwire.shift_clock (Microwire.shift_clock rfl _) _)]
    rfl
  have haddress := sromAddress_ready hselects offset (hready.clockIn [true, true, false])
    (Microwire.clockIn_clock rfl _)
  rw [← Microwire.clockIn_append, begin_reading] at haddress
  have hsends : s.reading (offset.setWidth 6) =
      s.sends (false :: msbFirst (s.cells (offset.setWidth 6))) := rfl
  unfold sromRdWord
  dsimp only
  rw [sendtoSrom_off_resting hrest (by decide) (by decide) (by decide),
    sromLatch_begin hselects hidle, hcommand, haddress, hsends]
  rcases readLoopWord_sends hselects hidle false (msbFirst (s.cells (offset.setWidth 6)))
    0#16 with ⟨last, hread⟩
  rw [msbFirst_length, foldl_shiftIn_word] at hread
  unfold sromDataRd
  rw [hread]
  dsimp only
  rw [sendtoSrom_off_resting (sends_resting hidle [last]) (by decide) (by decide) (by decide)]
  rfl

theorem loadWords_cells (hrest : s.Resting) (left : Nat) (offset : Byte) :
    (loadWords left offset s).1 = (List.range left).map (fun i =>
      le16ToCpu (s.cells ((offset + BitVec.ofNat 8 i).setWidth 6))) ∧
    (loadWords left offset s).2.Resting ∧ (loadWords left offset s).2.cells = s.cells := by
  induction left generalizing offset s with
  | zero =>
      exact ⟨rfl, hrest, rfl⟩
  | succ left ih =>
      rcases ih (rested_resting hrest.idle) (offset + 1#8) with ⟨hwords, hrested, hcells⟩
      unfold loadWords
      rw [sromRdWord_cell hrest]
      refine ⟨?_, hrested, hcells⟩
      rw [List.range_succ_eq_map, List.map_cons, List.map_map, BitVec.add_zero]
      dsimp only
      rw [hwords]
      congr 1
      apply List.map_congr_left
      intro i _
      have hindex : offset + 1#8 + BitVec.ofNat 8 i = offset + BitVec.ofNat 8 (i + 1) := by
        rw [BitVec.add_assoc, BitVec.ofNat_add, BitVec.add_comm 1#8]
      rw [hindex]
      rfl

/-!
# Writing
-/

theorem topBit_data (longVal : BitVec 32) :
    (longVal &&& 0x8000#32) >>> 13 ||| command =
      command ||| (if longVal.getLsbD 15 then dtIn else 0#32) := by
  rw [BitVec.or_comm]
  congr 1
  apply BitVec.eq_of_getLsbD_eq
  intro i hi
  rw [BitVec.getLsbD_ushiftRight, BitVec.getLsbD_and]
  have hmask : forall j, j < 32 -> ((0x8000#32).getLsbD (13 + j) = decide (j = 2)) ∧
      dtIn.getLsbD j = decide (j = 2) := by decide
  rcases hmask i hi with ⟨hbit, hdata⟩
  rw [hbit]
  by_cases htwo : i = 2
  · rw [htwo]
    cases longVal.getLsbD 15 with
    | true =>
        rfl
    | false =>
        rfl
  · rw [decide_eq_false htwo, Bool.and_false]
    split
    · rw [hdata, decide_eq_false htwo]
    · exact (BitVec.getLsbD_zero).symm

def wordBits : Nat -> BitVec 32 -> List Bool
  | 0, _ => []
  | n + 1, longVal => longVal.getLsbD 15 :: wordBits n (longVal <<< 1)

theorem wordBits_word (v : BitVec 16) : wordBits 16 (v.setWidth 32) = msbFirst v := by
  simp [wordBits, msbFirst, List.range_succ]

theorem writeLoopWord_ready (h : Selects command false) (n : Nat) (longVal : BitVec 32)
    (hready : s.Ready) (hclock : s.clock = false) :
    writeLoopWord command n longVal s = s.clockIn (wordBits n longVal) := by
  induction n generalizing longVal s with
  | zero =>
      rfl
  | succ n ih =>
      have hlatch := sromLatch_ready (selects_data h (longVal.getLsbD 15)) hready hclock
      unfold sromLatch at hlatch
      unfold writeLoopWord
      dsimp only
      rw [topBit_data, hlatch, ih (longVal <<< 1) (hready.shift _)
        (Microwire.shift_clock hclock _)]
      rfl

theorem clockIn_receiving (addr : BitVec 6) (done bits : List Bool) (hsome : bits ≠ [])
    (hlength : done.length + bits.length = 16) :
    ({ s with stage := Stage.receiving addr done } : Microwire).clockIn bits =
      { s with stage := Stage.received addr ((done ++ bits).foldl shiftIn 0#16) } := by
  induction bits generalizing done with
  | nil =>
      exact absurd rfl hsome
  | cons bit bits ih =>
      rw [List.length_cons] at hlength
      cases bits with
      | nil =>
          have hlast : done.length = 15 := by
            rw [List.length_nil] at hlength
            omega
          unfold Microwire.clockIn
          rw [List.foldl_cons, List.foldl_nil]
          unfold Microwire.shift
          dsimp only
          rw [if_pos hlast]
      | cons next bits =>
          have hmore : ¬ done.length = 15 := by
            rw [List.length_cons] at hlength
            omega
          have hnext := ih (done ++ [bit]) (List.cons_ne_nil _ _)
            (by rw [List.length_append, List.length_singleton]; omega)
          rw [List.append_assoc, List.singleton_append] at hnext
          rw [← hnext]
          have hshift : ({ s with stage := Stage.receiving addr done } : Microwire).shift bit =
              { s with stage := Stage.receiving addr (done ++ [bit]) } := by
            unfold Microwire.shift
            dsimp only
            rw [if_neg hmore]
          unfold Microwire.clockIn
          rw [List.foldl_cons, hshift]

theorem pollReady_busy (n : Nat) (hstatus : s.status = true) :
    (s.busy < n -> pollReady n s = (true, { s with busy := 0 })) ∧
      (n <= s.busy -> (pollReady n s).1 = false) := by
  induction n generalizing s with
  | zero =>
      exact ⟨fun h => absurd h (Nat.not_lt_zero _), fun _ => rfl⟩
  | succ n ih =>
      have houtput : s.output = decide (s.busy = 0) := by
        unfold Microwire.output
        rw [hstatus]
        rfl
      unfold pollReady
      by_cases hidle : s.busy = 0
      · have hready : s.output = true := by
          rw [houtput, hidle]
          rfl
        rw [getfromSrom_idle hidle]
        dsimp only
        rw [hready, if_pos rfl]
        refine ⟨fun _ => ?_, fun h => absurd h (by omega)⟩
        rw [← hidle]
      · have hbusy : s.output = false := by
          rw [houtput]
          exact decide_eq_false hidle
        unfold getfromSrom
        dsimp only
        rw [hbusy, if_neg Bool.false_ne_true]
        rcases @ih { s with busy := s.busy - 1 } hstatus with ⟨hshort, hlong⟩
        dsimp only at hshort hlong
        exact ⟨fun h => hshort (by omega), fun h => hlong (by omega)⟩

def Microwire.written (s : Microwire) (addr : BitVec 6) (word : BitVec 16) : Microwire :=
  { s with
    cells := fun a => if a = addr then word else s.cells a
    enabled := true
    stage := Stage.waiting
    status := true
    busy := 0
    writes := s.writes + 1
    clock := false }

theorem written_resting (s : Microwire) (addr : BitVec 6) (word : BitVec 16) :
    (s.written addr word).Resting :=
  ⟨fun addr word h => (by cases h), rfl⟩

theorem sromWrEnable_opened (hrest : s.Resting) : sromWrEnable s = s.opened := by
  have hready := begin_ready hrest.idle
  have hselects : Selects (sromWr ||| sromSr ||| dtCs) false := by constructor <;> decide
  have hdata : Selects (sromWr ||| sromSr ||| dtIn ||| dtCs) true := by constructor <;> decide
  have htimes : forall (n : Nat) (t : Microwire), t.Ready -> t.clock = false ->
      latchTimes (sromWr ||| sromSr ||| dtIn ||| dtCs) n t =
        t.clockIn (List.replicate n true) := by
    intro n
    induction n with
    | zero =>
        intro t _ _
        rfl
    | succ n ih =>
        intro t ht hclock
        unfold latchTimes
        rw [sromLatch_ready hdata ht hclock,
          ih _ (ht.shift true) (Microwire.shift_clock hclock true)]
        rfl
  have hones : msbFirst 63#6 = List.replicate 6 true := by decide
  have hopened := begin_opened s
  rw [Microwire.clockIn_append, hones] at hopened
  unfold sromWrEnable
  dsimp only
  rw [sendtoSrom_off_resting hrest (by decide) (by decide) (by decide),
    sromLatch_begin hselects hrest.idle, sromLatch_ready hdata hready rfl,
    sromLatch_ready hselects (hready.shift true) (Microwire.shift_clock rfl _),
    sromLatch_ready hselects ((hready.shift true).shift false)
      (Microwire.shift_clock (Microwire.shift_clock rfl _) _),
    htimes 6 _ (((hready.shift true).shift false).shift false)
      (Microwire.shift_clock (Microwire.shift_clock (Microwire.shift_clock rfl _) _) _)]
  exact hopened

def Microwire.programming (s : Microwire) (addr : BitVec 6) (word : BitVec 16) : Microwire :=
  { s.written addr word with busy := s.cycles s.writes }

theorem received_programming (h : Selects command false) (addr : BitVec 6) (word : BitVec 16) :
    sendtoSrom (sendtoSrom ({ s.opened with stage := Stage.received addr word } : Microwire)
      (command &&& 0x0000ff00#32)) command = s.programming addr word := by
  have hserial : (command &&& 0x0000ff00#32).getLsbD 11 = true := by
    rw [BitVec.getLsbD_and, h.serial]
    rfl
  have hselect : (command &&& 0x0000ff00#32).getLsbD 0 = false := by
    rw [BitVec.getLsbD_and, h.select]
    rfl
  have hclock : (command &&& 0x0000ff00#32).getLsbD 1 = false := by
    rw [BitVec.getLsbD_and, h.clock]
    rfl
  rw [sendtoSrom_off _ hserial hselect hclock, sendtoSrom_low h]
  rfl

theorem sromWrWord_cell (hrest : s.Resting) (offset : Byte) (val : BitVec 16) :
    (s.cycles s.writes < 100 -> sromWrWord s offset val =
        (0, s.written (offset.setWidth 6) (le16ToCpu val))) ∧
      (100 <= s.cycles s.writes -> (sromWrWord s offset val).1 = -1) := by
  have hidle : s.opened.busy = 0 := hrest.idle
  have hready := begin_ready hidle
  have hopened : s.opened.Resting := ⟨fun addr word h => (by cases h), hidle⟩
  have hselects : Selects (sromWr ||| sromSr ||| dtCs) false := by constructor <;> decide
  have hdata : Selects (sromWr ||| sromSr ||| dtIn ||| dtCs) true := by constructor <;> decide
  have hlow : Selects (((sromWr ||| sromSr ||| dtIn ||| dtCs) &&& 0x0000ff00#32) ||| dtCs)
      false := by constructor <;> decide
  have hcommand : sromCommandWr s.opened.begin (sromWr ||| sromSr ||| dtIn ||| dtCs) =
      s.opened.begin.clockIn [true, false, true] := by
    unfold sromCommandWr
    rw [sromLatch_ready hdata hready rfl,
      sromLatch_ready hlow (hready.shift true) (Microwire.shift_clock rfl _),
      sromLatch_ready hdata ((hready.shift true).shift false)
        (Microwire.shift_clock (Microwire.shift_clock rfl _) _)]
    rfl
  have haddress := sromAddress_ready hselects offset (hready.clockIn [true, false, true])
    (Microwire.clockIn_clock rfl _)
  rw [← Microwire.clockIn_append, begin_writing] at haddress
  generalize offset.setWidth 6 = addr at haddress ⊢
  have hreceived : writeLoopWord (sromWr ||| sromSr ||| dtCs) 16 ((le16ToCpu val).setWidth 32)
      (s.opened.writing addr) =
        { s.opened with stage := Stage.received addr (le16ToCpu val) } := by
    have hbits := @clockIn_receiving s.opened addr [] (msbFirst (le16ToCpu val))
      (fun hnil => by
        have hlength := congrArg List.length hnil
        rw [msbFirst_length] at hlength
        cases hlength)
      (by rw [msbFirst_length]; rfl)
    rw [List.nil_append, foldl_shiftIn_word] at hbits
    have hwriting : (s.opened.writing addr).Ready := ⟨by simp [Microwire.writing], hidle⟩
    rw [writeLoopWord_ready hselects 16 _ hwriting rfl, wordBits_word]
    exact hbits
  have hpoll := @pollReady_busy (s.programming addr (le16ToCpu val)) 100 rfl
  have hrun : sromWrWord s offset val =
      (if (pollReady 100 (s.programming addr (le16ToCpu val))).1 then 0 else -1,
        (pollReady 100 (s.programming addr (le16ToCpu val))).2) := by
    unfold sromWrWord
    dsimp only
    rw [sromWrEnable_opened hrest,
      sendtoSrom_off_resting hopened (by decide) (by decide) (by decide),
      sromLatch_begin hselects hidle, hcommand, haddress]
    unfold sromDataWr
    dsimp only
    rw [hreceived, received_programming hselects]
  constructor
  · intro hshort
    rw [hrun, hpoll.left hshort]
    rfl
  · intro hlong
    rw [hrun, hpoll.right hlong]
    rfl

def storedCells (cells : BitVec 6 -> BitVec 16) (src : List (BitVec 16)) (offset : Nat) :
    BitVec 6 -> BitVec 16 :=
  fun a => if offset <= a.toNat ∧ a.toNat < offset + src.length then
    le16ToCpu (src.getD (a.toNat - offset) 0#16) else cells a

/-- `dc_srom_store` writes all words, or the chip is busy for all polls of one of them. -/
theorem storeWords_cells (hrest : s.Resting) (src : List (BitVec 16)) (offset : Nat)
    (hspace : offset + src.length <= 64) :
    ((storeWords src (BitVec.ofNat 8 offset) s).1 = 0 ∧
        (forall i, i < src.length -> s.cycles (s.writes + i) < 100) ∧
        (storeWords src (BitVec.ofNat 8 offset) s).2.Resting ∧
        (storeWords src (BitVec.ofNat 8 offset) s).2.cells = storedCells s.cells src offset) ∨
      ((storeWords src (BitVec.ofNat 8 offset) s).1 = -1 ∧
        exists i, i < src.length ∧ 100 <= s.cycles (s.writes + i)) := by
  induction src generalizing s offset with
  | nil =>
      refine Or.inl ⟨rfl, fun i hi => absurd hi (Nat.not_lt_zero i), hrest, ?_⟩
      funext a
      exact (if_neg (fun h => absurd h.right (Nat.not_lt.mpr h.left))).symm
  | cons word src ih =>
      rw [List.length_cons] at hspace
      rcases sromWrWord_cell hrest (BitVec.ofNat 8 offset) word with ⟨hshort, hlong⟩
      have haddr : (BitVec.ofNat 8 offset).setWidth 6 = BitVec.ofNat 6 offset := by
        apply BitVec.eq_of_toNat_eq
        rw [BitVec.toNat_setWidth, BitVec.toNat_ofNat, BitVec.toNat_ofNat]
        omega
      unfold storeWords
      dsimp only
      by_cases hcycle : s.cycles s.writes < 100
      · rw [hshort hcycle, haddr, if_neg (show ¬ (0 : Int) = -1 by decide), ← BitVec.ofNat_add]
        have hnext := ih (written_resting s (BitVec.ofNat 6 offset) (le16ToCpu word))
          (offset + 1) (by omega)
        have hshift : forall i, s.writes + 1 + i = s.writes + (i + 1) := by
          intro i
          omega
        rcases hnext with ⟨hcode, hcycles, hrested, hcells⟩ | ⟨hcode, i, hi, hbusy⟩
        · refine Or.inl ⟨hcode, ?_, hrested, ?_⟩
          · intro i hi
            cases i with
            | zero =>
                exact hcycle
            | succ i =>
                rw [← hshift]
                exact hcycles i (Nat.lt_of_succ_lt_succ hi)
          · rw [hcells]
            funext a
            have hsame : a = BitVec.ofNat 6 offset ↔ a.toNat = offset := by
              rw [← BitVec.toNat_inj, BitVec.toNat_ofNat, Nat.mod_eq_of_lt (by omega)]
            unfold storedCells Microwire.written
            dsimp only
            rw [List.length_cons]
            by_cases hhere : a.toNat = offset
            · rw [if_neg (by omega), if_pos (hsame.mpr hhere), if_pos (by omega), hhere,
                Nat.sub_self]
              rfl
            · rw [if_neg (fun h => hhere (hsame.mp h))]
              by_cases hlater : offset + 1 <= a.toNat ∧ a.toNat < offset + 1 + src.length
              · rw [if_pos hlater, if_pos (by omega),
                  show a.toNat - offset = (a.toNat - (offset + 1)) + 1 by omega]
                rfl
              · rw [if_neg hlater, if_neg (by omega)]
        · refine Or.inr ⟨hcode, i + 1, Nat.succ_lt_succ hi, ?_⟩
          rw [← hshift]
          exact hbusy
      · rw [if_pos (hlong (Nat.le_of_not_lt hcycle))]
        exact Or.inr ⟨rfl, 0, Nat.succ_pos _, Nat.le_of_not_lt hcycle⟩

end Srom
end Bab750
