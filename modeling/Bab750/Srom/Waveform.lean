import Bab750.Foundation.Transducer
import Bab750.Srom.Bus
import Mathlib.Data.List.Basic

/-!
# The lines of the bus

The accesses of the six routines to `I2C_BUS_DAT` and `I2C_BUS_DIR`, the levels that they
put on SCLK and SDIO, and the bus conditions that these levels mean. A line that is not an
output is pulled up, or SDIO is held by the slave.
-/

namespace Bab750
namespace Srom

open Foundation

/-!
# Accesses
-/

/-- `out8` to one of the ports, or `in8` from `I2C_BUS_DAT`. -/
inductive Access where
  | dat (v : Byte)
  | dir (v : Byte)
  | sample
deriving Repr, DecidableEq

def dataLow (bit : Bool) : Byte := if bit then 0x20#8 else 0x00#8

def dataHigh (bit : Bool) : Byte := if bit then 0x60#8 else 0x40#8

/-- `buf & 0x80` -/
def topBit (buf : Byte) : Bool := buf &&& 0x80#8 ≠ 0#8

def eepStartAccesses : List Access :=
  [Access.dat 0x60#8, Access.dir 0x60#8, Access.dat 0x40#8, Access.dat 0x00#8]

def eepStopAccesses : List Access :=
  [Access.dat 0x00#8, Access.dir 0x60#8, Access.dat 0x40#8, Access.dat 0x60#8,
    Access.dir 0x00#8]

/-- The loop of `eepReadByte`. -/
def readLoop : Nat -> List Access
  | 0 => []
  | i + 1 =>
      [Access.dat 0x00#8, Access.dat 0x40#8, Access.sample, Access.dat 0x00#8] ++ readLoop i

def eepReadByteAccesses : List Access := Access.dir 0x40#8 :: readLoop 8

/-- The loop of `eepWriteByte`. -/
def writeLoop : Nat -> Byte -> List Access
  | 0, _ => []
  | i + 1, buf =>
      [Access.dat (dataLow (topBit buf)), Access.dat (dataHigh (topBit buf)),
        Access.dat (dataLow (topBit buf))] ++ writeLoop i (buf <<< 1)

def eepWriteByteAccesses (buf : Byte) : List Access :=
  [Access.dat (dataLow (topBit buf)), Access.dir 0x60#8] ++ writeLoop 8 buf

def eepReadAckAccesses : List Access :=
  [Access.dir 0x40#8, Access.dat 0x00#8, Access.dat 0x40#8, Access.sample,
    Access.dat 0x00#8]

def eepWriteAckAccesses (ack : Bool) : List Access :=
  [Access.dat (dataLow ack), Access.dir 0x60#8, Access.dat (dataHigh ack),
    Access.dat (dataLow ack)]

def Slot.accesses : Slot -> List Access
  | Slot.start => eepStartAccesses
  | Slot.stop => eepStopAccesses
  | Slot.write b => eepWriteByteAccesses b
  | Slot.ack _ => eepReadAckAccesses
  | Slot.read _ => eepReadByteAccesses
  | Slot.writeAck level => eepWriteAckAccesses level

/-- What `eepReadByte` makes of its samples. -/
def assemble (samples : List Bool) : Byte :=
  samples.foldl (fun buf bit => if bit then (buf <<< 1) ||| 0x01#8 else (buf <<< 1) &&& 0xfe#8)
    0x00#8

/-!
# Levels
-/

/-- The ports, and the level of the slave for each period of SCLK from now on. -/
structure Wires where
  dat : Byte
  dir : Byte
  levels : List Bool

def Wires.clock (s : Wires) : Bool := if s.dir.getLsbD 6 then s.dat.getLsbD 6 else true

def Wires.driven (s : Wires) : Bool := s.dir.getLsbD 5

def Wires.data (s : Wires) : Bool := if s.driven then s.dat.getLsbD 5 else s.levels.headD true

structure Moment where
  clock : Bool
  driven : Bool
  data : Bool
  sampled : Bool
deriving Repr, DecidableEq

def Wires.moment (s : Wires) (sampled : Bool) : Moment := ⟨s.clock, s.driven, s.data, sampled⟩

/-- The slave goes on to its next level when SCLK falls. -/
def Wires.settle (s new : Wires) : Wires :=
  if s.clock && !new.clock then { new with levels := new.levels.tail } else new

def Wires.access (s : Wires) : Access -> List Moment × Wires
  | Access.dat v => ([(s.settle { s with dat := v }).moment false], s.settle { s with dat := v })
  | Access.dir v => ([(s.settle { s with dir := v }).moment false], s.settle { s with dir := v })
  | Access.sample => ([s.moment true], s)

def msbBits (b : Byte) : List Bool := (List.range 8).map (fun i => b.getLsbD (7 - i))

/-- The slave releases SDIO but for its acknowledges and its data. -/
def Slot.levels : Slot -> List Bool
  | Slot.start => [true]
  | Slot.stop => []
  | Slot.write _ => List.replicate 8 true
  | Slot.ack level => [level]
  | Slot.read b => msbBits b
  | Slot.writeAck _ => [true]

def slotWave (s : Wires) (slot : Slot) : List (Slot × List Moment) × Wires :=
  ([(slot, (feed Wires.access s slot.accesses).1)], (feed Wires.access s slot.accesses).2)

/-- No line is driven, whatever `I2C_BUS_DAT` holds. -/
def idleWires (dat : Byte) (levels : List Bool) : Wires := ⟨dat, 0x00#8, levels⟩

/-- The lines during a whole run from the idle bus on. -/
def waves (dat : Byte) (slots : List Slot) : List (Slot × List Moment) :=
  (feed slotWave (idleWires dat (slots.flatMap Slot.levels)) slots).1

/-!
# Bus conditions
-/

inductive Condition where
  | start
  | stop
  | bit (level : Bool)
deriving Repr, DecidableEq

/-- SCLK is low, or it is high with a level of SDIO, and the pulse may still be a bit. -/
inductive Watch where
  | low
  | high (data pulse : Bool)
deriving Repr, DecidableEq

/-- SDIO changes at a high SCLK for a start or a stop; all other pulses are bits. -/
def watchLines : Watch -> Moment -> List Condition × Watch
  | Watch.low, m => ([], if m.clock then Watch.high m.data true else Watch.low)
  | Watch.high data pulse, m =>
      if m.clock then
        if m.data = data then ([], Watch.high data pulse)
        else ([if m.data then Condition.stop else Condition.start], Watch.high m.data false)
      else (if pulse then [Condition.bit data] else [], Watch.low)

def idleWatch : Watch := Watch.high true false

def Slot.conditions : Slot -> List Condition
  | Slot.start => [Condition.start]
  | Slot.stop => [Condition.stop]
  | Slot.write b => (msbBits b).map Condition.bit
  | Slot.ack level => [Condition.bit level]
  | Slot.read b => (msbBits b).map Condition.bit
  | Slot.writeAck level => [Condition.bit level]

/-- What `in8` has to give. -/
def Slot.samples : Slot -> List Bool
  | Slot.ack level => [level]
  | Slot.read b => msbBits b
  | _ => []

def samplesOf (moments : List Moment) : List Bool :=
  (moments.filter (fun m => m.sampled)).map (fun m => m.data)

def Slot.released : Slot -> Bool
  | Slot.ack _ => true
  | Slot.read _ => true
  | _ => false

/-!
# Bits of a byte
-/

theorem topBit_eq (buf : Byte) : topBit buf = buf.getLsbD 7 := by
  have htop : buf &&& 0x80#8 = if buf.getLsbD 7 then 0x80#8 else 0#8 := by
    apply BitVec.eq_of_getLsbD_eq
    intro i hi
    have hmask : forall j : Fin 8, (0x80#8).getLsbD j = decide (j.val = 7) := by decide
    have hmaski : (0x80#8).getLsbD i = decide (i = 7) := hmask ⟨i, hi⟩
    rw [BitVec.getLsbD_and, hmaski]
    by_cases h7 : i = 7
    · subst h7
      cases buf.getLsbD 7 with
      | false =>
          rfl
      | true =>
          rfl
    · cases buf.getLsbD 7 with
      | false =>
          simp [h7]
      | true =>
          simp [h7, hmaski]
  unfold topBit
  rw [htop]
  cases buf.getLsbD 7 with
  | false =>
      rfl
  | true =>
      rfl

/-- The bits that the loop of `eepWriteByte` takes. -/
def loopBits : Nat -> Byte -> List Bool
  | 0, _ => []
  | i + 1, buf => topBit buf :: loopBits i (buf <<< 1)

theorem loopBits_eq (n : Nat) :
    forall buf, n <= 8 -> loopBits n buf = (List.range n).map (fun i => buf.getLsbD (7 - i)) := by
  induction n with
  | zero =>
      intro buf _
      rfl
  | succ n ih =>
      intro buf hn
      rw [loopBits, ih (buf <<< 1) (by omega), List.range_succ_eq_map, List.map_cons,
        List.map_map, topBit_eq]
      congr 1
      apply List.map_congr_left
      intro i hi
      have hlt := List.mem_range.mp hi
      rw [BitVec.getLsbD_shiftLeft, Function.comp_apply]
      have hindex : 7 - i - 1 = 7 - i.succ := by omega
      simp [show 7 - i < 8 by omega, show ¬ 7 - i < 1 by omega, hindex]

theorem loopBits_eight (buf : Byte) : loopBits 8 buf = msbBits buf :=
  loopBits_eq 8 buf (Nat.le_refl 8)

theorem msbBits_injective {b c : Byte} (h : msbBits b = msbBits c) : b = c := by
  apply BitVec.eq_of_getLsbD_eq
  intro i hi
  have hget := congrArg (fun bits => bits[7 - i]?) h
  simpa [msbBits, show 7 - i < 8 by omega, show 7 - (7 - i) = i by omega] using hget

theorem assemble_msbBits (b : Byte) : assemble (msbBits b) = b := by
  have hall : forall b7 b6 b5 b4 b3 b2 b1 b0 : Bool,
      msbBits (assemble [b7, b6, b5, b4, b3, b2, b1, b0]) =
        [b7, b6, b5, b4, b3, b2, b1, b0] := by decide
  exact msbBits_injective (hall _ _ _ _ _ _ _ _)

/-!
# One slot
-/

def Wires.Low (s : Wires) : Prop := s.dir.getLsbD 6 = true ∧ s.dat.getLsbD 6 = false

/--
What some accesses mean and what they read, and the lines that they lead to; with
`released`, the master does not drive SDIO.
-/
structure Traces (s : Wires) (w : Watch) (accesses : List Access) (released : Bool)
    (conditions : List Condition) (samples : List Bool) (s' : Wires) (w' : Watch) : Prop where
  wires : (feed Wires.access s accesses).2 = s'
  watch : feed watchLines w (feed Wires.access s accesses).1 = (conditions, w')
  samples : samplesOf (feed Wires.access s accesses).1 = samples
  driven : released = true -> forall m, m ∈ (feed Wires.access s accesses).1 -> m.driven = false

theorem Traces.append {s s1 s2 : Wires} {w w1 w2 : Watch} {first second : List Access}
    {released : Bool} {c1 c2 : List Condition} {l1 l2 : List Bool}
    (h1 : Traces s w first released c1 l1 s1 w1)
    (h2 : Traces s1 w1 second released c2 l2 s2 w2) :
    Traces s w (first ++ second) released (c1 ++ c2) (l1 ++ l2) s2 w2 := by
  have hfeed : feed Wires.access s (first ++ second) =
      ((feed Wires.access s first).1 ++ (feed Wires.access s1 second).1, s2) := by
    rw [feed_append, h1.wires, h2.wires]
  constructor
  · rw [hfeed]
  · rw [hfeed, feed_append, h1.watch, h2.watch]
  · rw [hfeed, <- h1.samples, <- h2.samples]
    simp [samplesOf]
  · intro hreleased m hm
    rw [hfeed] at hm
    rcases List.mem_append.mp hm with hm | hm
    · exact h1.driven hreleased m hm
    · exact h2.driven hreleased m hm

theorem Traces.of_feed {s s' : Wires} {w w' : Watch} {accesses : List Access}
    {released : Bool} {conditions : List Condition} {samples : List Bool}
    {moments : List Moment} (h : feed Wires.access s accesses = (moments, s'))
    (hwatch : feed watchLines w moments = (conditions, w'))
    (hsamples : samplesOf moments = samples)
    (hdriven : released = true -> moments.all (fun m => !m.driven) = true) :
    Traces s w accesses released conditions samples s' w' := by
  constructor
  · rw [h]
  · rw [h]
    exact hwatch
  · rw [h]
    exact hsamples
  · intro hreleased m hm
    rw [h] at hm
    simpa using List.all_eq_true.mp (hdriven hreleased) m hm

section Pulses

attribute [local simp] feed Wires.access Wires.settle Wires.moment Wires.clock Wires.driven
  Wires.data dataLow dataHigh

theorem low_clock {s : Wires} (h : s.Low) : s.clock = false := by
  rw [Wires.clock, h.1, if_pos rfl, h.2]

theorem settle_low {s : Wires} (h : s.Low) (new : Wires) : s.settle new = new := by
  rw [Wires.settle, low_clock h]
  rfl

theorem take_data {s : Wires} (h : s.Low) (bit : Bool) :
    Traces s Watch.low [Access.dat (dataLow bit), Access.dir 0x60#8] false [] []
      ⟨dataLow bit, 0x60#8, s.levels⟩ Watch.low := by
  have hbit : (dataLow bit).getLsbD 6 = false := by
    cases bit with
    | false =>
        decide
    | true =>
        decide
  have hlow : ({ s with dat := dataLow bit } : Wires).Low := ⟨h.1, hbit⟩
  have hdir : (0x60#8).getLsbD 6 = true := by decide
  have hlow' : Wires.Low ⟨dataLow bit, 0x60#8, s.levels⟩ := ⟨hdir, hbit⟩
  apply Traces.of_feed
  · simp only [feed, Wires.access, settle_low h, settle_low hlow, Wires.moment, low_clock hlow,
      low_clock hlow']
    rfl
  · rfl
  · rfl
  · intro hreleased
    cases hreleased

theorem release_data {s : Wires} (h : s.Low) :
    Traces s Watch.low [Access.dir 0x40#8] true [] [] ⟨s.dat, 0x40#8, s.levels⟩
      Watch.low := by
  have hdir : (0x40#8).getLsbD 6 = true := by decide
  have hlow : ({ s with dir := 0x40#8 } : Wires).Low := ⟨hdir, h.2⟩
  apply Traces.of_feed
  · simp only [feed, Wires.access, settle_low h, Wires.moment, low_clock hlow]
    rfl
  · rfl
  · rfl
  · intro _
    simp

theorem change_data (last bit : Bool) (levels : List Bool) :
    Traces ⟨dataLow last, 0x60#8, levels⟩ Watch.low [Access.dat (dataLow bit)] false [] []
      ⟨dataLow bit, 0x60#8, levels⟩ Watch.low := by
  have hfeed : feed Wires.access ⟨dataLow last, 0x60#8, levels⟩ [Access.dat (dataLow bit)] =
      ([⟨false, true, bit, false⟩], ⟨dataLow bit, 0x60#8, levels⟩) := by
    cases last with
    | false =>
        cases bit with
        | false =>
            simp
        | true =>
            simp
    | true =>
        cases bit with
        | false =>
            simp
        | true =>
            simp
  apply Traces.of_feed hfeed
  · rfl
  · rfl
  · intro hreleased
    cases hreleased

theorem write_pulse (bit : Bool) (rest : List Bool) :
    Traces ⟨dataLow bit, 0x60#8, true :: rest⟩ Watch.low
      [Access.dat (dataHigh bit), Access.dat (dataLow bit)] false
      [Condition.bit bit] [] ⟨dataLow bit, 0x60#8, rest⟩ Watch.low := by
  have hfeed : feed Wires.access ⟨dataLow bit, 0x60#8, true :: rest⟩
      [Access.dat (dataHigh bit), Access.dat (dataLow bit)] =
        ([⟨true, true, bit, false⟩, ⟨false, true, bit, false⟩],
          ⟨dataLow bit, 0x60#8, rest⟩) := by
    cases bit with
    | false =>
        simp
    | true =>
        simp
  apply Traces.of_feed hfeed
  · rfl
  · rfl
  · intro hreleased
    cases hreleased

theorem read_pulse {dat : Byte} (hdat : dat.getLsbD 6 = false) (bit : Bool)
    (rest : List Bool) :
    Traces ⟨dat, 0x40#8, bit :: rest⟩ Watch.low
      [Access.dat 0x00#8, Access.dat 0x40#8, Access.sample, Access.dat 0x00#8] true
      [Condition.bit bit] [bit] ⟨0x00#8, 0x40#8, rest⟩ Watch.low := by
  have hdir : (0x40#8).getLsbD 6 = true := by decide
  have hlow : Wires.Low ⟨dat, 0x40#8, bit :: rest⟩ := ⟨hdir, hdat⟩
  have hfeed : feed Wires.access ⟨dat, 0x40#8, bit :: rest⟩
      [Access.dat 0x00#8, Access.dat 0x40#8, Access.sample, Access.dat 0x00#8] =
        ([⟨false, false, bit, false⟩, ⟨true, false, bit, false⟩, ⟨true, false, bit, true⟩,
            ⟨false, false, rest.headD true, false⟩], ⟨0x00#8, 0x40#8, rest⟩) := by
    rw [feed, Wires.access, settle_low hlow]
    simp
  apply Traces.of_feed hfeed
  · cases bit with
    | false =>
        rfl
    | true =>
        rfl
  · rfl
  · intro _
    rfl

theorem start_low {s : Wires} (h : s.Low) {rest : List Bool} (hlevels : s.levels = true :: rest) :
    Traces s Watch.low eepStartAccesses false [Condition.start] []
      ⟨0x00#8, 0x60#8, rest⟩ Watch.low := by
  have hfeed : feed Wires.access s eepStartAccesses =
      ([⟨true, s.driven, true, false⟩, ⟨true, true, true, false⟩, ⟨true, true, false, false⟩,
          ⟨false, true, false, false⟩], ⟨0x00#8, 0x60#8, rest⟩) := by
    rw [eepStartAccesses, feed, Wires.access, settle_low h]
    have hdir := h.1
    rcases s with ⟨dat, dir, levels⟩
    cases hlevels
    simp at hdir
    simp [hdir]
  apply Traces.of_feed hfeed
  · rfl
  · rfl
  · intro hreleased
    cases hreleased

theorem start_idle (dat : Byte) (rest : List Bool) :
    Traces ⟨dat, 0x00#8, true :: rest⟩ idleWatch eepStartAccesses false [Condition.start] []
      ⟨0x00#8, 0x60#8, rest⟩ Watch.low := by
  have hfeed : feed Wires.access ⟨dat, 0x00#8, true :: rest⟩ eepStartAccesses =
      ([⟨true, false, true, false⟩, ⟨true, true, true, false⟩, ⟨true, true, false, false⟩,
          ⟨false, true, false, false⟩], ⟨0x00#8, 0x60#8, rest⟩) := by
    simp [eepStartAccesses]
  apply Traces.of_feed hfeed
  · rfl
  · rfl
  · intro hreleased
    cases hreleased

theorem stop_pulse {levels : List Bool} (h : levels.headD true = true) :
    Traces ⟨dataLow false, 0x60#8, levels⟩ Watch.low
      [Access.dat 0x40#8, Access.dat 0x60#8, Access.dir 0x00#8] false
      [Condition.stop] [] ⟨0x60#8, 0x00#8, levels⟩ idleWatch := by
  have hfeed : feed Wires.access ⟨dataLow false, 0x60#8, levels⟩
      [Access.dat 0x40#8, Access.dat 0x60#8, Access.dir 0x00#8] =
        ([⟨true, true, false, false⟩, ⟨true, true, true, false⟩, ⟨true, false, true, false⟩],
          ⟨0x60#8, 0x00#8, levels⟩) := by
    rw [List.headD_eq_head?_getD] at h
    simp [h]
  apply Traces.of_feed hfeed
  · rfl
  · rfl
  · intro hreleased
    cases hreleased

end Pulses

theorem writeLoop_traces (n : Nat) (rest : List Bool) :
    forall buf last, exists bit,
      Traces ⟨dataLow last, 0x60#8, List.replicate n true ++ rest⟩ Watch.low (writeLoop n buf)
        false ((loopBits n buf).map Condition.bit) [] ⟨dataLow bit, 0x60#8, rest⟩ Watch.low := by
  induction n with
  | zero =>
      intro buf last
      exact ⟨last, rfl, rfl, rfl, fun _ m hm => by cases hm⟩
  | succ n ih =>
      intro buf last
      rcases ih (buf <<< 1) (topBit buf) with ⟨bit, hrest⟩
      have hchange := change_data last (topBit buf) (true :: (List.replicate n true ++ rest))
      have hpulse := write_pulse (topBit buf) (List.replicate n true ++ rest)
      exact ⟨bit, (hchange.append hpulse).append hrest⟩

theorem readLoop_traces (bits rest : List Bool) :
    forall dat : Byte, dat.getLsbD 6 = false -> exists dat' : Byte, dat'.getLsbD 6 = false ∧
      Traces ⟨dat, 0x40#8, bits ++ rest⟩ Watch.low (readLoop bits.length) true
        (bits.map Condition.bit) bits ⟨dat', 0x40#8, rest⟩ Watch.low := by
  induction bits with
  | nil =>
      intro dat hdat
      exact ⟨dat, hdat, rfl, rfl, rfl, fun _ m hm => by cases hm⟩
  | cons bit bits ih =>
      intro dat hdat
      rcases ih 0x00#8 (by simp) with ⟨dat', hdat', hrest⟩
      exact ⟨dat', hdat', (read_pulse hdat bit (bits ++ rest)).append hrest⟩

theorem low_output (bit : Bool) (levels : List Bool) :
    Wires.Low ⟨dataLow bit, 0x60#8, levels⟩ := by
  cases bit with
  | false =>
      exact ⟨by simp, by simp [dataLow]⟩
  | true =>
      exact ⟨by simp, by simp [dataLow]⟩

theorem low_input (levels : List Bool) : Wires.Low ⟨0x00#8, 0x40#8, levels⟩ :=
  ⟨by simp, by simp⟩

theorem slot_low {s : Wires} (h : s.Low) {slot : Slot} (hslot : slot ≠ Slot.stop)
    {rest : List Bool} (hlevels : s.levels = slot.levels ++ rest) :
    exists s', Traces s Watch.low slot.accesses slot.released slot.conditions slot.samples s'
      Watch.low ∧ s'.Low ∧ s'.levels = rest := by
  cases slot with
  | start =>
      exact ⟨_, start_low h hlevels, low_output false rest, rfl⟩
  | stop =>
      exact absurd rfl hslot
  | write b =>
      have htake := take_data h (topBit b)
      rw [hlevels] at htake
      rcases writeLoop_traces 8 rest b (topBit b) with ⟨bit, hloop⟩
      rw [loopBits_eight] at hloop
      exact ⟨_, htake.append hloop, low_output bit rest, rfl⟩
  | ack level =>
      have hrelease := release_data h
      rw [hlevels] at hrelease
      exact ⟨_, hrelease.append (read_pulse h.2 level rest), low_input rest, rfl⟩
  | read b =>
      have hrelease := release_data h
      rw [hlevels] at hrelease
      rcases readLoop_traces (msbBits b) rest s.dat h.2 with ⟨dat, hdat, hloop⟩
      exact ⟨_, hrelease.append hloop, ⟨by simp, hdat⟩, rfl⟩
  | writeAck level =>
      have htake := take_data h level
      rw [hlevels] at htake
      exact ⟨_, htake.append (write_pulse level rest), low_output level rest, rfl⟩

theorem stop_low {s : Wires} (h : s.Low) (hlevels : s.levels.headD true = true) :
    Traces s Watch.low Slot.stop.accesses false [Condition.stop] []
      ⟨0x60#8, 0x00#8, s.levels⟩ idleWatch :=
  (take_data h false).append (stop_pulse hlevels)

/-!
# All slots
-/

/-- Slots in an order that the routines can follow, and whether the bus is idle behind them. -/
inductive Ordered : List Slot -> Bool -> Prop where
  | idle : Ordered [] true
  | start {slots : List Slot} {idle : Bool} (h : Ordered slots idle) :
      Ordered (slots ++ [Slot.start]) false
  | stop {slots : List Slot} (h : Ordered slots false) : Ordered (slots ++ [Slot.stop]) true
  | other {slots : List Slot} (h : Ordered slots false) {slot : Slot}
      (hslot : slot ≠ Slot.stop) : Ordered (slots ++ [slot]) false

def Seen (p : Slot × List Moment) : Prop :=
  samplesOf p.2 = p.1.samples ∧
    (p.1.released = true -> forall m, m ∈ p.2 -> m.driven = false)

structure WavesTo (dat : Byte) (slots : List Slot) (rest : List Bool) (s : Wires)
    (w : Watch) : Prop where
  wires : (feed slotWave (idleWires dat (slots.flatMap Slot.levels ++ rest)) slots).2 = s
  levels : s.levels = rest
  watch : feed watchLines idleWatch ((feed slotWave (idleWires dat (slots.flatMap Slot.levels ++
    rest)) slots).1.flatMap Prod.snd) = (slots.flatMap Slot.conditions, w)
  seen : forall p, p ∈ (feed slotWave (idleWires dat (slots.flatMap Slot.levels ++ rest))
    slots).1 -> Seen p

theorem WavesTo.snoc {dat : Byte} {slots : List Slot} {slot : Slot} {rest : List Bool}
    {s s' : Wires} {w w' : Watch} (h : WavesTo dat slots (slot.levels ++ rest) s w)
    (hslot : Traces s w slot.accesses slot.released slot.conditions slot.samples s' w')
    (hlevels : s'.levels = rest) : WavesTo dat (slots ++ [slot]) rest s' w' := by
  have hfeed : feed slotWave (idleWires dat ((slots ++ [slot]).flatMap Slot.levels ++ rest))
      (slots ++ [slot]) =
        ((feed slotWave (idleWires dat (slots.flatMap Slot.levels ++ (slot.levels ++ rest)))
          slots).1 ++ [(slot, (feed Wires.access s slot.accesses).1)], s') := by
    have hsplit : (slots ++ [slot]).flatMap Slot.levels ++ rest =
        slots.flatMap Slot.levels ++ (slot.levels ++ rest) := by simp
    rw [hsplit, feed_append, h.wires, <- hslot.wires]
    rfl
  constructor
  · rw [hfeed]
  · exact hlevels
  · rw [hfeed, List.flatMap_append, feed_append, h.watch, List.flatMap_append]
    simp only [List.flatMap_cons, List.flatMap_nil, List.append_nil]
    rw [hslot.watch]
  · intro p hp
    rw [hfeed] at hp
    rcases List.mem_append.mp hp with hp | hp
    · exact h.seen p hp
    · rw [List.mem_singleton.mp hp]
      exact ⟨hslot.samples, hslot.driven⟩

theorem ordered_waves {slots : List Slot} {idle : Bool} (h : Ordered slots idle) (dat : Byte) :
    forall rest : List Bool, (idle = true -> rest.headD true = true) ->
      exists s w, WavesTo dat slots rest s w ∧
        ((idle = true ∧ s.dir = 0x00#8 ∧ w = idleWatch) ∨
          (idle = false ∧ s.Low ∧ w = Watch.low)) := by
  induction h with
  | idle =>
      intro rest _
      refine ⟨idleWires dat rest, idleWatch, ⟨rfl, rfl, rfl, ?_⟩, Or.inl ⟨rfl, rfl, rfl⟩⟩
      intro p hp
      cases hp
  | start h ih =>
      intro rest _
      rcases ih (true :: rest) (fun _ => rfl) with ⟨s, w, hwaves, hrest⟩
      rcases hrest with ⟨_, hdir, rfl⟩ | ⟨_, hlow, rfl⟩
      · have hstart := start_idle s.dat rest
        have hwires : s = ⟨s.dat, 0x00#8, true :: rest⟩ := by
          rw [<- hdir, <- hwaves.levels]
        rw [<- hwires] at hstart
        exact ⟨_, _, hwaves.snoc hstart rfl, Or.inr ⟨rfl, low_output false rest, rfl⟩⟩
      · rcases slot_low hlow (show Slot.start ≠ Slot.stop by simp) hwaves.levels with
          ⟨s', hstart, hlow', hlevels⟩
        exact ⟨s', _, hwaves.snoc hstart hlevels, Or.inr ⟨rfl, hlow', rfl⟩⟩
  | stop h ih =>
      intro rest hrest
      rcases ih rest (fun hidle => by cases hidle) with ⟨s, w, hwaves, hstate⟩
      rcases hstate with ⟨hidle, _⟩ | ⟨_, hlow, rfl⟩
      · cases hidle
      · have hstop := stop_low hlow (by rw [hwaves.levels]; exact hrest rfl)
        exact ⟨_, _, hwaves.snoc hstop hwaves.levels, Or.inl ⟨rfl, rfl, rfl⟩⟩
  | @other slots h slot hslot ih =>
      intro rest _
      rcases ih (slot.levels ++ rest) (fun hidle => by cases hidle) with ⟨s, w, hwaves, hstate⟩
      rcases hstate with ⟨hidle, _⟩ | ⟨_, hlow, rfl⟩
      · cases hidle
      · rcases slot_low hlow hslot hwaves.levels with ⟨s', htraces, hlow', hlevels⟩
        exact ⟨s', _, hwaves.snoc htraces hlevels, Or.inr ⟨rfl, hlow', rfl⟩⟩

end Srom
end Bab750
