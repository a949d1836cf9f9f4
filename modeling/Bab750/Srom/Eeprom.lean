import Bab750.Srom.Bus
import Mathlib.Logic.Function.Basic

/-!
# The EEPROM

A chip with two blocks of 256 bytes, random byte write and random read. A byte that was
received is written behind the stop condition; until that write cycle is over, the chip
does not answer when it is addressed.
-/

namespace Bab750
namespace Srom

open Foundation

inductive Phase where
  | idle
  | control
  | address
  | data
  | received (b : Byte)
  | sending
deriving Repr, DecidableEq

abbrev Cells := Bool -> Byte -> Byte

def Cells.write (cells : Cells) (block : Bool) (addr b : Byte) : Cells :=
  fun block' addr' => if block' = block ∧ addr' = addr then b else cells block' addr'

structure Eeprom where
  cells : Cells
  phase : Phase
  block : Bool
  pointer : Byte
  /-- The times that the chip does not answer. -/
  busy : Nat
  /-- The length of the write cycle that each write starts. -/
  cycles : Nat -> Nat
  writes : Nat

def selected (device control : Byte) : Bool := control &&& 0xfc#8 = 0xa0#8 ||| device

def blockBit (control : Byte) : Bool := control.getLsbD 1

def readBit (control : Byte) : Bool := control.getLsbD 0

def Eeprom.addressed (device : Byte) (s : Eeprom) (control : Byte) : Eeprom :=
  if selected device control then
    if s.busy = 0 then
      { s with
        block := blockBit control
        phase := if readBit control then Phase.sending else Phase.address }
    else { s with busy := s.busy - 1, phase := Phase.idle }
  else { s with phase := Phase.idle }

def Eeprom.receives (device : Byte) (s : Eeprom) (b : Byte) : Eeprom :=
  match s.phase with
  | Phase.control => s.addressed device b
  | Phase.address => { s with pointer := b, phase := Phase.data }
  | Phase.data => { s with phase := Phase.received b }
  | Phase.received _ => { s with phase := Phase.received b }
  | _ => s

def Eeprom.stops (s : Eeprom) : Eeprom :=
  match s.phase with
  | Phase.received b =>
      { s with
        cells := s.cells.write s.block s.pointer b
        phase := Phase.idle
        busy := s.cycles s.writes
        writes := s.writes + 1 }
  | _ => { s with phase := Phase.idle }

def Eeprom.after (device : Byte) (s : Eeprom) : Slot -> Eeprom
  | Slot.start => { s with phase := Phase.control }
  | Slot.stop => s.stops
  | Slot.write b => s.receives device b
  | Slot.ack _ => s
  | Slot.read _ => { s with pointer := s.pointer + 1#8 }
  | Slot.writeAck level => if level then { s with phase := Phase.idle } else s

def Eeprom.acknowledges (s : Eeprom) : Bool :=
  match s.phase with
  | Phase.idle => false
  | Phase.control => false
  | _ => true

def eeprom (device : Byte) : Slave Eeprom where
  after := Eeprom.after device
  acknowledges := Eeprom.acknowledges
  data := fun s => if s.phase = Phase.sending then s.cells s.block s.pointer else 0xff#8

def Eeprom.rest (s : Eeprom) (time : Nat) : Eeprom := { s with busy := s.busy - time }

/-!
# Places
-/

def inSecond (block : Byte) : Bool := block = secondBlock

def places : Nat -> Byte -> Bool -> List (Bool × Byte)
  | 0, _, _ => []
  | left + 1, addr, second =>
      (second, addr) :: places left (addr + 1#8) (second || addr + 1#8 = 0#8)

def Cells.writeAll (cells : Cells) : List (Bool × Byte) -> List Byte -> Cells
  | place :: rest, b :: buf => (cells.write place.1 place.2 b).writeAll rest buf
  | _, _ => cells

/-- The range does not run past the end of the chip. -/
def Fits (addr block : Byte) (cnt : Nat) : Prop :=
  addr.toNat + cnt <= if block = firstBlock then 512 else 256

instance (addr block : Byte) (cnt : Nat) : Decidable (Fits addr block cnt) :=
  inferInstanceAs (Decidable (_ <= _))

def addressedPlaces : List Slot -> List (Bool × Byte)
  | Slot.start :: Slot.write control :: Slot.ack false :: Slot.write addr :: slots =>
      (blockBit control, addr) :: addressedPlaces slots
  | _ :: slots => addressedPlaces slots
  | [] => []

def position (place : Bool × Byte) : Nat := (if place.1 then 256 else 0) + place.2.toNat

theorem position_next {second : Bool} {addr : Byte} (h : position (second, addr) + 1 < 512) :
    position (second || addr + 1#8 = 0#8, addr + 1#8) = position (second, addr) + 1 := by
  have hlt := addr.isLt
  have hnext : (addr + 1#8).toNat = (addr.toNat + 1) % 256 := by
    rw [BitVec.toNat_add]
    rfl
  by_cases hzero : addr + 1#8 = 0#8
  · rw [hzero] at hnext
    have hend : (0#8).toNat = 0 := rfl
    cases second with
    | false =>
        simp [position, hzero]
        omega
    | true =>
        simp [position] at h
        omega
  · have hne : (addr + 1#8).toNat ≠ 0 := by
      intro h0
      exact hzero (BitVec.eq_of_toNat_eq h0)
    simp only [position, hzero, decide_false, Bool.or_false, hnext]
    omega

theorem places_position (left : Nat) :
    forall addr second, position (second, addr) + left <= 512 ->
      (places left addr second).map position = List.range' (position (second, addr)) left := by
  induction left with
  | zero =>
      intro addr second _
      rfl
  | succ left ih =>
      intro addr second h
      rw [places, List.map_cons, List.range'_succ]
      cases left with
      | zero =>
          rfl
      | succ left =>
          rw [ih _ _ (by rw [position_next (by omega)]; omega), position_next (by omega)]

theorem places_length (left : Nat) :
    forall addr second, (places left addr second).length = left := by
  induction left with
  | zero =>
      intro addr second
      rfl
  | succ left ih =>
      intro addr second
      rw [places, List.length_cons, ih]

theorem Fits.position_le {addr block : Byte} {cnt : Nat} (h : Fits addr block cnt) :
    position (inSecond block, addr) + cnt <= 512 := by
  unfold Fits at h
  unfold position inSecond
  by_cases hfirst : block = firstBlock
  · rw [if_pos hfirst] at h
    have hne : ¬ block = secondBlock := by
      rw [hfirst]
      decide
    simp only [hne, decide_false]
    simpa using h
  · rw [if_neg hfirst] at h
    by_cases hsecond : block = secondBlock
    · simp only [hsecond, decide_true, if_true]
      omega
    · simp only [hsecond, decide_false, Bool.false_eq_true, if_false]
      omega

theorem Fits.nodup {addr block : Byte} {cnt : Nat} (h : Fits addr block cnt) :
    (places cnt addr (inSecond block)).Nodup := by
  apply List.Nodup.of_map position
  rw [places_position cnt addr _ h.position_le]
  exact List.nodup_range'

theorem nextBlock_fits {addr block : Byte} {left : Nat}
    (hblock : block = firstBlock ∨ block = secondBlock) (h : Fits addr block (left + 1)) :
    exists block', nextBlock (addr + 1#8) left block = some block' ∧
      (block' = firstBlock ∨ block' = secondBlock) ∧ Fits (addr + 1#8) block' left ∧
      places left (addr + 1#8) (inSecond block') =
        places left (addr + 1#8) (inSecond block || addr + 1#8 = 0#8) := by
  have hlt := addr.isLt
  have hnext : (addr + 1#8).toNat = (addr.toNat + 1) % 256 := by
    rw [BitVec.toNat_add]
    rfl
  unfold Fits at h
  cases left with
  | zero =>
      refine ⟨block, by simp [nextBlock], hblock, ?_, rfl⟩
      unfold Fits
      split
      · omega
      · omega
  | succ left =>
      unfold nextBlock
      by_cases hzero : addr + 1#8 = 0#8
      · have hend : (addr + 1#8).toNat = 0 := by
          rw [hzero]
          rfl
        rw [if_pos ⟨hzero, by omega⟩]
        rcases hblock with hfirst | hsecond
        · refine ⟨secondBlock, if_pos hfirst, Or.inr rfl, ?_, by simp [inSecond, hzero]⟩
          rw [if_pos hfirst] at h
          rw [Fits, if_neg (by decide)]
          omega
        · rw [hsecond, if_neg (by decide)] at h
          omega
      · have hne : (addr + 1#8).toNat ≠ 0 := by
          intro h0
          exact hzero (BitVec.eq_of_toNat_eq h0)
        rw [if_neg (fun hand => hzero hand.1)]
        refine ⟨block, rfl, hblock, ?_, by simp [hzero]⟩
        unfold Fits
        split at h
        · rename_i hfirst
          rw [if_pos hfirst]
          omega
        · rename_i hfirst
          rw [if_neg hfirst]
          omega

/-!
# Cells
-/

theorem Cells.writeAll_outside {ps : List (Bool × Byte)} {place : Bool × Byte}
    (h : place ∉ ps) (cells : Cells) (buf : List Byte) :
    cells.writeAll ps buf place.1 place.2 = cells place.1 place.2 := by
  induction ps generalizing cells buf with
  | nil =>
      rfl
  | cons first ps ih =>
      cases buf with
      | nil =>
          rfl
      | cons b buf =>
          rw [Cells.writeAll, ih (fun hmem => h (List.mem_cons_of_mem _ hmem)), Cells.write,
            if_neg]
          intro heq
          exact h (by rw [show place = first from Prod.ext heq.1 heq.2]; exact List.mem_cons_self)

theorem Cells.writeAll_read {ps : List (Bool × Byte)} (hnodup : ps.Nodup) (cells : Cells)
    (buf : List Byte) (hlength : ps.length = buf.length) :
    ps.map (fun place => cells.writeAll ps buf place.1 place.2) = buf := by
  induction ps generalizing cells buf with
  | nil =>
      exact (List.length_eq_zero_iff.mp hlength.symm).symm
  | cons first ps ih =>
      cases buf with
      | nil =>
          cases hlength
      | cons b buf =>
          rcases List.nodup_cons.mp hnodup with ⟨hfirst, hrest⟩
          rw [List.map_cons, Cells.writeAll, Cells.writeAll_outside hfirst, Cells.write,
            if_pos ⟨rfl, rfl⟩, ih hrest _ buf (Nat.succ.inj hlength)]

end Srom
end Bab750
