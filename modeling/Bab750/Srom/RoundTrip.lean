import Bab750.Srom.Eeprom

/-!
# Writing and reading back

The loop of `el_srom_store` waits for the end of a write cycle, `el_srom_load` does not.
-/

namespace Bab750
namespace Srom

open Foundation

/-- The address bits and the block bits that the board uses. -/
def IsDevice (device : Byte) : Prop := device = firstDevice ∨ device = secondDevice

def IsBlock (block : Byte) : Prop := block = firstBlock ∨ block = secondBlock

theorem control_write {device block : Byte} (hdevice : IsDevice device)
    (hblock : IsBlock block) :
    selected device (0xa0#8 ||| device ||| block) = true ∧
      readBit (0xa0#8 ||| device ||| block) = false ∧
      blockBit (0xa0#8 ||| device ||| block) = inSecond block := by
  rcases hdevice with rfl | rfl
  · rcases hblock with rfl | rfl
    · decide
    · decide
  · rcases hblock with rfl | rfl
    · decide
    · decide

theorem control_read {device block : Byte} (hdevice : IsDevice device)
    (hblock : IsBlock block) :
    selected device (0xa1#8 ||| device ||| block) = true ∧
      readBit (0xa1#8 ||| device ||| block) = true ∧
      blockBit (0xa1#8 ||| device ||| block) = inSecond block := by
  rcases hdevice with rfl | rfl
  · rcases hblock with rfl | rfl
    · decide
    · decide
  · rcases hblock with rfl | rfl
    · decide
    · decide

section Chip

variable {device block : Byte} {s : Eeprom} {slots : List Slot}

theorem writeAcked_taken {b : Byte} (h : (s.receives device b).acknowledges = true) :
    writeAcked (eeprom device) ⟨s, slots⟩ b =
      (true, ⟨s.receives device b, slots ++ [Slot.write b, Slot.ack false]⟩) := by
  have hack : (eeprom device).acknowledges (s.receives device b) = true := h
  unfold writeAcked eepReadAck eepWriteByte Bus.put
  simp only [eeprom, Eeprom.after] at hack ⊢
  rw [hack, List.append_assoc]
  rfl

theorem writeAcked_refused {b : Byte} (h : (s.receives device b).acknowledges = false) :
    writeAcked (eeprom device) ⟨s, slots⟩ b =
      (false, ⟨s.receives device b, slots ++ [Slot.write b, Slot.ack true]⟩) := by
  have hack : (eeprom device).acknowledges (s.receives device b) = false := h
  unfold writeAcked eepReadAck eepWriteByte Bus.put
  simp only [eeprom, Eeprom.after] at hack ⊢
  rw [hack, List.append_assoc]
  rfl

theorem start_control :
    eepStart (eeprom device) ⟨s, slots⟩ =
      ⟨{ s with phase := Phase.control }, slots ++ [Slot.start]⟩ := rfl

theorem select_ready {control : Byte} {phase : Phase}
    (hselected : selected device control = true) (hready : s.busy = 0)
    (hphase : (if readBit control then Phase.sending else Phase.address) = phase) :
    writeAcked (eeprom device) (eepStart (eeprom device) ⟨s, slots⟩) control =
      (true, ⟨{ s with block := blockBit control, phase := phase },
        slots ++ [Slot.start, Slot.write control, Slot.ack false]⟩) := by
  have hreceives : ({ s with phase := Phase.control } : Eeprom).receives device control =
      { s with block := blockBit control, phase := phase } := by
    rw [<- hphase]
    simp [Eeprom.receives, Eeprom.addressed, hselected, hready]
  rw [start_control, writeAcked_taken, hreceives, List.append_assoc]
  · rfl
  · rw [hreceives, <- hphase]
    cases readBit control with
    | false =>
        rfl
    | true =>
        rfl

theorem select_busy {control : Byte} (hselected : selected device control = true)
    (hbusy : s.busy ≠ 0) :
    writeAcked (eeprom device) (eepStart (eeprom device) ⟨s, slots⟩) control =
      (false, ⟨{ s with busy := s.busy - 1, phase := Phase.idle },
        slots ++ [Slot.start, Slot.write control, Slot.ack true]⟩) := by
  have hreceives : ({ s with phase := Phase.control } : Eeprom).receives device control =
      { s with busy := s.busy - 1, phase := Phase.idle } := by
    simp [Eeprom.receives, Eeprom.addressed, hselected, hbusy]
  rw [start_control, writeAcked_refused, hreceives, List.append_assoc]
  · rfl
  · rw [hreceives]
    rfl

theorem address_taken (addr : Byte) (hphase : s.phase = Phase.address) :
    writeAcked (eeprom device) ⟨s, slots⟩ addr =
      (true, ⟨{ s with pointer := addr, phase := Phase.data },
        slots ++ [Slot.write addr, Slot.ack false]⟩) := by
  have hreceives : s.receives device addr = { s with pointer := addr, phase := Phase.data } := by
    rw [Eeprom.receives, hphase]
  rw [writeAcked_taken, hreceives]
  rw [hreceives]
  rfl

theorem data_taken (b : Byte) (hphase : s.phase = Phase.data) :
    writeAcked (eeprom device) ⟨s, slots⟩ b =
      (true, ⟨{ s with phase := Phase.received b },
        slots ++ [Slot.write b, Slot.ack false]⟩) := by
  have hreceives : s.receives device b = { s with phase := Phase.received b } := by
    rw [Eeprom.receives, hphase]
  rw [writeAcked_taken, hreceives]
  rw [hreceives]
  rfl

/-!
# Reading
-/

def loadSlots (device block addr b : Byte) : List Slot :=
  [Slot.start, Slot.write (0xa0#8 ||| device ||| block), Slot.ack false, Slot.write addr,
    Slot.ack false, Slot.start, Slot.write (0xa1#8 ||| device ||| block), Slot.ack false,
    Slot.read b, Slot.writeAck true, Slot.stop]

theorem loadByte_ready (hdevice : IsDevice device) (hblock : IsBlock block)
    (hready : s.busy = 0) (addr : Byte) :
    loadByte (eeprom device) device block addr ⟨s, slots⟩ =
      (some (s.cells (inSecond block) addr),
        ⟨{ s with
            block := inSecond block, pointer := addr + 1#8, phase := Phase.idle },
          slots ++ loadSlots device block addr (s.cells (inSecond block) addr)⟩) := by
  rcases control_write hdevice hblock with ⟨hselected, hwrite, hbit⟩
  rcases control_read hdevice hblock with ⟨hselected', hread, hbit'⟩
  unfold loadByte
  rw [select_ready hselected hready (by rw [hwrite]), hbit]
  dsimp only
  rw [address_taken addr rfl]
  dsimp only
  rw [select_ready hselected' (by exact hready) (by rw [hread]), hbit']
  simp [eepReadByte, eepWriteAck, eepStop, Bus.put, eeprom, Eeprom.after, Eeprom.stops,
    loadSlots]

theorem loadByte_busy (hdevice : IsDevice device) (hblock : IsBlock block)
    (hbusy : s.busy ≠ 0) (addr : Byte) (slots : List Slot) :
    (loadByte (eeprom device) device block addr ⟨s, slots⟩).1 = none := by
  unfold loadByte
  rw [select_busy (control_write hdevice hblock).1 hbusy]

/-- A chip that is ready gives back its cells and stays as it is. -/
theorem loadBytes_ready (hdevice : IsDevice device) (cnt : Nat) :
    forall addr block s slots, IsBlock block -> Fits addr block cnt -> s.busy = 0 ->
      exists s' new, loadBytes (eeprom device) device cnt addr block ⟨s, slots⟩ =
          ((places cnt addr (inSecond block)).map (fun place => s.cells place.1 place.2), true,
            ⟨s', slots ++ new⟩) ∧
        s'.cells = s.cells ∧ s'.busy = 0 ∧ s'.cycles = s.cycles ∧ s'.writes = s.writes ∧
        forall rest, addressedPlaces (new ++ rest) =
          places cnt addr (inSecond block) ++ addressedPlaces rest := by
  induction cnt with
  | zero =>
      intro addr block s slots _ _ hready
      refine ⟨s, [], ?_, rfl, hready, rfl, rfl, fun rest => rfl⟩
      rw [List.append_nil]
      rfl
  | succ cnt ih =>
      intro addr block s slots hblock hfits hready
      rcases nextBlock_fits hblock hfits with ⟨block', hnext, hblock', hfits', hplaces⟩
      rcases ih (addr + 1#8) block'
          { s with block := inSecond block, pointer := addr + 1#8, phase := Phase.idle }
          (slots ++ loadSlots device block addr (s.cells (inSecond block) addr))
          hblock' hfits' hready with
        ⟨s', new, hload, hcells, hbusy, hcycles, hwrites, hslots⟩
      refine ⟨s', loadSlots device block addr (s.cells (inSecond block) addr) ++ new, ?_,
        hcells, hbusy, hcycles, hwrites, ?_⟩
      · rw [loadBytes, loadByte_ready hdevice hblock hready]
        dsimp only
        rw [hnext]
        dsimp only
        rw [hload, hplaces, List.append_assoc]
        rfl
      · intro rest
        have hbit := (control_write hdevice hblock).2.2
        rw [List.append_assoc, places, <- hplaces]
        simp only [loadSlots, List.cons_append, List.nil_append, addressedPlaces, hbit, hslots]

/-!
# Writing
-/

/-- The slots of a byte that is written, with those of the write cycle in front. -/
def storeSlots (device block addr b : Byte) : Nat -> List Slot
  | 0 => [Slot.start, Slot.write (0xa0#8 ||| device ||| block), Slot.ack false,
      Slot.write addr, Slot.ack false, Slot.write b, Slot.ack false, Slot.stop]
  | busy + 1 => [Slot.start, Slot.write (0xa0#8 ||| device ||| block), Slot.ack true,
      Slot.stop] ++ storeSlots device block addr b busy

theorem storeSlots_places (hdevice : IsDevice device) (hblock : IsBlock block) (addr b : Byte)
    (busy : Nat) (rest : List Slot) :
    addressedPlaces (storeSlots device block addr b busy ++ rest) =
      (inSecond block, addr) :: addressedPlaces rest := by
  induction busy with
  | zero =>
      simp [storeSlots, addressedPlaces, (control_write hdevice hblock).2.2]
  | succ busy ih =>
      rw [storeSlots, List.append_assoc]
      simpa [addressedPlaces] using ih

theorem pollSlave_eq (hdevice : IsDevice device) (hblock : IsBlock block) (addr b : Byte)
    (fuel : Nat) :
    forall s slots, if s.busy < fuel then
        exists slots', pollSlave (eeprom device) (0xa0#8 ||| device ||| block) fuel ⟨s, slots⟩ =
            (true, ⟨{ s with block := inSecond block, phase := Phase.address, busy := 0 },
              slots'⟩) ∧
          slots' ++ [Slot.write addr, Slot.ack false, Slot.write b, Slot.ack false,
            Slot.stop] = slots ++ storeSlots device block addr b s.busy
      else (pollSlave (eeprom device) (0xa0#8 ||| device ||| block) fuel ⟨s, slots⟩).1 =
        false := by
  rcases control_write hdevice hblock with ⟨hselected, hwrite, hbit⟩
  induction fuel with
  | zero =>
      intro s slots
      rw [if_neg (Nat.not_lt_zero _)]
      rfl
  | succ fuel ih =>
      intro s slots
      by_cases hready : s.busy = 0
      · rw [if_pos (by omega), pollSlave,
          select_ready hselected hready (by rw [hwrite]), hbit]
        refine ⟨_, by rw [hready]; rfl, ?_⟩
        rw [hready, List.append_assoc]
        rfl
      · have hrest := ih { s with busy := s.busy - 1, phase := Phase.idle }
          (slots ++ [Slot.start, Slot.write (0xa0#8 ||| device ||| block), Slot.ack true] ++
            [Slot.stop])
        have hstep : pollSlave (eeprom device) (0xa0#8 ||| device ||| block) (fuel + 1)
            ⟨s, slots⟩ = pollSlave (eeprom device) (0xa0#8 ||| device ||| block) fuel
              ⟨{ s with busy := s.busy - 1, phase := Phase.idle },
                slots ++ [Slot.start, Slot.write (0xa0#8 ||| device ||| block),
                  Slot.ack true] ++ [Slot.stop]⟩ := by
          rw [pollSlave, select_busy hselected hready]
          rfl
        rw [hstep]
        by_cases hfuel : s.busy < fuel + 1
        · rw [if_pos (show s.busy - 1 < fuel by omega)] at hrest
          rcases hrest with ⟨slots', hpoll, hslots⟩
          rw [if_pos hfuel]
          refine ⟨slots', hpoll, ?_⟩
          have hbusy : s.busy = (s.busy - 1) + 1 := by omega
          rw [hslots, hbusy, storeSlots, List.append_assoc, List.append_assoc]
          rfl
        · rw [if_neg (show ¬ s.busy - 1 < fuel by omega)] at hrest
          rw [if_neg hfuel]
          exact hrest

def Eeprom.stored (s : Eeprom) (block : Bool) (addr b : Byte) : Eeprom :=
  { s with
    cells := s.cells.write block addr b
    phase := Phase.idle
    block := block
    pointer := addr
    busy := s.cycles s.writes
    writes := s.writes + 1 }

theorem storeBytes_cons (hdevice : IsDevice device) (hblock : IsBlock block) (fuel : Nat)
    (cnt : Int) (b : Byte) (buf : List Byte) (addr block' : Byte) (s : Eeprom)
    (slots : List Slot) (hnext : nextBlock (addr + 1#8) buf.length block = some block') :
    if s.busy < fuel then
      storeBytes (eeprom device) device fuel cnt (b :: buf) addr block ⟨s, slots⟩ =
        storeBytes (eeprom device) device fuel cnt buf (addr + 1#8) block'
          ⟨s.stored (inSecond block) addr b, slots ++ storeSlots device block addr b s.busy⟩
    else (storeBytes (eeprom device) device fuel cnt (b :: buf) addr block ⟨s, slots⟩).1 =
      Outcome.polling := by
  have hpoll := pollSlave_eq hdevice hblock addr b fuel s slots
  split
  · rename_i hfuel
    rw [if_pos hfuel] at hpoll
    rcases hpoll with ⟨slots', hpoll, hslots⟩
    rw [storeBytes, hpoll]
    dsimp only
    rw [address_taken addr rfl]
    dsimp only
    rw [hnext]
    dsimp only
    rw [data_taken b rfl, <- hslots]
    simp [eepStop, Bus.put, eeprom, Eeprom.after, Eeprom.stops, Eeprom.stored]
  · rename_i hfuel
    rw [if_neg hfuel] at hpoll
    rw [storeBytes]
    generalize pollSlave (eeprom device) (0xa0#8 ||| device ||| block) fuel ⟨s, slots⟩ =
      result at hpoll
    rcases result with ⟨ok, bus⟩
    cases hpoll
    rfl

theorem storeBytes_returned (hdevice : IsDevice device) (fuel : Nat) (cnt value : Int)
    (buf : List Byte) :
    forall addr block s slots bus', IsBlock block -> Fits addr block buf.length ->
      storeBytes (eeprom device) device fuel cnt buf addr block ⟨s, slots⟩ =
        (Outcome.returned value, bus') ->
      bus'.slave.cells = s.cells.writeAll (places buf.length addr (inSecond block)) buf ∧
        (buf ≠ [] -> bus'.slave.busy = s.cycles (s.writes + buf.length - 1)) ∧
        exists new, bus'.slots = slots ++ new ∧ forall rest, addressedPlaces (new ++ rest) =
          places buf.length addr (inSecond block) ++ addressedPlaces rest := by
  induction buf with
  | nil =>
      intro addr block s slots bus' _ _ hstore
      cases hstore
      exact ⟨rfl, fun hne => absurd rfl hne, [], (List.append_nil slots).symm, fun rest => rfl⟩
  | cons b buf ih =>
      intro addr block s slots bus' hblock hfits hstore
      rcases nextBlock_fits hblock hfits with ⟨block', hnext, hblock', hfits', hplaces⟩
      have hcons := storeBytes_cons hdevice hblock fuel cnt b buf addr block' s slots hnext
      split at hcons
      · rw [hcons] at hstore
        rcases ih _ _ _ _ _ hblock' hfits' hstore with ⟨hcells, hbusy, new, hslots, hnew⟩
        refine ⟨?_, ?_, storeSlots device block addr b s.busy ++ new, ?_, ?_⟩
        · rw [hcells, hplaces]
          rfl
        · intro _
          rw [List.length_cons]
          cases buf with
          | nil =>
              cases hstore
              rfl
          | cons b' buf =>
              rw [hbusy (List.cons_ne_nil b' buf), List.length_cons]
              show s.cycles (s.writes + 1 + (buf.length + 1) - 1) = _
              congr 1
              omega
        · rw [hslots, List.append_assoc]
        · intro rest
          rw [List.append_assoc, storeSlots_places hdevice hblock, hnew, hplaces]
          rfl
      · rw [hstore] at hcons
        cases hcons

theorem storeBytes_returns (hdevice : IsDevice device) (fuel : Nat) (cnt : Int)
    (buf : List Byte) :
    forall addr block s slots, IsBlock block -> Fits addr block buf.length ->
      s.busy < fuel -> (forall n, s.cycles n < fuel) ->
      (storeBytes (eeprom device) device fuel cnt buf addr block ⟨s, slots⟩).1 =
        Outcome.returned cnt := by
  induction buf with
  | nil =>
      intro addr block s slots _ _ _ _
      rfl
  | cons b buf ih =>
      intro addr block s slots hblock hfits hbusy hcycles
      rcases nextBlock_fits hblock hfits with ⟨block', hnext, hblock', hfits', _⟩
      have hcons := storeBytes_cons hdevice hblock fuel cnt b buf addr block' s slots hnext
      rw [if_pos hbusy] at hcons
      rw [hcons]
      exact ih _ _ _ _ hblock' hfits' (hcycles s.writes) hcycles

end Chip

theorem rest_busy (s : Eeprom) (time : Nat) : (s.rest time).busy = s.busy - time := rfl

/-- What a round trip has to give, from the chip and the bus behind `el_srom_store`. -/
structure RoundTrip (device addr block : Byte) (buf : List Byte) (s : Eeprom)
    (stored : Bus Eeprom) (time : Nat) : Prop where
  others : forall place, place ∉ places buf.length addr (inSecond block) ->
    stored.slave.cells place.1 place.2 = s.cells place.1 place.2
  split : addressedPlaces stored.slots = places buf.length addr (inSecond block)
  loaded : exists bus, elSromLoad (eeprom device) addr buf.length device block
      ⟨stored.slave.rest time, []⟩ = ((buf.length : Int), buf, bus) ∧
    bus.slave.cells = stored.slave.cells ∧
    addressedPlaces bus.slots = addressedPlaces stored.slots

theorem elSromLoad_busy {device block : Byte} {s : Eeprom} {cnt : Nat}
    (hdevice : IsDevice device) (hblock : IsBlock block) (hcnt : cnt ≠ 0) (hbusy : s.busy ≠ 0)
    (addr : Byte) (slots : List Slot) :
    (elSromLoad (eeprom device) addr cnt device block ⟨s, slots⟩).1 = error := by
  cases cnt with
  | zero =>
      exact absurd rfl hcnt
  | succ cnt =>
      have hnone := loadByte_busy hdevice hblock hbusy addr slots
      unfold elSromLoad
      rw [loadBytes]
      generalize loadByte (eeprom device) device block addr ⟨s, slots⟩ = result at hnone
      rcases result with ⟨byte, bus⟩
      cases hnone
      rfl

/--
Bytes that were stored are loaded, and nothing else has changed, if and only if the write
cycle of the last byte is over when they are loaded.
-/
theorem srom_round_trip_iff {device addr block : Byte} {buf : List Byte} {s : Eeprom}
    {stored : Bus Eeprom} {fuel : Nat} (time : Nat) (hdevice : IsDevice device)
    (hblock : IsBlock block) (hfits : Fits addr block buf.length)
    (hstore : elSromStore (eeprom device) fuel addr buf device block ⟨s, []⟩ =
      (Outcome.returned buf.length, stored)) :
    RoundTrip device addr block buf s stored time <->
      (buf = [] ∨ s.cycles (s.writes + buf.length - 1) <= time) := by
  rcases storeBytes_returned hdevice fuel _ _ buf addr block s [] stored hblock hfits hstore with
    ⟨hcells, hbusy, new, hslots, hplaces⟩
  constructor
  · intro h
    by_cases hbuf : buf = []
    · exact Or.inl hbuf
    · right
      apply Nat.le_of_not_lt
      intro hlt
      rcases h.loaded with ⟨bus, hload, _, _⟩
      have hwaits : (stored.slave.rest time).busy ≠ 0 := by
        rw [rest_busy, hbusy hbuf]
        omega
      have herror := elSromLoad_busy hdevice hblock
        (fun h0 => hbuf (List.length_eq_zero_iff.mp h0)) hwaits addr []
      rw [hload, error] at herror
      dsimp only at herror
      omega
  · intro hover
    have hsplit : addressedPlaces stored.slots = places buf.length addr (inSecond block) := by
      have hempty := hplaces []
      rw [List.append_nil] at hempty
      rw [hslots, List.nil_append, hempty]
      exact List.append_nil _
    refine ⟨?_, hsplit, ?_⟩
    · intro place hplace
      rw [hcells]
      exact Cells.writeAll_outside hplace s.cells buf
    · by_cases hbuf : buf = []
      · subst hbuf
        refine ⟨_, rfl, rfl, ?_⟩
        rw [hsplit]
        rfl
      · have hready : (stored.slave.rest time).busy = 0 := by
          rw [rest_busy, hbusy hbuf]
          rcases hover with hnil | hle
          · exact absurd hnil hbuf
          · omega
        rcases loadBytes_ready hdevice buf.length addr block (stored.slave.rest time) [] hblock
          hfits hready with ⟨s', new', hload, hsame, _, _, _, hloaded⟩
        have hread := Cells.writeAll_read hfits.nodup s.cells buf (places_length _ _ _)
        have hrest : (stored.slave.rest time).cells =
            s.cells.writeAll (places buf.length addr (inSecond block)) buf := hcells
        refine ⟨⟨s', new'⟩, ?_, hsame, ?_⟩
        · unfold elSromLoad
          rw [hload, hrest, hread]
          rfl
        · have hempty := hloaded []
          rw [List.append_nil] at hempty
          rw [hempty, hsplit]
          exact List.append_nil _

def blankEeprom (cycle : Nat) : Eeprom where
  cells := fun _ _ => 0xff#8
  phase := Phase.idle
  block := false
  pointer := 0#8
  busy := 0
  cycles := fun _ => cycle
  writes := 0

def crossingBytes : List Byte := [1#8, 2#8, 3#8]

theorem crossing_stored (cycle : Nat) :
    exists stored, elSromStore (eeprom secondDevice) (cycle + 1) 0xfe#8 crossingBytes
      secondDevice firstBlock ⟨blankEeprom cycle, []⟩ =
        (Outcome.returned crossingBytes.length, stored) := by
  have hreturns := storeBytes_returns (Or.inr rfl) (cycle + 1) crossingBytes.length
    crossingBytes 0xfe#8 firstBlock (blankEeprom cycle) [] (Or.inl rfl) (by decide)
    (Nat.succ_pos cycle) (fun _ => Nat.lt_succ_self cycle)
  exact ⟨_, Prod.ext hreturns rfl⟩

theorem srom_round_trip_crossing :
    Fits 0xfe#8 firstBlock crossingBytes.length ∧
      exists stored, elSromStore (eeprom secondDevice) 3 0xfe#8 crossingBytes
          secondDevice firstBlock ⟨blankEeprom 2, []⟩ =
            (Outcome.returned crossingBytes.length, stored) ∧
        RoundTrip secondDevice 0xfe#8 firstBlock crossingBytes (blankEeprom 2) stored 2 := by
  refine ⟨by decide, ?_⟩
  rcases crossing_stored 2 with ⟨stored, hstore⟩
  refine ⟨stored, hstore, (srom_round_trip_iff 2 (Or.inr rfl) (Or.inl rfl) ?_ hstore).mpr ?_⟩
  · decide
  · exact Or.inr (Nat.le_refl 2)

/-- A load right behind a store meets the write cycle of the last byte. -/
theorem load_during_write_cycle :
    Fits 0xfe#8 firstBlock crossingBytes.length ∧
      exists stored, elSromStore (eeprom secondDevice) 3 0xfe#8 crossingBytes
          secondDevice firstBlock ⟨blankEeprom 2, []⟩ =
            (Outcome.returned crossingBytes.length, stored) ∧
        (elSromLoad (eeprom secondDevice) 0xfe#8 crossingBytes.length secondDevice firstBlock
          ⟨stored.slave.rest 0, []⟩).1 = error ∧
        ¬ RoundTrip secondDevice 0xfe#8 firstBlock crossingBytes (blankEeprom 2) stored 0 := by
  refine ⟨by decide, ?_⟩
  rcases crossing_stored 2 with ⟨stored, hstore⟩
  rcases storeBytes_returned (Or.inr rfl) 3 _ _ crossingBytes 0xfe#8 firstBlock
    (blankEeprom 2) [] stored (Or.inl rfl) (by decide) hstore with ⟨_, hbusy, _⟩
  have herror : (elSromLoad (eeprom secondDevice) 0xfe#8 crossingBytes.length secondDevice
      firstBlock ⟨stored.slave.rest 0, []⟩).1 = error := by
    apply elSromLoad_busy (Or.inr rfl) (Or.inl rfl)
    · decide
    · rw [rest_busy, hbusy (by decide)]
      decide
  refine ⟨stored, hstore, herror, ?_⟩
  intro hround
  rcases hround.loaded with ⟨bus, hload, _⟩
  rw [hload] at herror
  cases herror

end Srom
end Bab750
