import Bab750.Srom.Waveform

/-!
# The lines mean the slots

Whatever the slave answers, the accesses of `el_srom_load` and `el_srom_store` are seen on
the bus as the slots of their routines, with no other condition between them.
-/

namespace Bab750
namespace Srom

open Foundation

section Calls

variable {S : Type} (chip : Slave S) {bus : Bus S} {idle : Bool}

theorem eepStart_ordered (h : Ordered bus.slots idle) :
    Ordered (eepStart chip bus).slots false := Ordered.start h

theorem eepStop_ordered (h : Ordered bus.slots false) :
    Ordered (eepStop chip bus).slots true := Ordered.stop h

theorem writeAcked_ordered (h : Ordered bus.slots false) (b : Byte) :
    Ordered (writeAcked chip bus b).2.slots false :=
  Ordered.other (Ordered.other h (by simp)) (by simp)

theorem loadByte_stopped (h : Ordered bus.slots idle) (device block addr : Byte) :
    Ordered (loadByte chip device block addr bus).2.slots true := by
  have hcontrol := writeAcked_ordered chip (eepStart_ordered chip h)
    (0xa0#8 ||| device ||| block)
  unfold loadByte
  split
  · rename_i bus1 heq
    rw [heq] at hcontrol
    exact eepStop_ordered chip hcontrol
  · rename_i bus1 heq
    rw [heq] at hcontrol
    have haddr := writeAcked_ordered chip hcontrol addr
    split
    · rename_i bus2 heq2
      rw [heq2] at haddr
      exact eepStop_ordered chip haddr
    · rename_i bus2 heq2
      rw [heq2] at haddr
      have hread := writeAcked_ordered chip (eepStart_ordered chip haddr)
        (0xa1#8 ||| device ||| block)
      split
      · rename_i bus3 heq3
        rw [heq3] at hread
        exact eepStop_ordered chip hread
      · rename_i bus3 heq3
        rw [heq3] at hread
        exact eepStop_ordered chip (Ordered.other (Ordered.other hread (by simp)) (by simp))

theorem loadBytes_stopped (device : Byte) (left : Nat) :
    forall (addr block : Byte) (bus : Bus S), Ordered bus.slots true ->
      Ordered (loadBytes chip device left addr block bus).2.2.slots true := by
  induction left with
  | zero =>
      intro addr block bus h
      exact h
  | succ left ih =>
      intro addr block bus h
      have hbyte := loadByte_stopped chip h device block addr
      rw [loadBytes]
      split
      · rename_i bus1 heq
        rw [heq] at hbyte
        exact hbyte
      · rename_i b bus1 heq
        rw [heq] at hbyte
        split
        · exact hbyte
        · exact ih _ _ _ hbyte

/-- Behind a call the bus may be idle or not. -/
def Orderly (bus : Bus S) : Prop := exists idle, Ordered bus.slots idle

theorem loadByte_orderly (h : Orderly bus) (device block addr : Byte) :
    Orderly (loadByte chip device block addr bus).2 := by
  rcases h with ⟨idle, h⟩
  exact ⟨true, loadByte_stopped chip h device block addr⟩

theorem loadBytes_orderly (device : Byte) (left : Nat) :
    forall (addr block : Byte) (bus : Bus S), Orderly bus ->
      Orderly (loadBytes chip device left addr block bus).2.2 := by
  induction left with
  | zero =>
      intro addr block bus h
      exact h
  | succ left ih =>
      intro addr block bus h
      have hbyte := loadByte_orderly chip h device block addr
      rw [loadBytes]
      split
      · rename_i bus1 heq
        rw [heq] at hbyte
        exact hbyte
      · rename_i b bus1 heq
        rw [heq] at hbyte
        split
        · exact hbyte
        · exact ih _ _ _ hbyte

theorem pollSlave_orderly (control : Byte) (fuel : Nat) :
    forall bus : Bus S, Orderly bus -> Orderly (pollSlave chip control fuel bus).2 ∧
      ((pollSlave chip control fuel bus).1 = true ->
        Ordered (pollSlave chip control fuel bus).2.slots false) := by
  induction fuel with
  | zero =>
      intro bus h
      exact ⟨h, fun htrue => by cases htrue⟩
  | succ fuel ih =>
      intro bus h
      rcases h with ⟨idle, h⟩
      have hcontrol := writeAcked_ordered chip (eepStart_ordered chip h) control
      rw [pollSlave]
      split
      · rename_i bus1 heq
        rw [heq] at hcontrol
        exact ⟨⟨false, hcontrol⟩, fun _ => hcontrol⟩
      · rename_i bus1 heq
        rw [heq] at hcontrol
        exact ih _ ⟨true, eepStop_ordered chip hcontrol⟩

theorem storeBytes_orderly (device : Byte) (fuel : Nat) (cnt : Int) (buf : List Byte) :
    forall (addr block : Byte) (bus : Bus S), Orderly bus ->
      Orderly (storeBytes chip device fuel cnt buf addr block bus).2 := by
  induction buf with
  | nil =>
      intro addr block bus h
      exact h
  | cons b buf ih =>
      intro addr block bus h
      have hpoll := pollSlave_orderly chip (0xa0#8 ||| device ||| block) fuel bus h
      rw [storeBytes]
      split
      · rename_i bus1 heq
        rw [heq] at hpoll
        exact hpoll.1
      · rename_i bus1 heq
        rw [heq] at hpoll
        have haddr := writeAcked_ordered chip (hpoll.2 rfl) addr
        split
        · rename_i bus2 heq2
          rw [heq2] at haddr
          exact ⟨false, haddr⟩
        · rename_i bus2 heq2
          rw [heq2] at haddr
          have hdata := writeAcked_ordered chip haddr b
          split
          · exact ⟨false, haddr⟩
          · split
            · rename_i bus3 heq3
              rw [heq3] at hdata
              exact ⟨false, hdata⟩
            · rename_i bus3 heq3
              rw [heq3] at hdata
              exact ih _ _ _ ⟨true, eepStop_ordered chip hdata⟩

/-!
# One byte
-/

/-- The slots of a load, by whether the chip, its address and the second call are acknowledged. -/
def loadAttempt (device block addr b : Byte) : Bool -> Bool -> Bool -> List Slot
  | false, _, _ =>
      [Slot.start, Slot.write (0xa0#8 ||| device ||| block), Slot.ack true, Slot.stop]
  | true, false, _ =>
      [Slot.start, Slot.write (0xa0#8 ||| device ||| block), Slot.ack false,
        Slot.write addr, Slot.ack true, Slot.stop]
  | true, true, false =>
      [Slot.start, Slot.write (0xa0#8 ||| device ||| block), Slot.ack false,
        Slot.write addr, Slot.ack false,
        Slot.start, Slot.write (0xa1#8 ||| device ||| block), Slot.ack true, Slot.stop]
  | true, true, true =>
      [Slot.start, Slot.write (0xa0#8 ||| device ||| block), Slot.ack false,
        Slot.write addr, Slot.ack false,
        Slot.start, Slot.write (0xa1#8 ||| device ||| block), Slot.ack false,
        Slot.read b, Slot.writeAck true, Slot.stop]

def refusals (control : Byte) (refused : Nat) : List Slot :=
  (List.replicate refused [Slot.start, Slot.write control, Slot.ack true, Slot.stop]).flatten

/-- The slots of a store behind the polls, by whether the address and the byte are acknowledged. -/
def storeAttempt (control addr b : Byte) : Bool -> Bool -> List Slot
  | false, _ =>
      [Slot.start, Slot.write control, Slot.ack false, Slot.write addr, Slot.ack true]
  | true, false =>
      [Slot.start, Slot.write control, Slot.ack false, Slot.write addr, Slot.ack false,
        Slot.write b, Slot.ack true]
  | true, true =>
      [Slot.start, Slot.write control, Slot.ack false, Slot.write addr, Slot.ack false,
        Slot.write b, Slot.ack false, Slot.stop]

theorem writeAcked_slots {b : Byte} {bus' : Bus S} {acknowledged : Bool}
    (h : writeAcked chip bus b = (acknowledged, bus')) :
    bus'.slots = bus.slots ++ [Slot.write b, Slot.ack (!acknowledged)] := by
  rcases Prod.mk.inj h with ⟨hacknowledged, hbus⟩
  rw [← hbus, ← hacknowledged]
  exact List.append_assoc _ _ _

theorem eepStart_slots : (eepStart chip bus).slots = bus.slots ++ [Slot.start] := rfl

theorem eepStop_slots : (eepStop chip bus).slots = bus.slots ++ [Slot.stop] := rfl

theorem loadByte_attempt (device block addr : Byte) (bus : Bus S) :
    exists control address again b,
      (loadByte chip device block addr bus).2.slots =
          bus.slots ++ loadAttempt device block addr b control address again ∧
        (loadByte chip device block addr bus).1 =
          if control && address && again then some b else none := by
  unfold loadByte
  rcases hcontrol : writeAcked chip (eepStart chip bus) (0xa0#8 ||| device ||| block) with
    ⟨control, bus1⟩
  have hslots1 := writeAcked_slots chip hcontrol
  rw [eepStart_slots] at hslots1
  cases control with
  | false =>
      refine ⟨false, false, false, 0#8, ?_, rfl⟩
      show bus1.slots ++ [Slot.stop] = _
      rw [hslots1]
      simp [loadAttempt]
  | true =>
      dsimp only
      rcases haddress : writeAcked chip bus1 addr with ⟨address, bus2⟩
      have hslots2 := writeAcked_slots chip haddress
      rw [hslots1] at hslots2
      cases address with
      | false =>
          refine ⟨true, false, false, 0#8, ?_, rfl⟩
          show bus2.slots ++ [Slot.stop] = _
          rw [hslots2]
          simp [loadAttempt]
      | true =>
          dsimp only
          rcases hagain : writeAcked chip (eepStart chip bus2) (0xa1#8 ||| device ||| block) with
            ⟨again, bus3⟩
          have hslots3 := writeAcked_slots chip hagain
          rw [eepStart_slots, hslots2] at hslots3
          cases again with
          | false =>
              refine ⟨true, true, false, 0#8, ?_, rfl⟩
              show bus3.slots ++ [Slot.stop] = _
              rw [hslots3]
              simp [loadAttempt]
          | true =>
              refine ⟨true, true, true, chip.data bus3.slave, ?_, rfl⟩
              show ((bus3.slots ++ [Slot.read _]) ++ [Slot.writeAck true]) ++ [Slot.stop] = _
              rw [hslots3]
              simp [loadAttempt]

/-- The polls of a store: some refusals, and the call that is acknowledged if there is one. -/
theorem pollSlave_slots (control : Byte) (fuel : Nat) (bus : Bus S) :
    exists refused, refused <= fuel ∧
      (pollSlave chip control fuel bus).2.slots = bus.slots ++ refusals control refused ++
        (if (pollSlave chip control fuel bus).1 then
          [Slot.start, Slot.write control, Slot.ack false] else []) := by
  induction fuel generalizing bus with
  | zero =>
      exact ⟨0, Nat.le_refl 0, by simp [pollSlave, refusals]⟩
  | succ fuel ih =>
      rw [pollSlave]
      rcases hcontrol : writeAcked chip (eepStart chip bus) control with ⟨acknowledged, bus1⟩
      have hslots := writeAcked_slots chip hcontrol
      rw [eepStart_slots] at hslots
      cases acknowledged with
      | true =>
          refine ⟨0, Nat.zero_le _, ?_⟩
          dsimp only
          rw [hslots]
          simp [refusals]
      | false =>
          rcases ih (eepStop chip bus1) with ⟨refused, hle, hrest⟩
          refine ⟨refused + 1, Nat.succ_le_succ hle, ?_⟩
          dsimp only
          rw [hrest, eepStop_slots, hslots]
          simp [refusals, List.replicate_succ]

theorem storeByte_attempt (device block addr b : Byte) (fuel : Nat) (cnt : Int) (bus : Bus S) :
    exists refused, refused <= fuel ∧
      ((storeBytes chip device fuel cnt [b] addr block bus).1 = Outcome.polling ∧
          (storeBytes chip device fuel cnt [b] addr block bus).2.slots =
            bus.slots ++ refusals (0xa0#8 ||| device ||| block) refused ∨
        exists address data,
          (storeBytes chip device fuel cnt [b] addr block bus).1 =
              Outcome.returned (if address && data then cnt else error) ∧
            (storeBytes chip device fuel cnt [b] addr block bus).2.slots =
              bus.slots ++ refusals (0xa0#8 ||| device ||| block) refused ++
                storeAttempt (0xa0#8 ||| device ||| block) addr b address data) := by
  rcases pollSlave_slots chip (0xa0#8 ||| device ||| block) fuel bus with ⟨refused, hle, hpoll⟩
  refine ⟨refused, hle, ?_⟩
  rw [storeBytes]
  rcases hpolled : pollSlave chip (0xa0#8 ||| device ||| block) fuel bus with ⟨answered, bus1⟩
  rw [hpolled] at hpoll
  cases answered with
  | false =>
      exact Or.inl ⟨rfl, hpoll.trans (List.append_nil _)⟩
  | true =>
      refine Or.inr ?_
      dsimp only at hpoll ⊢
      rcases haddress : writeAcked chip bus1 addr with ⟨address, bus2⟩
      have hslots2 := writeAcked_slots chip haddress
      rw [hpoll] at hslots2
      cases address with
      | false =>
          refine ⟨false, false, rfl, ?_⟩
          dsimp only
          rw [hslots2]
          simp [storeAttempt]
      | true =>
          have hblock : nextBlock (addr + 1#8) ([] : List Byte).length block = some block :=
            if_neg (fun h => h.2 rfl)
          dsimp only
          rw [hblock]
          dsimp only
          rcases hdata : writeAcked chip bus2 b with ⟨data, bus3⟩
          have hslots3 := writeAcked_slots chip hdata
          rw [hslots2] at hslots3
          cases data with
          | false =>
              refine ⟨true, false, rfl, ?_⟩
              dsimp only
              rw [hslots3]
              simp [storeAttempt]
          | true =>
              refine ⟨true, true, rfl, ?_⟩
              show bus3.slots ++ [Slot.stop] = _
              rw [hslots3]
              simp [storeAttempt]

end Calls

/-!
# Calls
-/

/-- A call; a store that still polls after so many polls is left there. -/
inductive Call where
  | load (addr : Byte) (cnt : Nat) (device block : Byte)
  | store (fuel : Nat) (addr : Byte) (buf : List Byte) (device block : Byte)
deriving Repr, DecidableEq

def Call.run {S : Type} (chip : Slave S) (bus : Bus S) : Call -> Bus S
  | Call.load addr cnt device block => (elSromLoad chip addr cnt device block bus).2.2
  | Call.store fuel addr buf device block => (elSromStore chip fuel addr buf device block bus).2

/-- The slots of some calls one after the other, from the idle bus on. -/
def slotsOf {S : Type} (chip : Slave S) (s : S) (calls : List Call) : List Slot :=
  (calls.foldl (Call.run chip) ⟨s, []⟩).slots

theorem slotsOf_ordered {S : Type} (chip : Slave S) (s : S) (calls : List Call) :
    exists idle, Ordered (slotsOf chip s calls) idle := by
  have hrun : forall bus : Bus S, Orderly bus -> Orderly (calls.foldl (Call.run chip) bus) := by
    induction calls with
    | nil =>
        intro bus h
        exact h
    | cons call calls ih =>
        intro bus h
        apply ih
        cases call with
        | load addr cnt device block =>
            exact loadBytes_orderly chip device cnt addr block bus h
        | store fuel addr buf device block =>
            exact storeBytes_orderly chip device fuel buf.length buf addr block bus h
  exact hrun ⟨s, []⟩ ⟨true, Ordered.idle⟩

def highChanges : Moment -> List Moment -> List Bool
  | _, [] => []
  | last, m :: moments =>
      (if last.clock && m.clock && last.data != m.data then [m.data] else []) ++
        highChanges m moments

/-- A start condition is a fall of SDIO, a stop condition is a rise. -/
def Condition.change : Condition -> Option Bool
  | Condition.start => some false
  | Condition.stop => some true
  | Condition.bit _ => none

def Watches (w : Watch) (m : Moment) : Prop :=
  (w = Watch.low ∧ m.clock = false) ∨ (exists pulse, w = Watch.high m.data pulse ∧ m.clock = true)

theorem highChanges_conditions (moments : List Moment) :
    forall w last, Watches w last ->
      highChanges last moments = (feed watchLines w moments).1.filterMap Condition.change := by
  induction moments with
  | nil =>
      intro w last _
      rfl
  | cons m moments ih =>
      intro w last h
      rw [highChanges, feed]
      dsimp only
      rw [List.filterMap_append]
      rcases h with ⟨rfl, hlast⟩ | ⟨pulse, rfl, hlast⟩
      · cases hclock : m.clock with
        | false =>
            rw [ih Watch.low m (Or.inl ⟨rfl, hclock⟩)]
            simp [watchLines, hlast, hclock]
        | true =>
            rw [ih (Watch.high m.data true) m (Or.inr ⟨true, rfl, hclock⟩)]
            simp [watchLines, hlast, hclock]
      · cases hclock : m.clock with
        | false =>
            rw [ih Watch.low m (Or.inl ⟨rfl, hclock⟩)]
            cases pulse with
            | false =>
                simp [watchLines, hclock]
            | true =>
                simp [watchLines, hclock, Condition.change]
        | true =>
            by_cases hdata : m.data = last.data
            · rw [ih (Watch.high last.data pulse) m (Or.inr ⟨pulse, by rw [hdata], hclock⟩)]
              simp [watchLines, hlast, hclock, hdata]
            · rw [ih (Watch.high m.data false) m (Or.inr ⟨false, rfl, hclock⟩)]
              cases hm : m.data with
              | false =>
                  have hl : last.data = true := by
                    rw [hm] at hdata
                    simpa using Ne.symm hdata
                  simp [watchLines, hlast, hclock, hm, hl, Condition.change]
              | true =>
                  have hl : last.data = false := by
                    rw [hm] at hdata
                    simpa using Ne.symm hdata
                  simp [watchLines, hlast, hclock, hm, hl, Condition.change]

def idleMoment : Moment := ⟨true, false, true, false⟩

/-- The lines of a whole run mean its slots, and nothing else. -/
structure LinesDecode (dat : Byte) (slots : List Slot) : Prop where
  /-- The watcher sees the slots. -/
  conditions : (feed watchLines idleWatch ((waves dat slots).flatMap Prod.snd)).1 =
    slots.flatMap Slot.conditions
  /-- At a high SCLK the line changes for the starts and the stops only. -/
  changes : highChanges idleMoment ((waves dat slots).flatMap Prod.snd) =
    (slots.flatMap Slot.conditions).filterMap Condition.change
  /-- The routines read what the slave sends. -/
  acks : forall level moments, (Slot.ack level, moments) ∈ waves dat slots ->
    samplesOf moments = [level]
  bytes : forall b moments, (Slot.read b, moments) ∈ waves dat slots ->
    assemble (samplesOf moments) = b
  /-- The master does not drive SDIO in the slots of the slave. -/
  released : forall slot moments, (slot, moments) ∈ waves dat slots -> slot.released = true ->
    forall m, m ∈ moments -> m.driven = false

/-- All calls of both functions, with any slave, are seen as the slots of their routines. -/
theorem lines_decode {S : Type} (chip : Slave S) (s : S) (dat : Byte) (calls : List Call) :
    LinesDecode dat (slotsOf chip s calls) := by
  rcases slotsOf_ordered chip s calls with ⟨idle, hordered⟩
  rcases ordered_waves hordered dat [] (fun _ => rfl) with ⟨wires, watch, hwaves, _⟩
  have hlevels : (slotsOf chip s calls).flatMap Slot.levels ++ [] =
      (slotsOf chip s calls).flatMap Slot.levels := List.append_nil _
  have hwatch := hwaves.watch
  have hseen := hwaves.seen
  rw [hlevels] at hwatch hseen
  have hconditions : (feed watchLines idleWatch
      ((waves dat (slotsOf chip s calls)).flatMap Prod.snd)).1 =
        (slotsOf chip s calls).flatMap Slot.conditions := congrArg Prod.fst hwatch
  constructor
  · exact hconditions
  · rw [highChanges_conditions _ idleWatch idleMoment (Or.inr ⟨false, rfl, rfl⟩), hconditions]
  · intro level moments hmem
    exact (hseen _ hmem).1
  · intro b moments hmem
    have hsamples : samplesOf moments = msbBits b := (hseen _ hmem).1
    rw [hsamples]
    exact assemble_msbBits b
  · intro slot moments hmem
    exact (hseen _ hmem).2

/-- A slave that acknowledges as the list says, and sends one byte. -/
def scriptedSlave (b : Byte) : Slave (List Bool) where
  after := fun answers slot => if let Slot.ack _ := slot then answers.tail else answers
  acknowledges := fun answers => answers.headD false
  data := fun _ => b

/-- A store behind a refused poll, a load whose address is refused, and a load. -/
theorem lines_decode_sample :
    slotsOf (scriptedSlave 0x5a#8) [false, true, true, true, true, false, true, true, true]
        [Call.store 4 0x10#8 [0x5a#8] firstDevice firstBlock,
          Call.load 0x10#8 1 firstDevice firstBlock, Call.load 0x10#8 1 firstDevice firstBlock] =
      refusals 0xa0#8 1 ++ storeAttempt 0xa0#8 0x10#8 0x5a#8 true true ++
        loadAttempt firstDevice firstBlock 0x10#8 0#8 true false false ++
        loadAttempt firstDevice firstBlock 0x10#8 0x5a#8 true true true ∧
    LinesDecode 0x00#8 (refusals 0xa0#8 1 ++ storeAttempt 0xa0#8 0x10#8 0x5a#8 true true ++
        loadAttempt firstDevice firstBlock 0x10#8 0#8 true false false ++
        loadAttempt firstDevice firstBlock 0x10#8 0x5a#8 true true true) := by
  have hslots : slotsOf (scriptedSlave 0x5a#8)
      [false, true, true, true, true, false, true, true, true]
        [Call.store 4 0x10#8 [0x5a#8] firstDevice firstBlock,
          Call.load 0x10#8 1 firstDevice firstBlock, Call.load 0x10#8 1 firstDevice firstBlock] =
      refusals 0xa0#8 1 ++ storeAttempt 0xa0#8 0x10#8 0x5a#8 true true ++
        loadAttempt firstDevice firstBlock 0x10#8 0#8 true false false ++
        loadAttempt firstDevice firstBlock 0x10#8 0x5a#8 true true true := by
    decide
  refine ⟨hslots, ?_⟩
  rw [← hslots]
  exact lines_decode (scriptedSlave 0x5a#8) _ 0x00#8 _

end Srom
end Bab750
