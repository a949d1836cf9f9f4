import Bab750.Srom.Eeprom
import Bab750.Srom.Lines

/-!
# The bus behind a call

`el_srom_load` leaves the bus with a stop condition on every way out. `el_srom_store` does so
only when the slave takes every byte and the range does not leave the second block.
-/

namespace Bab750
namespace Srom

open Foundation

/-!
# Calls with any arguments
-/

section Arguments

variable {S : Type} (chip : Slave S)

/-- `el_srom_load`; the loop does not run for a negative `cnt`. -/
def elSromLoadInt (addr : Byte) (cnt : Int) (device block : Byte) (bus : Bus S) :
    Int × List Byte × Bus S :=
  if 0 <= cnt then elSromLoad chip addr cnt.toNat device block bus else (cnt, [], bus)

/-- The bytes that `el_srom_store` may take from its buffer. -/
def firstBytes (buf : Nat -> Byte) (cnt : Int) : List Byte := (List.range cnt.toNat).map buf

/-- `el_srom_store`; the loop does not run for a negative `cnt`. -/
def elSromStoreInt (fuel : Nat) (addr : Byte) (buf : Nat -> Byte) (cnt : Int)
    (device block : Byte) (bus : Bus S) : Outcome × Bus S :=
  if 0 <= cnt then elSromStore chip fuel addr (firstBytes buf cnt) device block bus
  else (Outcome.returned cnt, bus)

end Arguments

theorem firstBytes_length (buf : Nat -> Byte) (cnt : Int) :
    (firstBytes buf cnt).length = cnt.toNat := by
  rw [firstBytes, List.length_map, List.length_range]

/-!
# What a call should leave behind
-/

def linesBehind (dat : Byte) (slots : List Slot) : Wires :=
  (feed slotWave (idleWires dat (slots.flatMap Slot.levels)) slots).2

/-- The last thing on the bus, if any, is a stop, and no line is driven. -/
structure Released (slots : List Slot) : Prop where
  last : forall slot, slots.getLast? = some slot -> slot = Slot.stop
  lines : forall dat, (linesBehind dat slots).dir = 0x00#8

/-- The bytes that the slave took and that a stop condition follows, which writes them. -/
def writtenBytes : List Slot -> List Byte
  | Slot.write b :: Slot.ack false :: Slot.stop :: slots => b :: writtenBytes slots
  | _ :: slots => writtenBytes slots
  | [] => []

/-- The number of bytes from a place to the end of the chip. -/
def room (addr block : Byte) : Nat := (if block = firstBlock then 512 else 256) - addr.toNat

section Promises

variable {S : Type} (chip : Slave S)

/-- What is promised of `el_srom_load`. -/
structure LoadReleases (addr : Byte) (cnt : Int) (device block : Byte) (s : S) : Prop where
  value : (elSromLoadInt chip addr cnt device block ⟨s, []⟩).1 = cnt ∨
    (elSromLoadInt chip addr cnt device block ⟨s, []⟩).1 = error
  short : ((elSromLoadInt chip addr cnt device block ⟨s, []⟩).2.1.length : Int) < cnt ->
    (elSromLoadInt chip addr cnt device block ⟨s, []⟩).1 = error
  released : Released (elSromLoadInt chip addr cnt device block ⟨s, []⟩).2.2.slots

/-- What is promised of `el_srom_store`. -/
structure StoreReleases (addr : Byte) (buf : Nat -> Byte) (cnt : Int) (device block : Byte)
    (s : S) : Prop where
  terminates : exists fuel value bus,
    elSromStoreInt chip fuel addr buf cnt device block ⟨s, []⟩ = (Outcome.returned value, bus)
  value : forall fuel value bus,
    elSromStoreInt chip fuel addr buf cnt device block ⟨s, []⟩ = (Outcome.returned value, bus) ->
      value = cnt ∨ value = error
  short : forall fuel value bus,
    elSromStoreInt chip fuel addr buf cnt device block ⟨s, []⟩ = (Outcome.returned value, bus) ->
      ((writtenBytes bus.slots).length : Int) < cnt -> value = error
  released : forall fuel value bus,
    elSromStoreInt chip fuel addr buf cnt device block ⟨s, []⟩ = (Outcome.returned value, bus) ->
      Released bus.slots
  outside : forall fuel value bus,
    elSromStoreInt chip fuel addr buf cnt device block ⟨s, []⟩ = (Outcome.returned value, bus) ->
      ¬ Fits addr block cnt.toNat ->
        value = error ∧ writtenBytes bus.slots = (firstBytes buf cnt).take (room addr block)

/-!
# Slaves that take every byte
-/

def addressedSlave (control : Byte) (s : S) : S :=
  chip.after (chip.after s Slot.start) (Slot.write control)

def takenSlave (b : Byte) (s : S) : S :=
  chip.after (chip.after s (Slot.write b)) (Slot.ack false)

def Takes (b : Byte) (s : S) : Prop := chip.acknowledges (chip.after s (Slot.write b)) = true

/-- The slave acknowledges a control byte sooner or later, and how it stands then. -/
inductive Polled (control : Byte) : S -> S -> Prop where
  | taken {s : S} (h : chip.acknowledges (addressedSlave chip control s) = true) :
      Polled control s (chip.after (addressedSlave chip control s) (Slot.ack false))
  | refused {s s' : S} (h : chip.acknowledges (addressedSlave chip control s) = false)
      (hrest : Polled control (chip.after (chip.after (addressedSlave chip control s)
        (Slot.ack true)) Slot.stop) s') : Polled control s s'

inductive Serves (device : Byte) : List Byte -> Byte -> Byte -> S -> Prop where
  | done {addr block : Byte} {s : S} : Serves device [] addr block s
  | byte {b : Byte} {buf : List Byte} {addr block : Byte} {s s' : S}
      (hpoll : Polled chip (0xa0#8 ||| device ||| block) s s') (haddr : Takes chip addr s')
      (hdata : Takes chip b (takenSlave chip addr s'))
      (hrest : Serves device buf (addr + 1#8)
        ((nextBlock (addr + 1#8) buf.length block).getD block)
        (chip.after (takenSlave chip b (takenSlave chip addr s')) Slot.stop)) :
      Serves device (b :: buf) addr block s

end Promises

/-!
# Released buses
-/

theorem Ordered.last {slots : List Slot} {idle : Bool} (h : Ordered slots idle) :
    (idle = true -> forall slot, slots.getLast? = some slot -> slot = Slot.stop) ∧
      (idle = false -> exists slot, slots.getLast? = some slot ∧ slot ≠ Slot.stop) := by
  cases h with
  | idle =>
      exact ⟨fun _ slot hslot => (by cases hslot), fun hidle => (by cases hidle)⟩
  | start h =>
      exact ⟨fun hidle => (by cases hidle),
        fun _ => ⟨Slot.start, List.getLast?_concat, fun hstop => by cases hstop⟩⟩
  | stop h =>
      refine ⟨fun _ slot hslot => ?_, fun hidle => by cases hidle⟩
      rw [List.getLast?_concat, Option.some.injEq] at hslot
      exact hslot.symm
  | other h hslot =>
      exact ⟨fun hidle => (by cases hidle), fun _ => ⟨_, List.getLast?_concat, hslot⟩⟩

theorem ordered_released {slots : List Slot} (h : Ordered slots true) : Released slots := by
  refine ⟨h.last.1 rfl, fun dat => ?_⟩
  rcases ordered_waves h dat [] (fun _ => rfl) with ⟨wires, watch, hwaves, hstate⟩
  have hwires := hwaves.wires
  rw [List.append_nil] at hwires
  rcases hstate with ⟨_, hdir, _⟩ | ⟨hidle, _⟩
  · rw [linesBehind, hwires, hdir]
  · cases hidle

theorem ordered_not_released {slots : List Slot} (h : Ordered slots false) :
    ¬ Released slots := by
  intro hreleased
  rcases h.last.2 rfl with ⟨slot, hlast, hne⟩
  exact hne (hreleased.last slot hlast)

/-!
# Reading
-/

section Reading

variable {S : Type} (chip : Slave S) {bus : Bus S} {idle : Bool}

theorem loadBytes_count (device : Byte) (left : Nat) :
    forall (addr block : Byte) (bus : Bus S),
      (loadBytes chip device left addr block bus).1.length <= left ∧
        ((loadBytes chip device left addr block bus).2.1 = true ->
          (loadBytes chip device left addr block bus).1.length = left) := by
  induction left with
  | zero =>
      intro addr block bus
      exact ⟨Nat.le_refl 0, fun _ => rfl⟩
  | succ left ih =>
      intro addr block bus
      rw [loadBytes]
      split
      · exact ⟨Nat.zero_le _, fun htrue => by cases htrue⟩
      · split
        · exact ⟨Nat.succ_le_succ (Nat.zero_le _), fun htrue => by cases htrue⟩
        · rename_i b bus1 _ _ block' _
          rcases ih (addr + 1#8) block' bus1 with ⟨hle, heq⟩
          exact ⟨Nat.succ_le_succ hle, fun htrue => congrArg Nat.succ (heq htrue)⟩

theorem elSromLoad_releases (addr : Byte) (cnt : Int) (device block : Byte) (s : S) :
    LoadReleases chip addr cnt device block s := by
  have hcount := loadBytes_count chip device cnt.toNat addr block ⟨s, []⟩
  have hstopped := loadBytes_stopped chip device cnt.toNat addr block ⟨s, []⟩ Ordered.idle
  by_cases hcnt : 0 <= cnt
  · have hnat : (cnt.toNat : Int) = cnt := Int.toNat_of_nonneg hcnt
    constructor
    · rw [elSromLoadInt, if_pos hcnt, elSromLoad]
      dsimp only
      split
      · exact Or.inl hnat
      · exact Or.inr rfl
    · rw [elSromLoadInt, if_pos hcnt, elSromLoad]
      dsimp only
      intro hshort
      rw [if_neg]
      intro hdone
      have hall := hcount.2 hdone
      omega
    · rw [elSromLoadInt, if_pos hcnt]
      exact ordered_released hstopped
  · have hcall : elSromLoadInt chip addr cnt device block ⟨s, []⟩ = (cnt, [], ⟨s, []⟩) := by
      rw [elSromLoadInt, if_neg hcnt]
    constructor
    · exact Or.inl (by rw [hcall])
    · rw [hcall]
      intro hshort
      exact absurd hshort (by simp; omega)
    · rw [hcall]
      exact ordered_released Ordered.idle

end Reading

/-!
# Places
-/

theorem nextBlock_some_fits {addr block block' : Byte} {left : Nat}
    (h : nextBlock (addr + 1#8) left block = some block') :
    Fits addr block (left + 1) <-> Fits (addr + 1#8) block' left := by
  have hlt := addr.isLt
  have hnext : (addr + 1#8).toNat = (addr.toNat + 1) % 256 := by
    rw [BitVec.toNat_add]
    rfl
  unfold nextBlock at h
  unfold Fits
  by_cases hzero : addr + 1#8 = 0#8
  · have hend : (addr + 1#8).toNat = 0 := by
      rw [hzero]
      rfl
    by_cases hleft : left = 0
    · rw [if_neg (fun hand => hand.2 hleft)] at h
      split
      · split <;> omega
      · split <;> omega
    · rw [if_pos ⟨hzero, hleft⟩] at h
      split at h
      case isTrue hfirst =>
          cases h
          rw [if_pos hfirst, if_neg (by decide)]
          omega
      case isFalse =>
          cases h
  · have hne : (addr + 1#8).toNat ≠ 0 := by
      intro h0
      exact hzero (BitVec.eq_of_toNat_eq h0)
    rw [if_neg (fun hand => hzero hand.1)] at h
    cases h
    have hsucc : (addr + 1#8).toNat = addr.toNat + 1 := by omega
    rw [hsucc]
    split <;> omega

theorem nextBlock_none_fits {addr block : Byte} {left : Nat}
    (h : nextBlock (addr + 1#8) left block = none) : ¬ Fits addr block (left + 1) := by
  have hlt := addr.isLt
  have hnext : (addr + 1#8).toNat = (addr.toNat + 1) % 256 := by
    rw [BitVec.toNat_add]
    rfl
  unfold nextBlock at h
  split at h
  case isTrue hzero =>
      have hend : (addr + 1#8).toNat = 0 := by
        rw [hzero.1]
        rfl
      split at h
      case isTrue =>
          cases h
      case isFalse hsecond =>
          have hleft := hzero.2
          rw [Fits, if_neg hsecond]
          omega
  case isFalse =>
      cases h

/-!
# Written bytes
-/

theorem writtenBytes_start (before behind : List Slot) :
    writtenBytes (before ++ Slot.start :: behind) =
      writtenBytes before ++ writtenBytes behind := by
  induction before using writtenBytes.induct with
  | case1 b slots ih =>
      simp only [List.cons_append, writtenBytes, ih]
  | case2 slot slots hother ih =>
      rw [List.cons_append, writtenBytes, writtenBytes, ih]
      · exact hother
      · intro b rest hslot hrest
        cases slots with
        | nil =>
            cases hrest
        | cons second slots =>
            cases slots with
            | nil =>
                cases hrest
            | cons third slots =>
                rw [List.cons_append, List.cons_append] at hrest
                cases hrest
                exact hother b slots hslot rfl
  | case3 =>
      rfl

/-!
# Writing
-/

section Writing

variable {S : Type} (chip : Slave S)

theorem writeAcked_takes {bus : Bus S} {b : Byte} (h : Takes chip b bus.slave) :
    writeAcked chip bus b =
      (true, ⟨takenSlave chip b bus.slave, bus.slots ++ [Slot.write b, Slot.ack false]⟩) := by
  unfold Takes at h
  simp [writeAcked, eepWriteByte, eepReadAck, Bus.put, takenSlave, h]

theorem writeAcked_leaves (bus : Bus S) {b : Byte} (h : ¬ Takes chip b bus.slave) :
    exists s, writeAcked chip bus b =
      (false, ⟨s, bus.slots ++ [Slot.write b, Slot.ack true]⟩) := by
  unfold Takes at h
  have hfalse := Bool.eq_false_of_not_eq_true h
  exact ⟨_, by simp [writeAcked, eepWriteByte, eepReadAck, Bus.put, hfalse]; rfl⟩

theorem poll_taken {control : Byte} {bus : Bus S}
    (h : chip.acknowledges (addressedSlave chip control bus.slave) = true) :
    writeAcked chip (eepStart chip bus) control =
      (true, ⟨chip.after (addressedSlave chip control bus.slave) (Slot.ack false),
        bus.slots ++ [Slot.start, Slot.write control, Slot.ack false]⟩) := by
  unfold addressedSlave at h
  simp [writeAcked, eepStart, eepWriteByte, eepReadAck, Bus.put, addressedSlave, h]

theorem poll_refused {control : Byte} {bus : Bus S}
    (h : chip.acknowledges (addressedSlave chip control bus.slave) = false) :
    exists between, writeAcked chip (eepStart chip bus) control = (false, between) ∧
      eepStop chip between =
        ⟨chip.after (chip.after (addressedSlave chip control bus.slave) (Slot.ack true))
            Slot.stop,
          bus.slots ++ [Slot.start, Slot.write control, Slot.ack true, Slot.stop]⟩ := by
  unfold addressedSlave at h
  refine ⟨_, Prod.ext ?_ rfl, ?_⟩
  · simpa [writeAcked, eepStart, eepWriteByte, eepReadAck, Bus.put] using h
  · simp [writeAcked, eepStart, eepStop, eepWriteByte, eepReadAck, Bus.put, addressedSlave, h]

theorem Polled.unique {control : Byte} {s s1 : S} (h : Polled chip control s s1) :
    forall s2, Polled chip control s s2 -> s1 = s2 := by
  induction h with
  | taken h =>
      intro s2 h2
      cases h2 with
      | taken _ =>
          rfl
      | refused hrefused _ =>
          rw [h] at hrefused
          cases hrefused
  | refused h _ ih =>
      intro s2 h2
      cases h2 with
      | taken htaken =>
          rw [h] at htaken
          cases htaken
      | refused _ hrest =>
          exact ih s2 hrest

theorem pollSlave_ends (control : Byte) (fuel : Nat) :
    forall bus bus' : Bus S, Ordered bus.slots true ->
      pollSlave chip control fuel bus = (true, bus') ->
        Polled chip control bus.slave bus'.slave ∧
          exists polls, bus'.slots = polls ++ [Slot.start, Slot.write control, Slot.ack false] ∧
            Ordered polls true ∧ writtenBytes polls = writtenBytes bus.slots := by
  induction fuel with
  | zero =>
      intro bus bus' _ h
      cases h
  | succ fuel ih =>
      intro bus bus' hordered h
      rw [pollSlave] at h
      cases hack : chip.acknowledges (addressedSlave chip control bus.slave) with
      | true =>
          rw [poll_taken chip hack] at h
          cases h
          exact ⟨Polled.taken hack, bus.slots, rfl, hordered, rfl⟩
      | false =>
          rcases poll_refused chip hack with ⟨between, hpoll, hstop⟩
          rw [hpoll] at h
          dsimp only at h
          rw [hstop] at h
          have hpolled : Ordered (bus.slots ++
              [Slot.start, Slot.write control, Slot.ack true, Slot.stop]) true := by
            have hrest := eepStop_ordered chip (writeAcked_ordered chip
              (eepStart_ordered chip hordered) control)
            rwa [hpoll, hstop] at hrest
          rcases ih _ bus' hpolled h with ⟨hslave, polls, hslots, hidle, hwritten⟩
          refine ⟨Polled.refused hack hslave, polls, hslots, hidle, ?_⟩
          rw [hwritten, writtenBytes_start]
          exact List.append_nil _

theorem Polled.terminates {control : Byte} {s s' : S} (h : Polled chip control s s') :
    exists polls, forall fuel bus, polls <= fuel -> bus.slave = s ->
      exists bus', pollSlave chip control fuel bus = (true, bus') ∧ bus'.slave = s' := by
  induction h with
  | taken h =>
      refine ⟨1, fun fuel bus hfuel hslave => ?_⟩
      cases fuel with
      | zero =>
          exact absurd hfuel (Nat.not_succ_le_zero 0)
      | succ fuel =>
          subst hslave
          rw [pollSlave, poll_taken chip h]
          exact ⟨_, rfl, rfl⟩
  | refused h _ ih =>
      rcases ih with ⟨polls, ih⟩
      refine ⟨polls + 1, fun fuel bus hfuel hslave => ?_⟩
      cases fuel with
      | zero =>
          exact absurd hfuel (Nat.not_succ_le_zero polls)
      | succ fuel =>
          subst hslave
          rcases poll_refused chip h with ⟨between, hpoll, hstop⟩
          rw [pollSlave, hpoll]
          dsimp only
          rw [hstop]
          exact ih fuel _ (Nat.le_of_succ_le_succ hfuel) rfl

/-- The two ways out of `el_srom_store`. -/
inductive StoreExit (device : Byte) (cnt : Int) (buf : List Byte) (addr block : Byte)
    (bus : Bus S) : Int -> Bus S -> Prop where
  | complete {bus' : Bus S} (serves : Serves chip device buf addr block bus.slave)
      (fits : Fits addr block buf.length) (released : Ordered bus'.slots true)
      (written : writtenBytes bus'.slots = writtenBytes bus.slots ++ buf) :
      StoreExit device cnt buf addr block bus cnt bus'
  | early {bus' : Bus S} (refused : ¬ (Serves chip device buf addr block bus.slave ∧
      Fits addr block buf.length)) (unreleased : Ordered bus'.slots false) :
      StoreExit device cnt buf addr block bus error bus'

/-- A slave that serves a byte stands in the state in which the polling left it. -/
theorem Serves.inversion {device addr block b : Byte} {buf : List Byte} {s s' : S}
    (h : Serves chip device (b :: buf) addr block s)
    (hpoll : Polled chip (0xa0#8 ||| device ||| block) s s') :
    Takes chip addr s' ∧ Takes chip b (takenSlave chip addr s') ∧
      Serves chip device buf (addr + 1#8)
        ((nextBlock (addr + 1#8) buf.length block).getD block)
        (chip.after (takenSlave chip b (takenSlave chip addr s')) Slot.stop) := by
  cases h with
  | byte hpoll' haddr hdata hrest =>
      rw [Polled.unique chip hpoll _ hpoll']
      exact ⟨haddr, hdata, hrest⟩

theorem storeBytes_exit (device : Byte) (fuel : Nat) (cnt : Int) (buf : List Byte) :
    forall (addr block : Byte) (bus : Bus S) (value : Int) (bus' : Bus S),
      Ordered bus.slots true ->
      storeBytes chip device fuel cnt buf addr block bus = (Outcome.returned value, bus') ->
      StoreExit chip device cnt buf addr block bus value bus' := by
  induction buf with
  | nil =>
      intro addr block bus value bus' hidle h
      cases h
      have hlt := addr.isLt
      refine StoreExit.complete Serves.done ?_ hidle (List.append_nil _).symm
      rw [Fits, List.length_nil]
      split <;> omega
  | cons b buf ih =>
      intro addr block bus value bus' hidle h
      rw [storeBytes] at h
      cases hpoll : pollSlave chip (0xa0#8 ||| device ||| block) fuel bus with
      | mk answered bus1 =>
          rw [hpoll] at h
          cases answered with
          | false =>
              cases h
          | true =>
              rcases pollSlave_ends chip _ fuel bus bus1 hidle hpoll with
                ⟨hpolled, polls, hslots, hpolls, hwritten⟩
              have hbus1 : Ordered bus1.slots false := by
                have hordered := (pollSlave_orderly chip (0xa0#8 ||| device ||| block) fuel bus
                  ⟨true, hidle⟩).2
                rw [hpoll] at hordered
                exact hordered rfl
              have haddrOrdered := writeAcked_ordered chip hbus1 addr
              dsimp only at h
              by_cases haddr : Takes chip addr bus1.slave
              · rw [writeAcked_takes chip haddr] at h haddrOrdered
                dsimp only at h
                cases hnext : nextBlock (addr + 1#8) buf.length block with
                | none =>
                    rw [hnext] at h
                    cases h
                    exact StoreExit.early (fun hand => nextBlock_none_fits hnext hand.2)
                      haddrOrdered
                | some block' =>
                    rw [hnext] at h
                    dsimp only at h
                    have hdataOrdered := writeAcked_ordered chip haddrOrdered b
                    by_cases hdata : Takes chip b (takenSlave chip addr bus1.slave)
                    · rw [writeAcked_takes chip hdata] at h hdataOrdered
                      have hrest := ih _ _ _ value bus' (eepStop_ordered chip hdataOrdered) h
                      have hfits := nextBlock_some_fits hnext
                      cases hrest with
                      | complete serves fits idle' written =>
                          refine StoreExit.complete ?_ (hfits.mpr fits) idle' ?_
                          · refine Serves.byte hpolled haddr hdata ?_
                            rw [hnext]
                            exact serves
                          · rw [written]
                            simp only [eepStop, Bus.put, hslots, List.append_assoc,
                              List.cons_append, List.nil_append]
                            rw [writtenBytes_start, hwritten]
                            simp [writtenBytes]
                      | early refused unreleased =>
                          refine StoreExit.early (fun hand => refused ?_) unreleased
                          have hserves := (hand.1.inversion chip hpolled).2.2
                          rw [hnext] at hserves
                          exact ⟨hserves, hfits.mp hand.2⟩
                    · rcases writeAcked_leaves chip ⟨takenSlave chip addr bus1.slave,
                        bus1.slots ++ [Slot.write addr, Slot.ack false]⟩ hdata with ⟨s, hleaves⟩
                      rw [hleaves] at h hdataOrdered
                      cases h
                      exact StoreExit.early
                        (fun hand => hdata (hand.1.inversion chip hpolled).2.1) hdataOrdered
              · rcases writeAcked_leaves chip bus1 haddr with ⟨s, hleaves⟩
                rw [hleaves] at h haddrOrdered
                cases h
                exact StoreExit.early (fun hand => haddr (hand.1.inversion chip hpolled).1)
                  haddrOrdered

theorem storeBytes_terminates {device : Byte} (cnt : Int) {buf : List Byte} {addr block : Byte}
    {s : S} (h : Serves chip device buf addr block s) :
    exists polls, forall fuel bus, polls <= fuel -> bus.slave = s ->
      exists value bus', storeBytes chip device fuel cnt buf addr block bus =
        (Outcome.returned value, bus') := by
  induction h with
  | done =>
      exact ⟨0, fun fuel bus _ _ => ⟨cnt, bus, rfl⟩⟩
  | @byte b buf addr block s s' hpoll haddr hdata _ ih =>
      rcases hpoll.terminates chip with ⟨polls, hpolls⟩
      rcases ih with ⟨rest, hrest⟩
      refine ⟨max polls rest, fun fuel bus hfuel hslave => ?_⟩
      rcases hpolls fuel bus (by omega) hslave with ⟨bus1, hbus1, hstands⟩
      subst hstands
      rw [storeBytes, hbus1]
      dsimp only
      rw [writeAcked_takes chip haddr]
      dsimp only
      cases hnext : nextBlock (addr + 1#8) buf.length block with
      | none =>
          exact ⟨error, _, rfl⟩
      | some block' =>
          rw [hnext] at hrest
          dsimp only
          rw [writeAcked_takes chip hdata]
          exact hrest fuel _ (by omega) rfl

end Writing

/-!
# Released in the end
-/

theorem elSromStoreInt_nonneg {S : Type} (chip : Slave S) {cnt : Int} (hcnt : 0 <= cnt)
    (fuel : Nat) (addr : Byte) (buf : Nat -> Byte) (device block : Byte) (bus : Bus S) :
    elSromStoreInt chip fuel addr buf cnt device block bus =
      storeBytes chip device fuel cnt (firstBytes buf cnt) addr block bus := by
  rw [elSromStoreInt, if_pos hcnt, elSromStore, firstBytes_length, Int.toNat_of_nonneg hcnt]

theorem elSromStoreInt_neg {S : Type} (chip : Slave S) {cnt : Int} (hcnt : ¬ 0 <= cnt)
    (fuel : Nat) (addr : Byte) (buf : Nat -> Byte) (device block : Byte) (bus : Bus S) :
    elSromStoreInt chip fuel addr buf cnt device block bus = (Outcome.returned cnt, bus) :=
  if_neg hcnt

theorem firstBytes_neg (buf : Nat -> Byte) {cnt : Int} (hcnt : ¬ 0 <= cnt) :
    firstBytes buf cnt = [] := by
  rw [firstBytes, Int.toNat_of_nonpos (by omega)]
  rfl

theorem fits_zero (addr block : Byte) : Fits addr block 0 := by
  have hlt := addr.isLt
  rw [Fits]
  split <;> omega

theorem storeReleases_neg {S : Type} (chip : Slave S) {cnt : Int} (hcnt : ¬ 0 <= cnt)
    (addr : Byte) (buf : Nat -> Byte) (device block : Byte) (s : S) :
    StoreReleases chip addr buf cnt device block s := by
  have hcall := fun fuel => elSromStoreInt_neg chip hcnt fuel addr buf device block ⟨s, []⟩
  constructor
  · exact ⟨0, cnt, _, hcall 0⟩
  · intro fuel value bus h
    rw [hcall fuel] at h
    cases h
    exact Or.inl rfl
  · intro fuel value bus h hshort
    rw [hcall fuel] at h
    cases h
    exact absurd hshort (by simp [writtenBytes]; omega)
  · intro fuel value bus h
    rw [hcall fuel] at h
    cases h
    exact ordered_released Ordered.idle
  · intro fuel value bus h hfits
    rw [Int.toNat_of_nonpos (by omega)] at hfits
    exact absurd (fits_zero addr block) hfits

theorem storeReleases_nonneg {S : Type} (chip : Slave S) {cnt : Int} (hcnt : 0 <= cnt)
    (addr : Byte) (buf : Nat -> Byte) (device block : Byte) (s : S) :
    StoreReleases chip addr buf cnt device block s <->
      Serves chip device (firstBytes buf cnt) addr block s ∧ Fits addr block cnt.toNat := by
  have hcall := fun fuel => elSromStoreInt_nonneg chip hcnt fuel addr buf device block ⟨s, []⟩
  have hlength := firstBytes_length buf cnt
  have hexit : forall fuel value bus,
      elSromStoreInt chip fuel addr buf cnt device block ⟨s, []⟩ =
        (Outcome.returned value, bus) ->
      StoreExit chip device cnt (firstBytes buf cnt) addr block ⟨s, []⟩ value bus := by
    intro fuel value bus h
    rw [hcall fuel] at h
    exact storeBytes_exit chip device fuel cnt _ addr block _ value bus Ordered.idle h
  constructor
  · intro h
    rcases h.terminates with ⟨fuel, value, bus, hreturned⟩
    have hreleased := h.released fuel value bus hreturned
    cases hexit fuel value bus hreturned with
    | complete serves fits released written =>
        rw [hlength] at fits
        exact ⟨serves, fits⟩
    | early refused unreleased =>
        exact absurd hreleased (ordered_not_released unreleased)
  · rintro ⟨hserves, hfits⟩
    have hcomplete : forall fuel value bus,
        elSromStoreInt chip fuel addr buf cnt device block ⟨s, []⟩ =
          (Outcome.returned value, bus) ->
        value = cnt ∧ Ordered bus.slots true ∧ writtenBytes bus.slots = firstBytes buf cnt := by
      intro fuel value bus h
      cases hexit fuel value bus h with
      | complete serves fits released written =>
          exact ⟨rfl, released, written⟩
      | early refused unreleased =>
          rw [hlength] at refused
          exact absurd ⟨hserves, hfits⟩ refused
    constructor
    · rcases storeBytes_terminates chip cnt hserves with ⟨polls, hpolls⟩
      rcases hpolls polls ⟨s, []⟩ (Nat.le_refl polls) rfl with ⟨value, bus, hreturned⟩
      exact ⟨polls, value, bus, by rw [hcall polls, hreturned]⟩
    · intro fuel value bus h
      exact Or.inl (hcomplete fuel value bus h).1
    · intro fuel value bus h hshort
      rw [(hcomplete fuel value bus h).2.2, hlength] at hshort
      omega
    · intro fuel value bus h
      exact ordered_released (hcomplete fuel value bus h).2.1
    · intro fuel value bus _ hleaves
      exact absurd hfits hleaves

/--
`el_srom_load` always leaves the bus released. `el_srom_store` does just when the slave takes
all the bytes and they do not run past the second block.
-/
theorem srom_released_iff {S : Type} (chip : Slave S) (s : S) (addr : Byte) (buf : Nat -> Byte)
    (cnt : Int) (device block : Byte) :
    LoadReleases chip addr cnt device block s ∧
      (StoreReleases chip addr buf cnt device block s <->
        Serves chip device (firstBytes buf cnt) addr block s ∧ Fits addr block cnt.toNat) := by
  refine ⟨elSromLoad_releases chip addr cnt device block s, ?_⟩
  by_cases hcnt : 0 <= cnt
  · exact storeReleases_nonneg chip hcnt addr buf device block s
  · refine ⟨fun _ => ?_, fun _ => storeReleases_neg chip hcnt addr buf device block s⟩
    rw [firstBytes_neg buf hcnt, Int.toNat_of_nonpos (by omega)]
    exact ⟨Serves.done, fits_zero addr block⟩

def willingSlave : Slave Unit := ⟨fun s _ => s, fun _ => true, fun _ => 0xff#8⟩

/-- Two bytes from the last cell on: the one that fits is not written, and no stop follows. -/
theorem srom_store_past_end :
    ¬ StoreReleases willingSlave 0xff#8 (fun _ => 0x5a#8) 2 secondDevice secondBlock () := by
  intro h
  have hcall : elSromStoreInt willingSlave 1 0xff#8 (fun _ => 0x5a#8) 2 secondDevice secondBlock
      ⟨(), []⟩ = (Outcome.returned error, ⟨(), [Slot.start, Slot.write 0xa6#8, Slot.ack false,
        Slot.write 0xff#8, Slot.ack false]⟩) := rfl
  have hlast := (h.released 1 error _ hcall).last (Slot.ack false) rfl
  cases hlast

end Srom
end Bab750
