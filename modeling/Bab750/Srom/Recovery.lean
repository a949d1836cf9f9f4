import Bab750.Srom.Revision

/-!
# Recovery

After a run that has written the revision info or its copy, the SROM and its shadow agree
and stay as they are. A run starts long after the last write cycle, so that the chip is
ready.
-/

namespace Bab750
namespace Srom

open Foundation
open Environment

def sromBytes (cells : Cells) : List Byte :=
  (places configSysSromSize 0#8 false).map (fun place => cells place.1 place.2)

theorem sromBytes_length (cells : Cells) : (sromBytes cells).length = configSysSromSize := by
  rw [sromBytes, List.length_map, places_length]

theorem revinfo_fits : Fits 0#8 firstBlock configSysSromSize := by decide

theorem loadRevinfo_ready (env : Surroundings) {chip : Eeprom} (hready : chip.busy = 0) :
    (loadRevinfo env chip).1 = sromBytes chip.cells ∧
      (loadRevinfo env chip).2.cells = chip.cells ∧ (loadRevinfo env chip).2.busy = 0 ∧
      (loadRevinfo env chip).2.cycles = chip.cycles ∧
      (loadRevinfo env chip).2.writes = chip.writes := by
  rcases loadBytes_ready (Or.inr rfl) configSysSromSize 0#8 firstBlock chip [] (Or.inl rfl)
    revinfo_fits hready with ⟨s', new, hload, hcells, hbusy, hcycles, hwrites, _⟩
  have hbytes : (elSromLoad (eeprom secondDevice) 0#8 configSysSromSize secondDevice firstBlock
      ⟨chip, []⟩).2 = (sromBytes chip.cells, ⟨s', [] ++ new⟩) := by
    unfold elSromLoad
    rw [hload]
    rfl
  have hrest : env.stack.drop (sromBytes chip.cells).length = [] := by
    rw [sromBytes_length]
    exact List.drop_eq_nil_of_le (le_of_eq env.stackLength)
  unfold loadRevinfo
  dsimp only
  rw [hbytes]
  dsimp only
  rw [hrest, List.append_nil]
  exact ⟨rfl, hcells, hbusy, hcycles, hwrites⟩

theorem store_sromBytes {chip : Eeprom} {fuel : Nat} {value : Int} {eerev : List Byte}
    {bus : Bus Eeprom} (hlength : eerev.length = configSysSromSize)
    (h : elSromStore (eeprom secondDevice) fuel 0#8 eerev secondDevice firstBlock ⟨chip, []⟩ =
      (Outcome.returned value, bus)) : sromBytes bus.slave.cells = eerev := by
  have hfits : Fits 0#8 firstBlock eerev.length := by
    rw [hlength]
    exact revinfo_fits
  rcases storeBytes_returned (Or.inr rfl) fuel _ value eerev 0#8 firstBlock chip [] bus
    (Or.inl rfl) hfits h with ⟨hcells, _, _⟩
  rw [hlength] at hcells
  rw [sromBytes, hcells]
  exact Cells.writeAll_read revinfo_fits.nodup chip.cells eerev
    ((places_length _ _ _).trans hlength.symm)

theorem shadow_nvramWrite (nv : Nvram) {eerev : List Byte}
    (hlength : eerev.length = configSysSromSize) :
    shadow (nvramWrite nv configSysNvSromCopyAddr (eerev.take configSysSromSize)) = eerev := by
  have hread := nvramRead_nvramWrite nv configSysNvSromCopyAddr eerev
    (by rw [hlength]; decide)
  rw [hlength] at hread
  rw [<- hlength, List.take_length]
  exact hread

/-- The SROM is initialized and its shadow is the same. -/
def Consistent (cells : Cells) (nv : Nvram) : Prop :=
  hasMagic (sromBytes cells) = true ∧ shadow nv = sromBytes cells

theorem consistent_run (env : Surroundings) (input : OperatorInput) {chip : Eeprom}
    {nv : Nvram} (hready : chip.busy = 0) (h : Consistent chip.cells nv) :
    miscInitR env input chip nv = some ⟨(loadRevinfo env chip).2, nv, false, none, none,
      sromBytes chip.cells⟩ := by
  have hloaded := (loadRevinfo_ready env hready).1
  have hvalid : copyInvalid (sromBytes chip.cells) nv = false := by
    have htake : (sromBytes chip.cells).take configSysSromSize = sromBytes chip.cells := by
      rw [<- sromBytes_length chip.cells, List.take_length]
    simp [copyInvalid, htake, h.2]
  unfold miscInitR
  dsimp only
  rw [hloaded, if_pos h.1, hvalid]
  rfl

theorem writeRevinfo_entered {env : Surroundings} {input : OperatorInput} {chip : Eeprom}
    {nv : Nvram} {eerev : List Byte} {dialog copyNv : Bool} {r : Recovery}
    (h : writeRevinfo env input chip nv eerev dialog copyNv true = some r)
    (hlength : eerev.length = configSysSromSize) (hmagic : hasMagic eerev = true) :
    Consistent r.chip.cells r.nvram := by
  have hentered := enterRevinfo_magic env input hlength
  have hlength' : (enterRevinfo env input eerev).length = configSysSromSize :=
    hentered.1.trans hlength
  unfold writeRevinfo at h
  rw [if_pos rfl] at h
  dsimp only at h
  split at h
  · cases h
  · rename_i value bus hstore
    cases h
    have hbytes := store_sromBytes hlength' hstore
    constructor
    · dsimp only
      rw [hbytes, hasMagic, hentered.2]
      exact hmagic
    · dsimp only
      rw [hbytes, shadow_nvramWrite nv hlength']

theorem writeRevinfo_copied {env : Surroundings} {input : OperatorInput} {chip : Eeprom}
    {nv : Nvram} {dialog : Bool} {r : Recovery}
    (h : writeRevinfo env input chip nv (sromBytes chip.cells) dialog true false = some r)
    (hmagic : hasMagic (sromBytes chip.cells) = true) :
    Consistent r.chip.cells r.nvram := by
  have hshadow := shadow_nvramWrite nv (sromBytes_length chip.cells)
  cases h
  constructor
  · dsimp only
    exact hmagic
  · dsimp only
    rw [if_pos rfl]
    exact hshadow

/-- A run that writes the revision info or its copy leaves both the same. -/
theorem recovered_consistent {env : Surroundings} {input : OperatorInput} {chip : Eeprom}
    {nv : Nvram} {r : Recovery} (hready : chip.busy = 0)
    (hrun : miscInitR env input chip nv = some r)
    (h : Reenters env input chip nv ∨ AnswersCopy env input chip nv) :
    Consistent r.chip.cells r.nvram := by
  rcases loadRevinfo_ready env hready with ⟨hloaded, hcells, _⟩
  unfold Reenters AnswersCopy at h
  unfold miscInitR at hrun
  dsimp only at hrun
  rw [hloaded] at hrun h
  cases hmagic : hasMagic (sromBytes chip.cells) with
  | false =>
      rw [hmagic, if_neg Bool.false_ne_true] at hrun
      exact writeRevinfo_entered hrun defaultRevinfo_valid.1 defaultRevinfo_valid.2
  | true =>
      rw [hmagic, if_pos rfl] at hrun
      rw [hmagic] at h
      rcases h with (hfalse | ⟨hinvalid, hcount, hanswer⟩) | ⟨_, hinvalid, hcount, hanswer⟩
      · cases hfalse
      · have hchosen : chosen input.choice = (true, true) := by
          rw [chosen, if_pos hcount, hanswer]
          decide
        rw [hinvalid, if_pos rfl, hchosen] at hrun
        exact writeRevinfo_entered hrun (sromBytes_length chip.cells) hmagic
      · have hchosen : chosen input.choice = (true, false) := by
          rw [chosen, if_pos hcount, if_pos hanswer]
        rw [hinvalid, if_pos rfl, hchosen] at hrun
        rw [<- hcells] at hrun hmagic
        exact writeRevinfo_copied hrun hmagic

theorem silent_run {env : Surroundings} {input : OperatorInput} {chip : Eeprom}
    {nv : Nvram} {r : Recovery} (hrun : miscInitR env input chip nv = some r)
    (hsilent : r.dialog = false) :
    r.chip = (loadRevinfo env chip).2 ∧ r.nvram = nv ∧ r.network = none ∧ r.stored = none := by
  have hwrite : forall eerev dialog copyNv initSrom,
      writeRevinfo env input (loadRevinfo env chip).2 nv eerev dialog copyNv initSrom = some r ->
        dialog = false ∧ initSrom = false ∧ r.chip = (loadRevinfo env chip).2 ∧
          r.nvram = (if copyNv then
            nvramWrite nv configSysNvSromCopyAddr (eerev.take configSysSromSize) else nv) ∧
          r.network = none ∧ r.stored = none := by
    intro eerev dialog copyNv initSrom h
    cases initSrom with
    | false =>
        cases h
        exact ⟨hsilent, rfl, rfl, rfl, rfl, rfl⟩
    | true =>
        unfold writeRevinfo at h
        rw [if_pos rfl] at h
        dsimp only at h
        split at h
        · cases h
        · cases h
          cases hsilent
  unfold miscInitR at hrun
  dsimp only at hrun
  split at hrun
  · split at hrun
    · cases (hwrite _ _ _ _ hrun).1
    · rcases hwrite _ _ _ _ hrun with ⟨_, _, hchip, hnvram, hnetwork, hstored⟩
      exact ⟨hchip, hnvram, hnetwork, hstored⟩
  · cases (hwrite _ _ _ _ hrun).2.1

/--
Once the revision info was entered or copied, every later run finds the SROM and its shadow
the same, shows no prompt and writes nothing; and no run without a prompt changes a device.
-/
theorem revision_recovery {env : Surroundings} {input : OperatorInput} {chip : Eeprom}
    {nv : Nvram} {r : Recovery} (hready : chip.busy = 0)
    (hrun : miscInitR env input chip nv = some r) :
    (((Reenters env input chip nv ∧ r.stored = some (configSysSromSize : Int)) ∨
        AnswersCopy env input chip nv) ->
      forall env' input' chip', chip'.cells = r.chip.cells -> chip'.busy = 0 ->
        shadow r.nvram = sromBytes chip'.cells ∧
          exists r', miscInitR env' input' chip' r.nvram = some r' ∧ r'.dialog = false ∧
            r'.nvram = r.nvram ∧ r'.chip.cells = chip'.cells ∧
            r'.chip.writes = chip'.writes ∧ r'.network = none ∧ r'.stored = none) ∧
      (r.dialog = false -> r.nvram = nv ∧ r.chip.cells = chip.cells ∧
        r.chip.writes = chip.writes ∧ r.network = none ∧ r.stored = none) := by
  constructor
  · intro h env' input' chip' hcells hready'
    have hconsistent : Consistent chip'.cells r.nvram := by
      rw [hcells]
      apply recovered_consistent hready hrun
      rcases h with ⟨hreenters, _⟩ | hcopy
      · exact Or.inl hreenters
      · exact Or.inr hcopy
    rcases loadRevinfo_ready env' hready' with ⟨_, hcells', _, _, hwrites'⟩
    exact ⟨hconsistent.2, _, consistent_run env' input' hready' hconsistent, rfl, rfl, hcells',
      hwrites', rfl, rfl⟩
  · intro hsilent
    rcases silent_run hrun hsilent with ⟨hchip, hnvram, hnetwork, hstored⟩
    rcases loadRevinfo_ready env hready with ⟨_, hcells, _, _, hwrites⟩
    rw [hchip]
    exact ⟨hnvram, hcells, hwrites, hnetwork, hstored⟩

theorem writeRevinfo_returns {env : Surroundings} (input : OperatorInput) {chip : Eeprom}
    (nv : Nvram) {eerev : List Byte} (dialog copyNv : Bool)
    (hlength : eerev.length = configSysSromSize) (hready : chip.busy < env.fuel)
    (hcycles : forall n, chip.cycles n < env.fuel) :
    exists r, writeRevinfo env input chip nv eerev dialog copyNv true = some r ∧
      r.stored = some (configSysSromSize : Int) := by
  have hlength' : (enterRevinfo env input eerev).length = configSysSromSize :=
    (enterRevinfo_magic env input hlength).1.trans hlength
  have hreturns := storeBytes_returns (Or.inr rfl) env.fuel
    (enterRevinfo env input eerev).length (enterRevinfo env input eerev) 0#8 firstBlock chip []
    (Or.inl rfl) (by rw [hlength']; exact revinfo_fits) hready hcycles
  rcases hstore : elSromStore (eeprom secondDevice) env.fuel 0#8 (enterRevinfo env input eerev)
    secondDevice firstBlock ⟨chip, []⟩ with ⟨outcome, bus⟩
  have houtcome : outcome = Outcome.returned (enterRevinfo env input eerev).length := by
    rw [<- hreturns]
    exact (congrArg Prod.fst hstore).symm
  subst houtcome
  unfold writeRevinfo
  rw [if_pos rfl]
  dsimp only
  rw [hstore]
  refine ⟨_, rfl, ?_⟩
  dsimp only
  rw [hlength']

def sampleSurroundings : Surroundings where
  stack := List.replicate configSysSromSize 0#8
  stackLength := List.length_replicate
  behind := []
  stray := fun _ => 0#8
  cpu750 := true
  fuel := 3

def emptyLine : Line := ⟨0, fun _ => 0#8⟩

def silentOperator : OperatorInput :=
  ⟨emptyLine, emptyLine, emptyLine, emptyLine, emptyLine, emptyLine, emptyLine, emptyLine⟩

theorem revision_recovery_blank :
    exists r, miscInitR sampleSurroundings silentOperator (blankEeprom 2) (fun _ => 0#8) =
        some r ∧ r.stored = some (configSysSromSize : Int) ∧
      forall env' input' chip', chip'.cells = r.chip.cells -> chip'.busy = 0 ->
        shadow r.nvram = sromBytes chip'.cells ∧
          exists r', miscInitR env' input' chip' r.nvram = some r' ∧ r'.dialog = false ∧
            r'.nvram = r.nvram ∧ r'.chip.cells = chip'.cells ∧
            r'.chip.writes = chip'.writes ∧ r'.network = none ∧ r'.stored = none := by
  have hready : (blankEeprom 2).busy = 0 := rfl
  rcases loadRevinfo_ready sampleSurroundings hready with ⟨hloaded, _, hbusy, hcycles, _⟩
  have hmagic : hasMagic (loadRevinfo sampleSurroundings (blankEeprom 2)).1 = false := by
    rw [hloaded]
    rfl
  rcases writeRevinfo_returns silentOperator (fun _ => 0#8) false true
    defaultRevinfo_valid.1
    (show (loadRevinfo sampleSurroundings (blankEeprom 2)).2.busy < sampleSurroundings.fuel by
      rw [hbusy]; decide)
    (fun n => by rw [hcycles]; exact Nat.lt_succ_self 2) with ⟨r, hwrite, hstored⟩
  have hrun : miscInitR sampleSurroundings silentOperator (blankEeprom 2) (fun _ => 0#8) =
      some r := by
    rw [miscInitR, hmagic, if_neg Bool.false_ne_true]
    exact hwrite
  exact ⟨r, hrun, hstored, (revision_recovery hready hrun).1 (Or.inl ⟨Or.inl hmagic, hstored⟩)⟩

end Srom
end Bab750
