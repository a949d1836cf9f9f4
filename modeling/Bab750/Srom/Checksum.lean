import Bab750.Foundation.ShiftRegister
import Bab750.Srom.Recovery
import Bab750.Srom.Release

/-!
# What the checksum detects

`el_srom_checksum` is a register with feedback. Its polynomial has a top coefficient, so the
checksums of two buffers that differ only within 32 consecutive bits are different, and
`misc_init_r` sees such a difference between the SROM and its shadow.
-/

namespace Bab750
namespace Srom

open Foundation
open Environment

/-- The bits of a buffer, the least significant one of each byte first. -/
def bitsOf (bytes : List Byte) : List Bool :=
  bytes.flatMap (fun byte => (List.range 8).map byte.getLsbD)

theorem bitsOf_cons (byte : Byte) (bytes : List Byte) :
    bitsOf (byte :: bytes) = (List.range 8).map byte.getLsbD ++ bitsOf bytes := rfl

/-- The polynomial of `el_srom_checksum`. -/
def checksumPoly : BitVec 32 := 0x84083001#32

theorem elSromChecksum_feedback (bytes : List Byte) :
    elSromChecksum bytes = feedbackBits checksumPoly 0#32 (bitsOf bytes) := by
  have hrun : forall accu : BitVec 32,
      bytes.foldl (fun accu byte => (List.range 8).foldl
          (fun accu i => checksumBit accu (byte.getLsbD i)) accu) accu =
        feedbackBits checksumPoly accu (bitsOf bytes) := by
    induction bytes with
    | nil =>
        intro accu
        rfl
    | cons byte bytes ih =>
        intro accu
        rw [List.foldl_cons, ih, bitsOf_cons, feedbackBits_append]
        rfl
  exact hrun 0#32

/-!
# Bits of a buffer
-/

theorem bitsOf_length (bytes : List Byte) : (bitsOf bytes).length = 8 * bytes.length := by
  induction bytes with
  | nil =>
      rfl
  | cons byte bytes ih =>
      rw [bitsOf_cons, List.length_append, List.length_map, List.length_range, ih,
        List.length_cons]
      omega

theorem bitsOf_getElem? (bytes : List Byte) :
    forall i, (bitsOf bytes)[i]? = bytes[i / 8]?.map (fun byte => byte.getLsbD (i % 8)) := by
  induction bytes with
  | nil =>
      intro i
      rfl
  | cons byte bytes ih =>
      intro i
      rw [bitsOf_cons]
      by_cases hi : i < 8
      · rw [List.getElem?_append_left (by simpa using hi), Nat.div_eq_of_lt hi,
          Nat.mod_eq_of_lt hi]
        simp [hi]
      · have hlength : ((List.range 8).map byte.getLsbD).length = 8 := by simp
        have hdiv : i / 8 = (i - 8) / 8 + 1 := by omega
        have hmod : (i - 8) % 8 = i % 8 := by omega
        rw [List.getElem?_append_right (by omega), hlength, ih, hdiv, List.getElem?_cons_succ,
          hmod]

theorem bitsOf_injective (xs : List Byte) :
    forall ys, xs.length = ys.length -> bitsOf xs = bitsOf ys -> xs = ys := by
  induction xs with
  | nil =>
      intro ys hlength _
      exact (List.length_eq_zero_iff.mp hlength.symm).symm
  | cons x xs ih =>
      intro ys hlength h
      cases ys with
      | nil =>
          cases hlength
      | cons y ys =>
          rw [bitsOf_cons, bitsOf_cons] at h
          rcases List.append_inj h (by simp) with ⟨hhead, htail⟩
          have hbyte : x = y := by
            apply BitVec.eq_of_getLsbD_eq
            intro i hi
            have hbit := congrArg (fun bits => bits[i]?) hhead
            simpa [hi] using hbit
          rw [hbyte, ih ys (Nat.succ.inj hlength) htail]

/-!
# Bursts
-/

def BurstApart (a b : List Byte) : Prop :=
  exists start, forall i, i < start ∨ start + 32 <= i -> (bitsOf a)[i]? = (bitsOf b)[i]?

theorem checksum_burst {a b : List Byte} (hlength : a.length = b.length) (hne : a ≠ b)
    (hburst : BurstApart a b) : elSromChecksum a ≠ elSromChecksum b := by
  rcases hburst with ⟨start, hagree⟩
  rw [elSromChecksum_feedback, elSromChecksum_feedback]
  exact feedbackBits_burst (by decide) (by decide) _ _ start _
    (by rw [bitsOf_length, bitsOf_length, hlength])
    (fun h => hne (bitsOf_injective a b hlength h)) hagree

theorem burstApart_word {a b : List Byte} (word : Nat)
    (h : forall i, i / 4 ≠ word -> a[i]? = b[i]?) : BurstApart a b := by
  refine ⟨32 * word, fun i hi => ?_⟩
  rw [bitsOf_getElem?, bitsOf_getElem?, h (i / 8) (by omega)]

/-!
# The shadow
-/

theorem loadRevinfo_length (env : Surroundings) (chip : Eeprom) :
    (loadRevinfo env chip).1.length = configSysSromSize := by
  have hcount := (loadBytes_count (eeprom secondDevice) secondDevice configSysSromSize 0#8
    firstBlock ⟨chip, []⟩).1
  have hstack := env.stackLength
  unfold loadRevinfo elSromLoad
  rw [List.length_append, List.length_drop]
  dsimp only
  omega

/-- A run that remakes the revision info or reports its copy shows a prompt. -/
theorem miscInitR_dialog {env : Surroundings} {input : OperatorInput} {chip : Eeprom}
    {nv : Nvram} {r : Recovery} (hinvalid : copyInvalid (loadRevinfo env chip).1 nv = true)
    (hrun : miscInitR env input chip nv = some r) : r.dialog = true := by
  have hwrite : forall eerev dialog copyNv initSrom, dialog = true ∨ initSrom = true ->
      writeRevinfo env input (loadRevinfo env chip).2 nv eerev dialog copyNv initSrom =
        some r -> r.dialog = true := by
    intro eerev dialog copyNv initSrom hshown h
    unfold writeRevinfo at h
    split at h
    case isTrue =>
        dsimp only at h
        split at h
        · cases h
        · cases h
          rfl
    case isFalse hinit =>
        cases h
        exact hshown.resolve_right hinit
  unfold miscInitR at hrun
  dsimp only at hrun
  split at hrun
  case isTrue =>
      exact hwrite _ _ _ _ (Or.inl rfl) hrun
  case isFalse =>
      exact hwrite _ _ _ _ (Or.inr rfl) hrun

theorem copyInvalid_of_word {eerev : List Byte} {nv : Nvram}
    (hlength : eerev.length = configSysSromSize) (hne : shadow nv ≠ eerev) (word : Nat)
    (h : forall i, i / 4 ≠ word -> (shadow nv)[i]? = eerev[i]?) :
    copyInvalid eerev nv = true := by
  have htake : eerev.take configSysSromSize = eerev := List.take_of_length_le (by omega)
  have hshadow : (shadow nv).length = eerev.length := by
    rw [shadow, nvramRead_length, hlength]
  unfold copyInvalid
  rw [htake]
  exact decide_eq_true (Ne.symm (checksum_burst hshadow hne (burstApart_word word h)))

/-- A run returns, unless the revision info is entered and a write cycle does not end. -/
theorem miscInitR_returns {env : Surroundings} {input : OperatorInput} {chip : Eeprom}
    {nv : Nvram} (hcycles : Reenters env input chip nv ->
      chip.busy = 0 ∧ forall n, chip.cycles n < env.fuel) :
    exists r, miscInitR env input chip nv = some r := by
  have hwrite : forall eerev dialog copyNv, Reenters env input chip nv ->
      eerev.length = configSysSromSize ->
        exists r, writeRevinfo env input (loadRevinfo env chip).2 nv eerev dialog copyNv true =
          some r := by
    intro eerev dialog copyNv hreenters hlength
    rcases hcycles hreenters with ⟨hready, hends⟩
    rcases loadRevinfo_ready env hready with ⟨_, _, hbusy, hsame, _⟩
    rcases writeRevinfo_returns input nv dialog copyNv hlength
      (by rw [hbusy]; exact Nat.lt_of_le_of_lt (Nat.zero_le _) (hends 0))
      (fun n => by rw [hsame]; exact hends n) with ⟨r, hr, _⟩
    exact ⟨r, hr⟩
  unfold miscInitR
  dsimp only
  cases hmagic : hasMagic (loadRevinfo env chip).1 with
  | false =>
      rw [if_neg Bool.false_ne_true]
      exact hwrite _ _ _ (Or.inl hmagic) defaultRevinfo_valid.1
  | true =>
      rw [if_pos rfl]
      cases hinvalid : copyInvalid (loadRevinfo env chip).1 nv with
      | false =>
          rw [if_neg Bool.false_ne_true]
          exact ⟨_, rfl⟩
      | true =>
          rw [if_pos rfl]
          unfold chosen
          by_cases hcount : input.choice.count ≠ 0
          · rw [if_pos hcount]
            by_cases hcopy : toupper (input.choice.buffer 0) = 67#8
            · rw [if_pos hcopy]
              exact ⟨_, rfl⟩
            · rw [if_neg hcopy]
              by_cases hreenter : toupper (input.choice.buffer 0) = 82#8
              · rw [if_pos hreenter]
                exact hwrite _ _ _ (Or.inr ⟨hinvalid, hcount, hreenter⟩)
                  (loadRevinfo_length env chip)
              · rw [if_neg hreenter]
                exact ⟨_, rfl⟩
          · rw [if_neg hcount]
            exact ⟨_, rfl⟩

/--
Buffers of one length that differ within 32 consecutive bits have different checksums; a
shadow of the SROM that is corrupted within four aligned bytes makes `misc_init_r` ask.
-/
theorem checksum_detects_bursts :
    (forall a b : List Byte, a.length = b.length -> a ≠ b -> BurstApart a b ->
      elSromChecksum a ≠ elSromChecksum b) ∧
    (forall (env : Surroundings) (input : OperatorInput) (chip : Eeprom) (nv : Nvram)
      (word : Nat), shadow nv ≠ (loadRevinfo env chip).1 ->
      (forall i, i / 4 ≠ word -> (shadow nv)[i]? = (loadRevinfo env chip).1[i]?) ->
      copyInvalid (loadRevinfo env chip).1 nv = true ∧
        (forall r, miscInitR env input chip nv = some r -> r.dialog = true) ∧
        ((Reenters env input chip nv -> chip.busy = 0 ∧ forall n, chip.cycles n < env.fuel) ->
          exists r, miscInitR env input chip nv = some r ∧ r.dialog = true)) := by
  refine ⟨fun a b => checksum_burst, fun env input chip nv word hne hword => ?_⟩
  have hinvalid := copyInvalid_of_word (loadRevinfo_length env chip) hne word hword
  have hdialog : forall r, miscInitR env input chip nv = some r -> r.dialog = true :=
    fun r hrun => miscInitR_dialog hinvalid hrun
  refine ⟨hinvalid, hdialog, fun hcycles => ?_⟩
  rcases miscInitR_returns hcycles with ⟨r, hrun⟩
  exact ⟨r, hrun, hdialog r hrun⟩

def defaultChip : Eeprom :=
  { blankEeprom 0 with cells := fun _ addr => defaultRevinfo.getD addr.toNat 0#8 }

def corruptedShadow : Nvram := fun r =>
  if r = configSysNvSromCopyAddr + 5#16 then 0x7f#8
  else defaultRevinfo.getD (r - configSysNvSromCopyAddr).toNat 0#8

theorem defaultChip_loaded :
    (loadRevinfo sampleSurroundings defaultChip).1 = defaultRevinfo := by
  have hbytes : sromBytes defaultChip.cells = defaultRevinfo := by
    decide +kernel
  rw [(loadRevinfo_ready sampleSurroundings rfl).1, hbytes]

theorem corruptedShadow_read : shadow corruptedShadow = defaultRevinfo.set 5 0x7f#8 := by
  decide +kernel

theorem checksum_detects_bursts_sample :
    elSromChecksum [0x00#8, 0x41#8] ≠ elSromChecksum [0x00#8, 0x5a#8] ∧
      exists r, miscInitR sampleSurroundings silentOperator defaultChip corruptedShadow =
        some r ∧ r.dialog = true := by
  constructor
  · exact checksum_detects_bursts.1 _ _ rfl (by decide) (burstApart_word 0 (fun i hi => by
      cases i with
      | zero =>
          exact absurd rfl hi
      | succ i =>
          cases i with
          | zero =>
              exact absurd rfl hi
          | succ i =>
              rfl))
  · apply (checksum_detects_bursts.2 sampleSurroundings silentOperator defaultChip
      corruptedShadow 1 ?_ ?_).2.2
    · rintro (hmagic | ⟨_, hcount, _⟩)
      · rw [defaultChip_loaded, defaultRevinfo_valid.2] at hmagic
        cases hmagic
      · exact absurd rfl hcount
    · rw [corruptedShadow_read, defaultChip_loaded]
      decide +kernel
    · intro i hi
      rw [corruptedShadow_read, defaultChip_loaded, List.getElem?_set_ne]
      rintro rfl
      exact hi rfl

end Srom
end Bab750
