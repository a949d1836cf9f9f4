import Bab750.Environment.Updates
import Bab750.Environment.Nvram

/-!
# The checksum across setenv, saveenv, and reboot

A state whose checksum is valid survives `saveenv` and a reboot unchanged.
Every call of `_do_setenv` keeps the checksum valid unless it removes an old
definition and then finds no room for the new one: that exit leaves the checksum
of the data area as it was before the deletion.
-/

namespace Bab750
namespace Environment

open Foundation
open Support

/-!
# Calls and the checksum
-/

/--
The call passes the checks, its name is defined, and its new definition does not
fit into the data area without the old one.
-/
def OverwriteOverflows (s : BoardState) (args : SetenvArgs) : Prop :=
  Accepted s args ∧ Defined s.data args.name.bytes ∧ args.valueBytes ≠ [] ∧
    exists data env, remainingData s.data args.name.bytes = some data ∧
      appendPosition data = some env ∧
        envSize < env + definitionLength args.name.bytes args.valueBytes

/-- On a well-formed image the condition counts the bytes of the other variables. -/
theorem overwriteOverflows_iff {s : BoardState} {vars : List Variable}
    (hdata : WellFormed s.data vars) (args : SetenvArgs) :
    OverwriteOverflows s args <->
      Accepted s args ∧ (exists v, v ∈ vars ∧ v.name = args.name.bytes) ∧
        args.values ≠ [] ∧ Overflows (removeVariable args.name.bytes vars) args := by
  have hnil : args.valueBytes ≠ [] <-> args.values ≠ [] := by
    unfold SetenvArgs.valueBytes
    exact not_congr List.map_eq_nil_iff
  constructor
  · rintro ⟨check, hdefined, hvalues, data, env, hrest, hposition, hover⟩
    rcases remainingData_wellFormed hdata args.name.noNul check.left with
      ⟨data', hdata', hwf, _⟩
    rw [hrest, Option.some.injEq] at hdata'
    subst hdata'
    rw [appendPosition_wellFormed hwf, Option.some.injEq] at hposition
    subst hposition
    exact ⟨check, (defined_iff hdata args.name.noNul check.left).mp hdefined,
      hnil.mp hvalues, hover⟩
  · rintro ⟨check, hdefined, hvalues, hover⟩
    rcases remainingData_wellFormed hdata args.name.noNul check.left with
      ⟨data', hdata', hwf, _⟩
    exact ⟨check, (defined_iff hdata args.name.noNul check.left).mpr hdefined,
      hnil.mpr hvalues, data', _, hdata', appendPosition_wellFormed hwf, hover⟩

theorem remainingData_defined {data name : List Byte} {env nxt : Nat}
    (h : searchDefinition data name (data.length + 1) 0 = some (some (env, nxt))) :
    remainingData data name = deleteDefinition data env nxt := by
  simp [remainingData, h]

theorem remainingData_undefined {data data' name : List Byte}
    (hundefined : ¬ Defined data name) (h : remainingData data name = some data') :
    data' = data := by
  unfold remainingData at h
  cases hsearch : searchDefinition data name (data.length + 1) 0 with
  | none =>
      simp [hsearch] at h
  | some found =>
      cases found with
      | none =>
          simp only [hsearch, Option.some.injEq] at h
          exact h.symm
      | some range =>
          exact absurd ⟨range.1, range.2, hsearch⟩ hundefined

theorem remainingData_length {data data' name : List Byte}
    (h : remainingData data name = some data') : data'.length = data.length := by
  by_cases hdefined : Defined data name
  · rcases hdefined with ⟨env, nxt, hsearch⟩
    rw [remainingData_defined hsearch] at h
    exact deleteDefinition_length h
  · rw [remainingData_undefined hdefined h]

theorem doSetenv_length {s t : BoardState} {args : SetenvArgs} {r : Int}
    (h : doSetenv s args = some (r, t)) : t.data.length = s.data.length := by
  cases doSetenv_outcome h with
  | rejected check same =>
      rw [same.data]
  | deleted check rest novalue result crc =>
      rw [result, remainingData_length rest]
  | overflowed check rest value position overflow message same =>
      rw [same.data]
      exact remainingData_length rest
  | defined check rest value position fits write result crc =>
      rw [result, writeDefinition_length write, remainingData_length rest]

theorem doSetenv_crcValid {s t : BoardState} {args : SetenvArgs} {r : Int}
    (hs : CrcValid s) (hroom : ¬ OverwriteOverflows s args)
    (h : doSetenv s args = some (r, t)) : CrcValid t := by
  cases doSetenv_outcome h with
  | rejected check same =>
      exact same.crcValid hs
  | deleted check rest novalue result crc =>
      exact crc
  | @overflowed _ data env check rest value position overflow message same =>
      have hundefined : ¬ Defined s.data args.name.bytes := by
        intro hdefined
        exact hroom ⟨check, hdefined, value, data, env, rest, position, overflow⟩
      rw [remainingData_undefined hundefined rest] at same
      exact same.crcValid hs
  | defined check rest value position fits write result crc =>
      exact crc

/-!
# Boot
-/

theorem defaultEnvironment_fits : ¬ envSize < defaultEnvironment.length := by
  decide +kernel

theorem envRelocate_crcValid (s : BoardState) (nv : Nvram) (stack : Nat)
    (block : EnvBlock) :
    CrcValid (envRelocate s nv (envInit nv stack) block).2 ∧
      (envRelocate s nv (envInit nv stack) block).2.data.length = envSize ∧
        (envRelocate s nv (envInit nv stack) block).1 = true := by
  cases hvalid : envInit nv stack with
  | false =>
      have hfits := defaultEnvironment_fits
      simp only [envRelocate, Bool.false_eq_true, if_false, setDefaultEnv,
        if_neg hfits]
      refine ⟨envCrcUpdate_crcValid _, ?_, trivial⟩
      show (defaultEnvironment ++ _).length = envSize
      rw [List.length_append, List.length_replicate]
      omega
  | true =>
      rw [envRelocate_valid]
      refine ⟨?_, nvramRead_length nv _ envSize, rfl⟩
      show bytesWord (nvramRead nv configEnvAddr 4) = crc32 0#32 _ _
      have hcrc := of_decide_eq_true hvalid
      rw [← hcrc]
      exact crc32_addr _ _ _ _

/-!
# Saving and restoring
-/

theorem nvramRead_saveenv (s : BoardState) (nv : Nvram)
    (hsize : s.data.length = envSize) :
    nvramRead (saveenv s nv) configEnvAddr configEnvSize = envImage s := by
  have hlen : (envImage s).length = configEnvSize := by
    rw [envImage, List.length_append, wordBytes_length, hsize]
    rfl
  have htake : (envImage s).take configEnvSize = envImage s := by
    rw [← hlen]
    exact List.take_length
  have hround := nvramRead_nvramWrite nv configEnvAddr (envImage s)
    (by rw [hlen]; decide)
  rw [hlen] at hround
  unfold saveenv
  rw [htake]
  exact hround

theorem nvramRead_saveenv_parts (s : BoardState) (nv : Nvram)
    (hsize : s.data.length = envSize) :
    nvramRead (saveenv s nv) configEnvAddr 4 = wordBytes s.crc ∧
      nvramRead (saveenv s nv) (configEnvAddr + 4#16) envSize = s.data := by
  have hsplit := nvramRead_add (saveenv s nv) configEnvAddr 4 envSize
  rw [show 4 + envSize = configEnvSize from rfl, nvramRead_saveenv s nv hsize] at hsplit
  have hparts := List.append_inj hsplit
    (by rw [wordBytes_length, nvramRead_length])
  exact ⟨hparts.left.symm, hparts.right.symm⟩

theorem envInit_saveenv (s : BoardState) (nv : Nvram) (stack : Nat)
    (hsize : s.data.length = envSize) :
    envInit (saveenv s nv) stack = true <-> CrcValid s := by
  rcases nvramRead_saveenv_parts s nv hsize with ⟨hcrc, hdata⟩
  unfold envInit CrcValid
  dsimp only
  rw [hcrc, hdata, bytesWord_wordBytes,
    crc32_addr 0#32 stack (s.envPtr + envHeaderSize)]
  constructor
  · intro h
    exact (of_decide_eq_true h).symm
  · intro h
    exact decide_eq_true h.symm

theorem envRelocate_saveenv (s s' : BoardState) (nv : Nvram) (block : EnvBlock)
    (hsize : s.data.length = envSize) :
    envRelocate s' (saveenv s nv) true block =
      (true, { s' with envPtr := block.address, crc := s.crc, data := s.data }) := by
  rcases nvramRead_saveenv_parts s nv hsize with ⟨hcrc, hdata⟩
  rw [envRelocate_valid, hcrc, hdata, bytesWord_wordBytes]

/-!
# Runs
-/

def SetenvReturns (s : BoardState) (args : SetenvArgs) (t : BoardState) : Prop :=
  (doSetenv s args).map Prod.snd = some t

def SetenvWithRoom (s : BoardState) (args : SetenvArgs) (t : BoardState) : Prop :=
  ¬ OverwriteOverflows s args ∧ SetenvReturns s args t

theorem setenvRun_crcValid {s t : BoardState} {calls : List SetenvArgs}
    (hrun : Run SetenvWithRoom s calls t)
    (hs : CrcValid s ∧ s.data.length = envSize) :
    CrcValid t ∧ t.data.length = envSize := by
  refine Run.invariant (fun u => CrcValid u ∧ u.data.length = envSize) ?_ hrun hs
  intro u args w hu hstep
  rcases hstep with ⟨hroom, hreturn⟩
  rcases Option.map_eq_some_iff.mp hreturn with ⟨⟨r, w'⟩, hcall, hw⟩
  cases hw
  constructor
  · exact doSetenv_crcValid hu.left hroom hcall
  · exact (doSetenv_length hcall).trans hu.right

/--
From `env_relocate` on, in every state reached by calls none of which overwrites
without room, the checksum is valid; saved and rebooted, the state comes back
with the same data and the same values.
-/
theorem setenv_crc_persistent {nv : Nvram} {stack : Nat} {block : EnvBlock}
    {s t : BoardState} {calls : List SetenvArgs}
    (hrun : Run SetenvWithRoom (envRelocate s nv (envInit nv stack) block).2 calls t) :
    CrcValid t ∧
      forall (nv' : Nvram) (stack' : Nat) (block' : EnvBlock) (s' : BoardState),
        envInit (saveenv t nv') stack' = true ∧
          (envRelocate s' (saveenv t nv') (envInit (saveenv t nv') stack')
            block').2.data = t.data ∧
          forall name : CString,
            getenvString
                (envGetCharMemory
                  (envRelocate s' (saveenv t nv') (envInit (saveenv t nv') stack')
                    block').1
                  (envRelocate s' (saveenv t nv') (envInit (saveenv t nv') stack')
                    block').2) name.bytes =
              getenvString
                (envGetCharMemory (envRelocate s nv (envInit nv stack) block).1 t)
                name.bytes := by
  rcases envRelocate_crcValid s nv stack block with ⟨hcrc, hsize, hflag⟩
  rcases setenvRun_crcValid hrun ⟨hcrc, hsize⟩ with ⟨htcrc, htsize⟩
  refine ⟨htcrc, ?_⟩
  intro nv' stack' block' s'
  have hinit := (envInit_saveenv t nv' stack' htsize).mpr htcrc
  rw [hinit, hflag, envRelocate_saveenv t s' nv' block' htsize]
  refine ⟨rfl, rfl, ?_⟩
  intro name
  rfl

def blankNvram : Nvram := fun _ => 0xff#8

/-- Where `malloc` put the environment. -/
def sampleBlock : EnvBlock where
  address := 0x3fb0000
  crc := 0#32
  data := []

/-- The chip behind a `saveenv` in the given state. -/
def savedNvram (s : BoardState) : Nvram :=
  saveenv (envCrcUpdate s) blankNvram

theorem savedNvram_boot (s : BoardState) (hsize : s.data.length = envSize)
    (stack : Nat) :
    (envRelocate s (savedNvram s) (envInit (savedNvram s) stack) sampleBlock).2 =
      envCrcUpdate { s with envPtr := sampleBlock.address } := by
  unfold savedNvram
  rw [(envInit_saveenv (envCrcUpdate s) blankNvram stack hsize).mpr
    (envCrcUpdate_crcValid s),
    envRelocate_saveenv (envCrcUpdate s) s blankNvram sampleBlock hsize]
  simp only [envCrcUpdate]
  rw [crc32_addr 0#32 (s.envPtr + envHeaderSize) (sampleBlock.address + envHeaderSize)]

theorem setenv_crc_persistent_sample :
    exists t,
      Run SetenvWithRoom (envRelocate sampleBoard (savedNvram sampleBoard)
        (envInit (savedNvram sampleBoard) 0x3fa0000) sampleBlock).2 [sampleCall] t ∧
        CrcValid t := by
  have hboot := savedNvram_boot sampleBoard (WellFormed.size sampleBoard_wellFormed) 0x3fa0000
  have hreturn : (doSetenv (envCrcUpdate { sampleBoard with
      envPtr := sampleBlock.address }) sampleCall).isSome = true := by
    decide +kernel
  rcases Option.isSome_iff_exists.mp hreturn with ⟨⟨r, t⟩, hcall⟩
  have hundefined : ¬ Defined sampleBoard.data sampleCall.name.bytes := by
    intro hdefined
    rcases (defined_iff sampleBoard_wellFormed (by decide) (by decide)).mp hdefined with
      ⟨v, hv, hname⟩
    rw [List.mem_singleton.mp hv] at hname
    exact absurd hname (by decide)
  have hrun : Run SetenvWithRoom (envRelocate sampleBoard (savedNvram sampleBoard)
      (envInit (savedNvram sampleBoard) 0x3fa0000) sampleBlock).2 [sampleCall] t := by
    rw [hboot]
    refine .cons ⟨fun hover => hundefined hover.right.left, ?_⟩ (.nil t)
    unfold SetenvReturns
    rw [hcall]
    rfl
  exact ⟨t, hrun, (setenv_crc_persistent hrun).left⟩

/-- A variable with a name of one character and a value of 240 characters. -/
def longVariable (c : Byte) (hnul : c ≠ 0#8) (hequals : c ≠ equalsSign) : Variable where
  name := [c]
  value := List.replicate 240 0x78#8
  nameNoNul := fun h => hnul (List.mem_singleton.mp h).symm
  nameNoEquals := fun h => hequals (List.mem_singleton.mp h).symm
  valueNoNul := fun h => absurd (List.eq_of_mem_replicate h) (by decide)

def longVariables : List Variable :=
  [longVariable 0x77#8 (by decide) (by decide),
    longVariable 0x78#8 (by decide) (by decide),
    longVariable 0x79#8 (by decide) (by decide),
    longVariable 0x7a#8 (by decide) (by decide)]

/-- A board with the four long variables and `a=b` behind them. -/
def fullBoard : BoardState :=
  { sampleBoard with
    data := encodeVariables longVariables ++ ascii "a" ++ (ascii "=b" ++
      List.replicate 45 0#8) }

theorem fullBoard_wellFormed :
    WellFormed fullBoard.data (longVariables ++ [sampleVariable]) where
  distinct := by decide
  size := by decide +kernel
  layout := by
    refine ⟨List.replicate 43 0#8, ?_⟩
    rw [encodeVariables_append]
    show encodeVariables longVariables ++ ascii "a" ++ (ascii "=b" ++
      List.replicate 45 0#8) = _
    simp only [List.append_assoc]
    congr 1

/-- The arguments of `setenv a` with a value of 60 characters. -/
def longCall : SetenvArgs where
  name := ⟨ascii "a", sampleVariable.nameNoNul⟩
  values := [⟨List.replicate 60 0x78#8, by decide⟩]
  addressable := by decide

theorem fullBoard_accepted (envPtr : Nat) :
    Accepted (envCrcUpdate { fullBoard with envPtr := envPtr }) longCall := by
  refine ⟨by decide, by rfl, ?_⟩
  intro hname
  exact absurd hname (by decide)

/-- The data area of `fullBoard` when `a` was taken out. -/
def deletedData : List Byte :=
  encodeVariables longVariables ++ 0#8 :: (ascii "=b" ++ List.replicate 45 0#8)

theorem fullBoard_data : fullBoard.data = encodeVariables longVariables ++
    0x61#8 :: (ascii "=b" ++ List.replicate 45 0#8) := by
  show encodeVariables longVariables ++ ascii "a" ++ _ = _
  rw [List.append_assoc]
  rfl

theorem fullBoard_searchDefinition :
    searchDefinition fullBoard.data longCall.name.bytes (fullBoard.data.length + 1) 0 =
      some (some ((encodeVariables longVariables).length,
        (encodeVariables longVariables).length + sampleVariable.text.length)) := by
  have hread := WellFormed.readsAt fullBoard_wellFormed
  have hsearch := searchDefinition_present (fullBoard.data.length + 1) 0
    longCall.name.noNul (by decide)
    (show forall u, u ∈ longVariables -> u.name ≠ longCall.name.bytes by decide)
    (show sampleVariable.name = longCall.name.bytes by decide) hread.left
    (by rw [Nat.zero_add]; exact hread.right)
    (by rw [WellFormed.size fullBoard_wellFormed]; decide)
  rw [Nat.zero_add] at hsearch
  exact hsearch

theorem fullBoard_deleteDefinition :
    deleteDefinition fullBoard.data (encodeVariables longVariables).length
        ((encodeVariables longVariables).length + sampleVariable.text.length) =
      some deletedData := by
  have hnext : fullBoard.data[(encodeVariables longVariables).length +
      sampleVariable.text.length + 1]? = some 0#8 := by
    decide +kernel
  have hpos : 0 < (encodeVariables longVariables).length := by
    decide +kernel
  have hstore := store_middle (encodeVariables longVariables)
    (ascii "=b" ++ List.replicate 45 0#8) 0x61#8 0#8
  rw [← fullBoard_data] at hstore
  unfold deleteDefinition
  rw [hnext]
  exact (if_pos rfl).trans ((if_pos hpos).trans hstore)

theorem fullBoard_remainingData :
    remainingData fullBoard.data longCall.name.bytes = some deletedData := by
  rw [remainingData_defined fullBoard_searchDefinition]
  exact fullBoard_deleteDefinition

theorem deletedData_crc :
    crc32 0#32 0 fullBoard.data ≠ crc32 0#32 0 deletedData := by
  decide +kernel

theorem longCall_crcInvalid :
    exists r t, doSetenv (envCrcUpdate { fullBoard with envPtr := sampleBlock.address })
      longCall = some (r, t) ∧ t.data.length = envSize ∧ ¬ CrcValid t := by
  rcases doSetenv_returns (s := envCrcUpdate { fullBoard with
    envPtr := sampleBlock.address }) fullBoard_wellFormed
    (show longCall.name.bytes ≠ ascii "baudrate" by decide) with ⟨⟨r, t⟩, hcall⟩
  refine ⟨r, t, hcall, (doSetenv_length hcall).trans (WellFormed.size fullBoard_wellFormed), ?_⟩
  cases doSetenv_outcome hcall with
  | rejected check same =>
      exact absurd (fullBoard_accepted _) check
  | deleted check rest novalue result crc =>
      exact absurd novalue (by decide)
  | defined check rest value position fits write result crc =>
      rcases remainingData_wellFormed fullBoard_wellFormed longCall.name.noNul
        (by decide) with ⟨data', hdata', hwf, _⟩
      rw [show (envCrcUpdate { fullBoard with
        envPtr := sampleBlock.address }).data = fullBoard.data from rfl, hdata',
        Option.some.injEq] at rest
      subst rest
      rw [appendPosition_wellFormed hwf, Option.some.injEq] at position
      rw [← position] at fits
      exact absurd (by decide +kernel) fits
  | overflowed check rest value position overflow message same =>
      rw [show (envCrcUpdate { fullBoard with
        envPtr := sampleBlock.address }).data = fullBoard.data from rfl,
        fullBoard_remainingData, Option.some.injEq] at rest
      intro hvalid
      unfold CrcValid at hvalid
      rw [same.data, ← rest, same.crc, crc32_addr 0#32 _ 0] at hvalid
      exact deletedData_crc ((crc32_addr 0#32 _ _ _).trans hvalid)

theorem setenv_crc_lost :
    ¬ (forall (nv : Nvram) (stack : Nat) (block : EnvBlock) (s t : BoardState)
        (calls : List SetenvArgs),
      Run SetenvReturns (envRelocate s nv (envInit nv stack) block).2 calls t ->
        CrcValid t) ∧
    ¬ (forall (nv : Nvram) (stack : Nat) (block : EnvBlock) (s t : BoardState)
        (calls : List SetenvArgs),
      Run SetenvReturns (envRelocate s nv (envInit nv stack) block).2 calls t ->
        envInit (saveenv t nv) stack = true) := by
  have hboot := savedNvram_boot fullBoard (WellFormed.size fullBoard_wellFormed) 0x3fa0000
  rcases longCall_crcInvalid with ⟨r, t, hcall, hsize, hinvalid⟩
  have hrun : Run SetenvReturns (envRelocate fullBoard (savedNvram fullBoard)
      (envInit (savedNvram fullBoard) 0x3fa0000) sampleBlock).2 [longCall] t := by
    rw [hboot]
    refine .cons ?_ (.nil t)
    unfold SetenvReturns
    rw [hcall]
    rfl
  constructor
  · intro hclaim
    exact hinvalid (hclaim _ _ _ _ _ _ hrun)
  · intro hclaim
    exact hinvalid ((envInit_saveenv t _ 0x3fa0000 hsize).mp
      (hclaim _ _ _ _ _ _ hrun))

end Environment
end Bab750
