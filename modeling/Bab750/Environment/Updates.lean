import Bab750.Environment.Calls

/-!
# Setenv as an update of the store

On a well-formed image the outcomes of `_do_setenv` are updates of the list of
variables.  The law of the store holds along every run of successful calls, and
a call that fails keeps the data area except where it announces a deletion.
-/

namespace Bab750
namespace Environment

open Foundation
open Support

/-!
# The two phases on a well-formed image
-/

theorem defined_iff {data name : List Byte} {vars : List Variable}
    (hdata : WellFormed data vars) (hname : 0#8 ∉ name)
    (hequals : equalsSign ∉ name) :
    Defined data name <-> exists v, v ∈ vars ∧ v.name = name := by
  constructor
  · rintro ⟨env, nxt, hsearch⟩
    apply Classical.byContradiction
    intro hnone
    have habsent := searchDefinition_wellFormed_absent hdata hname hequals
      (fun v hv hvname => hnone ⟨v, hv, hvname⟩)
    rw [hsearch] at habsent
    cases habsent
  · intro hdefined
    rcases deleteDefinition_wellFormed hdata hname hequals hdefined with
      ⟨env, nxt, _, hsearch, _⟩
    exact ⟨env, nxt, hsearch⟩

theorem remainingData_wellFormed {data name : List Byte} {vars : List Variable}
    (hdata : WellFormed data vars) (hname : 0#8 ∉ name)
    (hequals : equalsSign ∉ name) :
    exists data', remainingData data name = some data' ∧
      WellFormed data' (removeVariable name vars) ∧
        (¬ Defined data name -> data' = data) := by
  by_cases hdefined : exists v, v ∈ vars ∧ v.name = name
  · rcases deleteDefinition_wellFormed hdata hname hequals hdefined with
      ⟨env, nxt, data', hsearch, hdelete, hwf⟩
    refine ⟨data', ?_, hwf, ?_⟩
    · simp [remainingData, hsearch, hdelete]
    · intro hundefined
      exact absurd ⟨env, nxt, hsearch⟩ hundefined
  · have habsent : forall v, v ∈ vars -> v.name ≠ name :=
      fun v hv hvname => hdefined ⟨v, hv, hvname⟩
    have hsearch := searchDefinition_wellFormed_absent hdata hname hequals habsent
    refine ⟨data, ?_, ?_, fun _ => rfl⟩
    · simp [remainingData, hsearch]
    · rw [removeVariable_absent habsent]
      exact hdata

def updateVariables (vars : List Variable) (args : SetenvArgs)
    (h : equalsSign ∉ args.name.bytes) : List Variable :=
  removeVariable args.name.bytes vars ++
    if args.valueBytes = [] then [] else [args.variable h]

theorem doSetenv_success {s t : BoardState} {args : SetenvArgs}
    {vars : List Variable} (hdata : WellFormed s.data vars)
    (h : doSetenv s args = some (0, t)) :
    exists hequals : equalsSign ∉ args.name.bytes,
      WellFormed t.data (updateVariables vars args hequals) := by
  cases doSetenv_outcome h with
  | deleted check rest novalue result crc =>
      refine ⟨check.left, ?_⟩
      rcases remainingData_wellFormed hdata args.name.noNul check.left with
        ⟨data', hdata', hwf, _⟩
      rw [rest, Option.some.injEq] at hdata'
      rw [result, hdata', updateVariables, if_pos novalue, List.append_nil]
      exact hwf
  | defined check rest value position fits write result crc =>
      refine ⟨check.left, ?_⟩
      rcases remainingData_wellFormed hdata args.name.noNul check.left with
        ⟨data', hdata', hwf, _⟩
      rw [rest, Option.some.injEq] at hdata'
      subst hdata'
      rw [appendPosition_wellFormed hwf, Option.some.injEq] at position
      subst position
      rcases writeDefinition_wellFormed hwf args check.left value
        (fun v hv => removeVariable_ne hv) fits with ⟨written, hwritten, hwf'⟩
      rw [write, Option.some.injEq] at hwritten
      rw [result, hwritten, updateVariables, if_neg value]
      exact hwf'

theorem setenvAppend_returns {s : BoardState} {args : SetenvArgs}
    {vars : List Variable} (hdata : WellFormed s.data vars)
    (hequals : equalsSign ∉ args.name.bytes)
    (hfree : forall v, v ∈ vars -> v.name ≠ args.name.bytes) :
    exists result, setenvAppend s args.name.bytes args.valueBytes = some result := by
  cases hvalues : args.valueBytes with
  | nil =>
      exact ⟨_, rfl⟩
  | cons value values =>
      simp only [setenvAppend, appendPosition_wellFormed hdata]
      split
      case isTrue =>
          exact ⟨_, rfl⟩
      case isFalse hfits =>
          rcases writeDefinition_wellFormed hdata args hequals
            (by rw [hvalues]; exact List.cons_ne_nil _ _) hfree
            (by unfold Overflows; rw [hvalues]; exact hfits) with
            ⟨written, hwritten, _⟩
          rw [hvalues] at hwritten
          simp [hwritten]

theorem doSetenv_returns {s : BoardState} {args : SetenvArgs}
    {vars : List Variable} (hdata : WellFormed s.data vars)
    (hbaud : args.name.bytes ≠ ascii "baudrate") :
    exists result, doSetenv s args = some result := by
  unfold doSetenv
  dsimp only
  split
  case isTrue =>
      exact ⟨_, rfl⟩
  case isFalse hequals =>
      rcases setenvConsole_sameImage { s with envId := s.envId + 1 } args.name.bytes
        args.valueBytes with ⟨hsame, _⟩
      by_cases hdefined : exists v, v ∈ vars ∧ v.name = args.name.bytes
      · rcases deleteDefinition_wellFormed hdata args.name.noNul hequals hdefined with
          ⟨env, nxt, data', hsearch, hdelete, hwf⟩
        simp only [hsearch]
        split
        case isTrue =>
            simp only [setenvDelete, if_neg hbaud, hsame.data, hdelete]
            exact setenvAppend_returns hwf hequals (fun v hv => removeVariable_ne hv)
        case isFalse =>
            exact ⟨_, rfl⟩
      · have habsent : forall v, v ∈ vars -> v.name ≠ args.name.bytes :=
          fun v hv hvname => hdefined ⟨v, hv, hvname⟩
        have hsearch := searchDefinition_wellFormed_absent hdata args.name.noNul
          hequals habsent
        simp only [hsearch]
        split
        case isTrue =>
            exact setenvAppend_returns (hsame.data.symm ▸ hdata) hequals habsent
        case isFalse =>
            exact ⟨_, rfl⟩

/-!
# The law of the store
-/

def SetenvSucceeds (s : BoardState) (args : SetenvArgs) (t : BoardState) : Prop :=
  doSetenv s args = some (0, t)

theorem setenvRun_wellFormed {s t : BoardState} {calls : List SetenvArgs}
    (hrun : Run SetenvSucceeds s calls t)
    (hdata : exists vars, WellFormed s.data vars) :
    exists vars, WellFormed t.data vars := by
  refine Run.invariant (fun u => exists vars, WellFormed u.data vars) ?_ hrun hdata
  intro u args w hu hstep
  rcases hu with ⟨vars, hvars⟩
  rcases doSetenv_success hvars hstep with ⟨hequals, hwf⟩
  exact ⟨_, hwf⟩

theorem lookupVariable_update_self (vars : List Variable) (args : SetenvArgs)
    (h : equalsSign ∉ args.name.bytes) :
    lookupVariable args.name.bytes (updateVariables vars args h) =
      if args.valueBytes = [] then none else some args.value := by
  unfold updateVariables
  rw [lookupVariable_append, lookupVariable_remove_self, Option.none_or]
  split
  case isTrue =>
      rfl
  case isFalse =>
      simp [lookupVariable, SetenvArgs.variable]

theorem lookupVariable_update_other {other : List Byte} (vars : List Variable)
    (args : SetenvArgs) (h : equalsSign ∉ args.name.bytes)
    (hother : other ≠ args.name.bytes) :
    lookupVariable other (updateVariables vars args h) =
      lookupVariable other vars := by
  have hlast : lookupVariable other
      (if args.valueBytes = [] then [] else [args.variable h]) = none := by
    split
    case isTrue =>
        rfl
    case isFalse =>
        simp [lookupVariable, SetenvArgs.variable, Ne.symm hother]
  unfold updateVariables
  rw [lookupVariable_append, hlast, Option.or_none,
    lookupVariable_remove_other hother]

/--
Along every run of successful calls the image stays well formed, and one more
successful call stores its value, keeps all other variables, and keeps their
order with the new definition last.
-/
theorem setenv_store_law {s t : BoardState} {vars : List Variable}
    {calls : List SetenvArgs} (hdata : WellFormed s.data vars)
    (hrun : Run SetenvSucceeds s calls t) (args : SetenvArgs) :
    exists before : List Variable,
      WellFormed t.data before ∧
        (args.name.bytes ≠ ascii "baudrate" ->
          exists result, doSetenv t args = some result) ∧
        forall u : BoardState, doSetenv t args = some (0, u) ->
          exists after : List Variable,
            WellFormed u.data after ∧
              getenvString (dataChar u.data) args.name.bytes =
                some (if args.values = [] then none
                  else some (joinValues args.valueBytes)) ∧
              (forall other : CString, nameOf other.bytes ≠ args.name.bytes ->
                getenvString (dataChar u.data) other.bytes =
                  getenvString (dataChar t.data) other.bytes) ∧
              after.map Variable.text =
                (before.filter (fun v => v.name ≠ args.name.bytes)).map
                    Variable.text ++
                  (if args.values = [] then []
                    else [args.name.bytes ++
                      equalsSign :: joinValues args.valueBytes]) := by
  rcases setenvRun_wellFormed hrun ⟨vars, hdata⟩ with ⟨before, hbefore⟩
  have hnil : args.valueBytes = [] <-> args.values = [] := by
    unfold SetenvArgs.valueBytes
    exact List.map_eq_nil_iff
  refine ⟨before, hbefore, fun hbaud => doSetenv_returns hbefore hbaud, ?_⟩
  intro u hu
  rcases doSetenv_success hbefore hu with ⟨hequals, hafter⟩
  refine ⟨updateVariables before args hequals, hafter, ?_, ?_, ?_⟩
  · rw [getenvString_wellFormed hafter args.name.noNul, nameOf_eq_self hequals,
      lookupVariable_update_self]
    simp only [hnil]
    rfl
  · intro other hother
    rw [getenvString_wellFormed hafter other.noNul,
      getenvString_wellFormed hbefore other.noNul,
      lookupVariable_update_other before args hequals hother]
  · unfold updateVariables removeVariable
    rw [List.map_append]
    simp only [hnil]
    split <;> rfl

/-- A board whose environment has one variable `a=b`. -/
def sampleBoard : BoardState where
  envId := 0
  envPtr := 0x3fb0000
  crc := 0#32
  data := ascii "a=b" ++ List.replicate 1017 0#8
  baudrate := 9600#32
  ipAddr := 0#32
  loadAddr := 0#32
  bootFile := []
  devices := []
  assigned := fun _ => none
  lowMemory := []
  input := []
  output := []

/-- The variable of `sampleBoard`. -/
def sampleVariable : Variable where
  name := ascii "a"
  value := ascii "b"
  nameNoNul := by decide
  nameNoEquals := by decide
  valueNoNul := by decide

theorem sampleBoard_wellFormed : WellFormed sampleBoard.data [sampleVariable] where
  distinct := by decide
  size := by decide +kernel
  layout := ⟨List.replicate 1015 0#8, by decide +kernel⟩

/-- The arguments of `setenv eth x y`. -/
def sampleCall : SetenvArgs where
  name := ⟨ascii "eth", by decide⟩
  values := [⟨ascii "x", by decide⟩, ⟨ascii "y", by decide⟩]
  addressable := by decide

theorem setenv_store_law_sample :
    exists t before,
      Run SetenvSucceeds sampleBoard [sampleCall] t ∧ WellFormed t.data before := by
  have hreturn : (doSetenv sampleBoard sampleCall).map Prod.fst = some 0 := by
    decide +kernel
  rcases Option.map_eq_some_iff.mp hreturn with ⟨⟨r, t⟩, hcall, hr⟩
  have hstep : SetenvSucceeds sampleBoard sampleCall t := by
    have hr' : r = 0 := hr
    rw [hr'] at hcall
    exact hcall
  have hrun : Run SetenvSucceeds sampleBoard [sampleCall] t := .cons hstep (.nil t)
  rcases setenv_store_law sampleBoard_wellFormed hrun sampleCall with
    ⟨before, hbefore, _⟩
  exact ⟨t, before, hrun, hbefore⟩

/-!
# Calls that fail
-/

/--
A call that fails keeps the data area byte for byte, except that a definition
which passed every check and does not fit leaves the table without the old
definition of its name, as the message on the console says.
-/
theorem setenv_failure {s t : BoardState} {args : SetenvArgs} {r : Int}
    {vars : List Variable} (hdata : WellFormed s.data vars)
    (h : doSetenv s args = some (r, t)) (hr : r ≠ 0) :
    (¬ (Accepted s args ∧ exists v, v ∈ vars ∧ v.name = args.name.bytes) ->
        t.data = s.data) ∧
      (Accepted s args ∧ (exists v, v ∈ vars ∧ v.name = args.name.bytes) ->
        args.values ≠ [] ∧
          Overflows (removeVariable args.name.bytes vars) args ∧
          WellFormed t.data (removeVariable args.name.bytes vars) ∧
          exists before, t.output = before ++
            (ascii "## Error: environment overflow, \"" ++ args.name.bytes ++
              ascii "\" deleted\n")) := by
  cases doSetenv_outcome h with
  | rejected check same =>
      constructor
      · intro _
        exact same.data
      · intro hboth
        exact absurd hboth.left check
  | deleted check rest novalue result crc =>
      exact absurd rfl hr
  | defined check rest value position fits write result crc =>
      exact absurd rfl hr
  | overflowed check rest value position overflow message same =>
      rcases remainingData_wellFormed hdata args.name.noNul check.left with
        ⟨data', hdata', hwf, hsame⟩
      rw [rest, Option.some.injEq] at hdata'
      subst hdata'
      rw [appendPosition_wellFormed hwf, Option.some.injEq] at position
      subst position
      constructor
      · intro hnot
        rw [same.data]
        apply hsame
        intro hdefined
        exact hnot ⟨check, (defined_iff hdata args.name.noNul check.left).mp hdefined⟩
      · intro _
        refine ⟨?_, overflow, ?_, message⟩
        · intro hnil
          exact value (List.map_eq_nil_iff.mpr hnil)
        · rw [same.data]
          exact hwf

/-- The arguments of `setenv a` with a value of 1017 characters. -/
def oversizedCall : SetenvArgs where
  name := ⟨ascii "a", by decide⟩
  values := [⟨List.replicate 1017 0x78#8, by
    intro h
    exact absurd (List.eq_of_mem_replicate h) (by decide)⟩]
  addressable := by decide +kernel

theorem setenv_failure_oversized :
    exists t, doSetenv sampleBoard oversizedCall = some (1, t) ∧
      WellFormed t.data [] := by
  have hreturn : (doSetenv sampleBoard oversizedCall).map Prod.fst = some 1 := by
    decide +kernel
  rcases Option.map_eq_some_iff.mp hreturn with ⟨⟨r, t⟩, hcall, hr⟩
  have hr' : r = 1 := hr
  rw [hr'] at hcall
  have haccepted : Accepted sampleBoard oversizedCall := by
    refine ⟨by decide, by decide +kernel, ?_⟩
    intro hname
    exact absurd hname (by decide)
  have hfailure := setenv_failure sampleBoard_wellFormed hcall (by decide)
  rcases hfailure.right ⟨haccepted, sampleVariable, by simp, by decide⟩ with
    ⟨_, _, hwf, _⟩
  exact ⟨t, hcall, hwf⟩

theorem setenv_failure_not_atomic :
    ¬ (forall (s t : BoardState) (vars : List Variable) (args : SetenvArgs) (r : Int),
      WellFormed s.data vars -> doSetenv s args = some (r, t) -> r ≠ 0 ->
        t.data = s.data) := by
  intro hatomic
  have hreturn : (doSetenv sampleBoard oversizedCall).map
      (fun result => (result.1, decide (result.2.data = sampleBoard.data))) =
        some (1, false) := by
    decide +kernel
  rcases Option.map_eq_some_iff.mp hreturn with ⟨⟨r, t⟩, hcall, hpair⟩
  rw [Prod.mk.injEq] at hpair
  have hr : r ≠ 0 := by
    rw [show r = 1 from hpair.left]
    decide
  exact of_decide_eq_false hpair.right
    (hatomic sampleBoard t [sampleVariable] oversizedCall r sampleBoard_wellFormed
      hcall hr)

end Environment
end Bab750
