import Bab750.Environment.Updates

/-!
# Deleting a variable

`_do_setenv` with a name only. The call takes the variable out of the table and looks at no
further argument, except for a `baudrate` that is defined: there the rate is read from
`argv[2]`, which is NULL.
-/

namespace Bab750
namespace Environment

open Foundation
open Support

/-- The board with some string at address 0, which a NULL argument points to. -/
def BoardState.withLowMemory (s : BoardState) (text : List Byte) : BoardState :=
  { s with lowMemory := text }

/--
The call returns zero, takes the variable out and keeps the others, and it does the same
whatever a NULL argument points to.
-/
def Unsets (s : BoardState) (args : SetenvArgs) : Prop :=
  exists t : BoardState,
    (forall text, doSetenv (s.withLowMemory text) args = some (0, t.withLowMemory text)) ∧
      getenvString (dataChar t.data) args.name.bytes = some none ∧
      forall other : CString, nameOf other.bytes ≠ args.name.bytes ->
        getenvString (dataChar t.data) other.bytes =
          getenvString (dataChar s.data) other.bytes

/-- The variable of a name is the rate of the console. -/
def IsBaudrate (vars : List Variable) (name : List Byte) : Prop :=
  name = ascii "baudrate" ∧ exists v, v ∈ vars ∧ v.name = name

theorem consoleFile_none {name : List Byte}
    (h : name ∉ [ascii "stdin", ascii "stdout", ascii "stderr"]) : consoleFile name = none := by
  simp only [List.mem_cons, List.not_mem_nil, or_false, not_or] at h
  rw [consoleFile, if_neg h.1, if_neg h.2.1, if_neg h.2.2]

section Call

variable {s : BoardState} {args : SetenvArgs} {vars : List Variable}

theorem doSetenv_unset (hvalues : args.values = []) (hequals : equalsSign ∉ args.name.bytes)
    (hconsole : consoleFile args.name.bytes = none) {found : Option (Nat × Nat)}
    (hsearch : searchDefinition s.data args.name.bytes (s.data.length + 1) 0 = some found) :
    doSetenv s args = setenvDelete { s with envId := s.envId + 1 } args.name.bytes [] found := by
  have hbytes : args.valueBytes = [] := by
    rw [SetenvArgs.valueBytes, hvalues]
    rfl
  unfold doSetenv
  dsimp only
  rw [if_neg hequals, hsearch, hbytes]
  simp [setenvConsole, hconsole]

theorem unset_returns (hdata : WellFormed s.data vars) (hvalues : args.values = [])
    (hequals : equalsSign ∉ args.name.bytes) (hconsole : consoleFile args.name.bytes = none)
    (hbaud : ¬ IsBaudrate vars args.name.bytes) :
    exists data', WellFormed data' (removeVariable args.name.bytes vars) ∧
      forall text, doSetenv (s.withLowMemory text) args =
        some (0, (envCrcUpdate { s with envId := s.envId + 1, data := data' }).withLowMemory
          text) := by
  by_cases hdefined : exists v, v ∈ vars ∧ v.name = args.name.bytes
  · rcases deleteDefinition_wellFormed hdata args.name.noNul hequals hdefined with
      ⟨env, nxt, data', hsearch, hdelete, hwf⟩
    have hname : args.name.bytes ≠ ascii "baudrate" := fun h => hbaud ⟨h, hdefined⟩
    refine ⟨data', hwf, fun text => ?_⟩
    rw [doSetenv_unset (s := s.withLowMemory text) hvalues hequals hconsole hsearch, setenvDelete,
      if_neg hname]
    dsimp only [BoardState.withLowMemory]
    rw [hdelete]
    rfl
  · have habsent : forall v, v ∈ vars -> v.name ≠ args.name.bytes :=
      fun v hv hvname => hdefined ⟨v, hv, hvname⟩
    have hsearch := searchDefinition_wellFormed_absent hdata args.name.noNul hequals habsent
    refine ⟨s.data, ?_, fun text => ?_⟩
    · rw [removeVariable_absent habsent]
      exact hdata
    · rw [doSetenv_unset (s := s.withLowMemory text) hvalues hequals hconsole hsearch]
      rfl

theorem unset_baudrate (hdata : WellFormed s.data vars) (hvalues : args.values = [])
    (hbaud : IsBaudrate vars args.name.bytes) :
    exists t, doSetenv (s.withLowMemory []) args = some (1, t) := by
  have hequals : equalsSign ∉ args.name.bytes := by
    rw [hbaud.1]
    decide
  have hconsole : consoleFile args.name.bytes = none := by
    rw [hbaud.1]
    decide
  rcases deleteDefinition_wellFormed hdata args.name.noNul hequals hbaud.2 with
    ⟨env, nxt, _, hsearch, _⟩
  rw [doSetenv_unset (s := s.withLowMemory []) hvalues hequals hconsole hsearch, setenvDelete,
    if_pos hbaud.1]
  have hrate : (simpleStrtoul ([] : List Byte) 10).1 ∉ baudrateTable := by decide
  exact ⟨_, by simp [switchBaudrate, BoardState.withLowMemory, hrate]; rfl⟩

/--
A call with a name only, other than a console file, deletes the variable just when it is not
a defined `baudrate`.
-/
theorem setenv_unsets_iff (hdata : WellFormed s.data vars) (hvalues : args.values = [])
    (hequals : equalsSign ∉ args.name.bytes)
    (hfile : args.name.bytes ∉ [ascii "stdin", ascii "stdout", ascii "stderr"]) :
    Unsets s args <-> ¬ IsBaudrate vars args.name.bytes := by
  constructor
  · rintro ⟨t, hreturns, _⟩ hbaud
    rcases unset_baudrate hdata hvalues hbaud with ⟨t', hrefused⟩
    rw [hreturns []] at hrefused
    cases hrefused
  · intro hbaud
    rcases unset_returns hdata hvalues hequals (consoleFile_none hfile) hbaud with
      ⟨data', hwf, hreturns⟩
    refine ⟨_, hreturns, ?_, ?_⟩
    · show getenvString (dataChar data') args.name.bytes = some none
      rw [getenvString_wellFormed hwf args.name.noNul, nameOf_eq_self hequals,
        lookupVariable_remove_self]
    · intro other hother
      show getenvString (dataChar data') other.bytes = _
      rw [getenvString_wellFormed hwf other.noNul, getenvString_wellFormed hdata other.noNul,
        lookupVariable_remove_other hother]

end Call

/-- The arguments of `setenv preboot`. -/
def unsetCall : SetenvArgs where
  name := ⟨ascii "preboot", by decide⟩
  values := []
  addressable := by decide

theorem setenv_unsets_iff_sample : Unsets sampleBoard unsetCall := by
  refine (setenv_unsets_iff sampleBoard_wellFormed rfl (by decide) (by decide)).mpr ?_
  intro hbaud
  exact absurd hbaud.1 (by decide)

/-- A board whose environment has the variable `baudrate=9600`. -/
def baudrateBoard : BoardState :=
  { sampleBoard with data := ascii "baudrate=9600" ++ List.replicate 1007 0#8 }

/-- The variable of `baudrateBoard`. -/
def baudrateVariable : Variable where
  name := ascii "baudrate"
  value := ascii "9600"
  nameNoNul := by decide
  nameNoEquals := by decide
  valueNoNul := by decide

theorem baudrateBoard_wellFormed : WellFormed baudrateBoard.data [baudrateVariable] where
  distinct := by decide
  size := by decide +kernel
  layout := ⟨List.replicate 1005 0#8, by decide +kernel⟩

/-- The arguments of `setenv baudrate`. -/
def unsetBaudrate : SetenvArgs where
  name := ⟨ascii "baudrate", by decide⟩
  values := []
  addressable := by decide

theorem setenv_baudrate_not_unset :
    WellFormed baudrateBoard.data [baudrateVariable] ∧ ¬ Unsets baudrateBoard unsetBaudrate := by
  refine ⟨baudrateBoard_wellFormed, ?_⟩
  rintro ⟨t, hreturns, _⟩
  have hrefused : (doSetenv (baudrateBoard.withLowMemory []) unsetBaudrate).map Prod.fst =
      some 1 := by
    decide +kernel
  rw [hreturns []] at hrefused
  cases hrefused

end Environment
end Bab750
