import Bab750.Environment.Lookup
import Mathlib.Data.List.TakeWhile

/-!
# Well-formed environment images

The environment is a table of `name=value` strings.  This module says when a
data area is well formed and what a lookup answers there.
-/

namespace Bab750
namespace Environment

open Foundation

structure Variable where
  name : List Byte
  value : List Byte
  nameNoNul : 0#8 ∉ name
  nameNoEquals : equalsSign ∉ name
  valueNoNul : 0#8 ∉ value

instance : DecidableEq Variable := fun first second =>
  decidable_of_iff (first.name = second.name ∧ first.value = second.value) (by
    cases first
    cases second
    simp)

def Variable.text (v : Variable) : List Byte :=
  v.name ++ equalsSign :: v.value

/-- The NULs behind the last string: an empty table has two of them. -/
def tableEnd (vars : List Variable) : List Byte :=
  if vars = [] then [0#8, 0#8] else [0#8]

/-- The bytes of the environment up to the end of the table. -/
def encodeVariables (vars : List Variable) : List Byte :=
  encodeStrings (vars.map Variable.text)

/--
A well-formed data area with the given variables: pairwise distinct names, the
encoded strings, the terminating double NUL, and any stale bytes behind it.
-/
structure WellFormed (data : List Byte) (vars : List Variable) : Prop where
  distinct : (vars.map Variable.name).Nodup
  size : data.length = envSize
  layout : exists stale : List Byte,
    data = encodeVariables vars ++ tableEnd vars ++ stale

def dataChar (data : List Byte) (i : Nat) : Option Byte := data[i]?

/-- The value of a variable, if there is one of that name. -/
def lookupVariable (name : List Byte) (vars : List Variable) :
    Option (List Byte) :=
  (vars.find? (fun v => v.name = name)).map Variable.value

/-- The part of a `name` or `name=value` argument that names the variable. -/
def nameOf (arg : List Byte) : List Byte :=
  arg.takeWhile (fun c => c != equalsSign)

/-!
# Strings of variables
-/

theorem Variable.text_ne_nil (v : Variable) : v.text ≠ [] := by
  simp [Variable.text]

theorem equalsSign_ne_nul : equalsSign ≠ 0#8 := by
  decide

theorem Variable.text_noNul (v : Variable) : 0#8 ∉ v.text := by
  intro h
  simp only [Variable.text, List.mem_append, List.mem_cons] at h
  rcases h with hname | hequals | hvalue
  · exact v.nameNoNul hname
  · exact equalsSign_ne_nul hequals.symm
  · exact v.valueNoNul hvalue

theorem tableStrings_text (vars : List Variable) :
    TableStrings (vars.map Variable.text) := by
  intro s hs
  rcases List.mem_map.mp hs with ⟨v, _hv, rfl⟩
  exact ⟨v.text_ne_nil, v.text_noNul⟩

theorem nameOf_eq_self {name : List Byte} (h : equalsSign ∉ name) :
    nameOf name = name := by
  unfold nameOf
  apply List.takeWhile_eq_self_iff.mpr
  intro c hc
  simp only [bne_iff_ne, ne_eq]
  intro hceq
  exact h (hceq ▸ hc)

theorem matchString_text (arg name value : List Byte)
    (hname : equalsSign ∉ name) :
    matchString arg (name ++ equalsSign :: value) =
      some (if nameOf arg = name then some value else none) := by
  induction name generalizing arg with
  | nil =>
      cases arg with
      | nil =>
          simp [matchString, nameOf]
      | cons c arg =>
          by_cases hc : c = equalsSign
          · simp [matchString, nameOf, hc]
          · simp [matchString, nameOf, hc]
  | cons n name ih =>
      have hn : n ≠ equalsSign := by
        intro hn
        exact hname (by simp [hn])
      have hrest : equalsSign ∉ name :=
        fun h => hname (List.mem_cons_of_mem _ h)
      cases arg with
      | nil =>
          simp [matchString, nameOf, hn]
      | cons c arg =>
          by_cases hc : c = n
          · have hname' : nameOf (c :: arg) = c :: nameOf arg := by
              simp [nameOf, hc, hn]
            have hih := ih arg hrest
            subst c
            rw [hname', List.cons_append, matchString, if_pos rfl, if_neg hn,
              hih]
            by_cases hsame : nameOf arg = name
            · simp [hsame]
            · simp [hsame]
          · by_cases hce : c = equalsSign
            · simp [matchString, nameOf, hce, Ne.symm hn]
            · simp [matchString, nameOf, hce, hc]

theorem lookupString_text (arg : List Byte) (vars : List Variable) :
    lookupString arg (vars.map Variable.text) =
      some (lookupVariable (nameOf arg) vars) := by
  induction vars with
  | nil =>
      rfl
  | cons v vars ih =>
      have hmatch := matchString_text arg v.name v.value v.nameNoEquals
      simp only [List.map_cons, lookupString, Variable.text, hmatch]
      by_cases hsame : nameOf arg = v.name
      · simp [hsame, lookupVariable]
      · have hsame' : ¬ v.name = nameOf arg := fun h => hsame h.symm
        simp only [if_neg hsame, ih]
        simp [lookupVariable, hsame']

/-!
# Lookup in a well-formed image
-/

theorem encodeVariables_tableEnd (vars : List Variable) :
    exists rest : List Byte,
      encodeVariables vars ++ tableEnd vars =
        encodeStrings (vars.map Variable.text) ++ [0#8] ++ rest := by
  by_cases h : vars = []
  · exact ⟨[0#8], by simp [encodeVariables, tableEnd, h]⟩
  · exact ⟨[], by simp [encodeVariables, tableEnd, h]⟩

theorem length_le_encodeVariables (vars : List Variable) :
    vars.length <= (encodeVariables vars).length := by
  induction vars with
  | nil =>
      simp [encodeVariables]
  | cons v vars ih =>
      simp only [encodeVariables, List.map_cons, encodeStrings_cons,
        List.length_append, List.length_cons] at *
      omega

theorem getenvString_wellFormed {data : List Byte} {vars : List Variable}
    (hdata : WellFormed data vars) {arg : List Byte} (harg : 0#8 ∉ arg) :
    getenvString (dataChar data) arg =
      some (lookupVariable (nameOf arg) vars) := by
  rcases hdata.layout with ⟨stale, hlayout⟩
  rcases encodeVariables_tableEnd vars with ⟨rest, hrest⟩
  have hsize := hdata.size
  have hbytes : data =
      [] ++ (encodeStrings (vars.map Variable.text) ++ [0#8]) ++
        (rest ++ stale) := by
    rw [hlayout, hrest]
    simp
  have hlen : (encodeStrings (vars.map Variable.text)).length <= envSize := by
    rw [← hsize, hbytes]
    simp only [List.nil_append, List.length_append]
    omega
  have hread : ReadsAt (dataChar data) 0
      (encodeStrings (vars.map Variable.text) ++ [0#8]) := by
    rw [hbytes]
    exact readsAt_getElem? [] _ _
  have hcount := length_le_encodeVariables vars
  have hsizes : envSize <= configEnvSize := by decide
  rw [getenvString_readsAt harg (tableStrings_text vars) hread (by omega)
    (by rw [List.length_map]; unfold encodeVariables at hcount; omega)]
  exact lookupString_text arg vars

end Environment
end Bab750
