import Bab750.Environment.Append
import Bab750.Foundation.Run

/-!
# The environment as a store

On well-formed images `_do_setenv` is an update of a finite list of variables.
One theorem says what a call can do; the law of the store and the facts about
rejected calls are read off it.
-/

namespace Bab750
namespace Environment

open Foundation
open Support

/-!
# The store
-/

def removeVariable (name : List Byte) (vars : List Variable) : List Variable :=
  vars.filter (fun v => v.name ≠ name)

theorem removeVariable_absent {name : List Byte} {vars : List Variable}
    (h : forall v, v ∈ vars -> v.name ≠ name) : removeVariable name vars = vars := by
  unfold removeVariable
  apply List.filter_eq_self.mpr
  intro v hv
  exact decide_eq_true (h v hv)

theorem removeVariable_ne {name : List Byte} {vars : List Variable} {v : Variable}
    (h : v ∈ removeVariable name vars) : v.name ≠ name :=
  of_decide_eq_true (List.mem_filter.mp h).right

theorem lookupVariable_remove_self (name : List Byte) (vars : List Variable) :
    lookupVariable name (removeVariable name vars) = none := by
  unfold lookupVariable
  rw [Option.map_eq_none_iff, List.find?_eq_none]
  intro v hv
  simpa using removeVariable_ne hv

theorem lookupVariable_remove_other {name other : List Byte} (h : other ≠ name)
    (vars : List Variable) :
    lookupVariable other (removeVariable name vars) = lookupVariable other vars := by
  induction vars with
  | nil =>
      rfl
  | cons v vars ih =>
      unfold lookupVariable removeVariable at ih ⊢
      by_cases hv : v.name = name
      · have hother : ¬ v.name = other := fun hvo => h (hvo.symm.trans hv)
        simpa [hv, hother, Ne.symm h] using ih
      · by_cases hother : v.name = other
        · simp [hother, h]
        · simpa [hv, hother] using ih

theorem lookupVariable_append (name : List Byte) (left right : List Variable) :
    lookupVariable name (left ++ right) =
      (lookupVariable name left).or (lookupVariable name right) := by
  unfold lookupVariable
  rw [List.find?_append]
  cases left.find? (fun v => v.name = name) with
  | none =>
      rfl
  | some v =>
      rfl

/-!
# Deletion on a well-formed image
-/

theorem WellFormed.readsAt {data : List Byte} {vars : List Variable}
    (h : WellFormed data vars) :
    ReadsAt (dataChar data) 0 (encodeVariables vars ++ [0#8]) ∧
      (encodeVariables vars).length < data.length := by
  rcases h.layout with ⟨stale, hlayout⟩
  rcases encodeVariables_tableEnd vars with ⟨rest, hrest⟩
  have hbytes : data = [] ++ (encodeVariables vars ++ [0#8]) ++ (rest ++ stale) := by
    rw [hlayout, hrest]
    simp [encodeVariables]
  constructor
  · rw [hbytes]
    exact readsAt_getElem? [] _ _
  · rw [hbytes]
    simp only [List.nil_append, List.length_append, List.length_singleton]
    omega

theorem searchDefinition_wellFormed_absent {data name : List Byte}
    {vars : List Variable} (hdata : WellFormed data vars) (hname : 0#8 ∉ name)
    (hequals : equalsSign ∉ name) (habsent : forall v, v ∈ vars -> v.name ≠ name) :
    searchDefinition data name (data.length + 1) 0 = some none := by
  rcases hdata.readsAt with ⟨hread, hbound⟩
  have hcount := length_le_encodeVariables vars
  exact searchDefinition_absent (data.length + 1) 0 hname hequals habsent hread
    (by omega) (by omega)

theorem deleteDefinition_wellFormed {data name : List Byte} {vars : List Variable}
    (hdata : WellFormed data vars) (hname : 0#8 ∉ name)
    (hequals : equalsSign ∉ name) (hdefined : exists v, v ∈ vars ∧ v.name = name) :
    exists env nxt data',
      searchDefinition data name (data.length + 1) 0 = some (some (env, nxt)) ∧
        deleteDefinition data env nxt = some data' ∧
          WellFormed data' (removeVariable name vars) := by
  rcases hdefined with ⟨v, hv, hvname⟩
  rcases List.append_of_mem hv with ⟨front, back, hsplit⟩
  have hdistinct := hdata.distinct
  rw [hsplit, List.map_append, List.map_cons, hvname] at hdistinct
  rcases List.nodup_append.mp hdistinct with ⟨_, hbackNodup, hdisjoint⟩
  have hfront : forall u, u ∈ front -> u.name ≠ name := by
    intro u hu
    exact hdisjoint _ (List.mem_map_of_mem hu) _ (List.mem_cons_self)
  have hback : forall u, u ∈ back -> u.name ≠ name := by
    intro u hu hun
    exact (List.nodup_cons.mp hbackNodup).left
      (List.mem_map.mpr ⟨u, hu, hun⟩)
  have hremove : removeVariable name vars = front ++ back := by
    have hfrontEq := removeVariable_absent hfront
    have hbackEq := removeVariable_absent hback
    unfold removeVariable at *
    rw [hsplit, List.filter_append, List.filter_cons, hfrontEq, hbackEq]
    simp [hvname]
  rcases hdata.readsAt with ⟨hread, hbound⟩
  rw [hsplit] at hread hbound
  have hcount : front.length < data.length + 1 := by
    have hle := length_le_encodeVariables (front ++ v :: back)
    simp only [List.length_append] at hle
    omega
  have hsearch := searchDefinition_present (data.length + 1) 0 hname hequals hfront
    hvname hread (by omega) hcount
  rw [Nat.zero_add] at hsearch
  rcases hdata.layout with ⟨stale, hlayout⟩
  rcases deleteDefinition_layout front back v stale with ⟨stale', hdelete⟩
  rw [← hsplit, ← hlayout] at hdelete
  refine ⟨_, _, _, hsearch, hdelete, ?_⟩
  constructor
  · unfold removeVariable
    exact hdata.distinct.sublist (List.filter_sublist.map _)
  · rw [deleteDefinition_length hdelete]
    exact hdata.size
  · rw [hremove]
    exact ⟨stale', rfl⟩

/-!
# Appending on a well-formed image
-/

/-- The value a call stores: its arguments joined by single spaces. -/
def SetenvArgs.value (args : SetenvArgs) : List Byte :=
  joinValues args.valueBytes

theorem joinValues_noNul {values : List (List Byte)}
    (h : forall v, v ∈ values -> 0#8 ∉ v) : 0#8 ∉ joinValues values := by
  induction values with
  | nil =>
      simp [joinValues]
  | cons v values ih =>
      have hrest := ih (fun w hw => h w (List.mem_cons_of_mem _ hw))
      have hv := h v (by simp)
      cases values with
      | nil =>
          simpa [joinValues] using hv
      | cons w values =>
          have hstep : joinValues (v :: w :: values) =
              v ++ 0x20#8 :: joinValues (w :: values) := by
            simp [joinValues, List.intercalate]
          rw [hstep]
          intro hmem
          rcases List.mem_append.mp hmem with hl | hr
          · exact hv hl
          · rcases List.mem_cons.mp hr with hspace | htail
            · exact absurd hspace (by decide)
            · exact hrest htail

theorem SetenvArgs.value_noNul (args : SetenvArgs) : 0#8 ∉ args.value := by
  apply joinValues_noNul
  intro v hv
  rcases List.mem_map.mp hv with ⟨c, _hc, rfl⟩
  exact c.noNul

def SetenvArgs.variable (args : SetenvArgs) (h : equalsSign ∉ args.name.bytes) :
    Variable where
  name := args.name.bytes
  value := args.value
  nameNoNul := args.name.noNul
  nameNoEquals := h
  valueNoNul := args.value_noNul

/-- The bytes a call asks for do not fit behind the given variables. -/
def Overflows (vars : List Variable) (args : SetenvArgs) : Prop :=
  envSize < (encodeVariables vars).length +
    definitionLength args.name.bytes args.valueBytes

instance (vars : List Variable) (args : SetenvArgs) :
    Decidable (Overflows vars args) :=
  inferInstanceAs (Decidable (_ < _))

theorem appendPosition_wellFormed {data : List Byte} {vars : List Variable}
    (hdata : WellFormed data vars) :
    appendPosition data = some (encodeVariables vars).length := by
  rcases hdata.layout with ⟨stale, hlayout⟩
  rw [hlayout]
  exact appendPosition_layout vars stale

theorem writeDefinition_wellFormed {data : List Byte} {vars : List Variable}
    (hdata : WellFormed data vars) (args : SetenvArgs)
    (hequals : equalsSign ∉ args.name.bytes) (hvalues : args.valueBytes ≠ [])
    (hfree : forall v, v ∈ vars -> v.name ≠ args.name.bytes)
    (hfits : ¬ Overflows vars args) :
    exists data',
      writeDefinition data (encodeVariables vars).length args.name.bytes
          args.valueBytes = some data' ∧
        WellFormed data' (vars ++ [args.variable hequals]) := by
  unfold Overflows at hfits
  rcases hdata.layout with ⟨stale, hlayout⟩
  have hsize := hdata.size
  let len := definitionLength args.name.bytes args.valueBytes
  let room := tableEnd vars ++ stale
  have hroom : len <= room.length := by
    have hlen : data.length = (encodeVariables vars).length + room.length := by
      rw [hlayout]
      simp [room]
    show definitionLength args.name.bytes args.valueBytes <= room.length
    omega
  have hdataEq : data = encodeVariables vars ++ room.take len ++ room.drop len := by
    rw [hlayout, List.append_assoc, List.append_assoc, List.take_append_drop]
  have hwrite := writeDefinition_middle (encodeVariables vars) (room.take len)
    (room.drop len) args.name.bytes args.valueBytes
    (by rw [List.length_take]; exact Nat.min_eq_left hroom)
  rw [← hdataEq] at hwrite
  refine ⟨_, hwrite, ?_⟩
  have htext : (args.variable hequals).text =
      args.name.bytes ++ separated equalsSign args.valueBytes := by
    cases hcase : args.valueBytes with
    | nil =>
        exact absurd hcase hvalues
    | cons v values =>
        rw [separated_eq_joinValues]
        simp [Variable.text, SetenvArgs.variable, SetenvArgs.value, hcase]
  constructor
  · rw [List.map_append, List.nodup_append]
    refine ⟨hdata.distinct, by simp, ?_⟩
    intro n hn m hm
    rcases List.mem_map.mp hn with ⟨v, hv, rfl⟩
    have hm' : m = args.name.bytes := by
      simpa [SetenvArgs.variable] using hm
    rw [hm']
    exact hfree v hv
  · have hsep := separated_length equalsSign args.valueBytes
    have hdrop : (room.drop len).length = room.length - len := List.length_drop
    have hlen : data.length = (encodeVariables vars).length + room.length := by
      rw [hlayout]
      simp [room]
    have hlenEq : len = args.name.bytes.length + 2 +
        (args.valueBytes.map (fun v => v.length + 1)).sum := rfl
    simp only [List.length_append, List.length_cons]
    omega
  · refine ⟨room.drop len, ?_⟩
    rw [encodeVariables_append, encodeVariables_cons, htext]
    simp [tableEnd, encodeVariables]

end Environment
end Bab750
