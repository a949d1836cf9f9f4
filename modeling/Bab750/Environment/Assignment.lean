import Bab750.Environment.Updates

/-!
# Sequences of assignments

Calls of `_do_setenv` for names that nothing else looks at.  A call that has room is
carried out, and behind a sequence of such calls a variable has the value that it was
given last.
-/

namespace Bab750
namespace Environment

open Foundation

structure FreeName (name : List Byte) : Prop where
  noEquals : equalsSign ∉ name
  notConsole : consoleFile name = none
  notBaudrate : name ≠ ascii "baudrate"

instance (name : List Byte) : Decidable (FreeName name) :=
  decidable_of_iff (equalsSign ∉ name ∧ consoleFile name = none ∧ name ≠ ascii "baudrate")
    ⟨fun h => ⟨h.1, h.2.1, h.2.2⟩, fun h => ⟨h.noEquals, h.notConsole, h.notBaudrate⟩⟩

def assign (vars : List Variable) (args : SetenvArgs) : List Variable :=
  if h : equalsSign ∉ args.name.bytes then updateVariables vars args h else vars

def SetenvArgs.assigned (args : SetenvArgs) : Option (List Byte) :=
  if args.valueBytes = [] then none else some args.value

def Fits (vars : List Variable) (args : SetenvArgs) : Prop :=
  args.valueBytes ≠ [] -> ¬ Overflows (removeVariable args.name.bytes vars) args

def FitsAll : List Variable -> List SetenvArgs -> Prop
  | _, [] => True
  | vars, args :: calls => Fits vars args ∧ FitsAll (assign vars args) calls

/-!
# One call
-/

theorem accepted_of_free {s : BoardState} {args : SetenvArgs}
    (h : FreeName args.name.bytes) : Accepted s args := by
  refine ⟨h.noEquals, ?_, fun hbaud => absurd hbaud h.notBaudrate⟩
  unfold setenvConsole
  rw [h.notConsole]

theorem doSetenv_fits {s : BoardState} {vars : List Variable} {args : SetenvArgs}
    (hdata : WellFormed s.data vars) (hname : FreeName args.name.bytes)
    (hfits : Fits vars args) :
    exists t, doSetenv s args = some (0, t) ∧ WellFormed t.data (assign vars args) := by
  rcases doSetenv_returns hdata hname.notBaudrate with ⟨⟨r, t⟩, hcall⟩
  have hzero : r = 0 := by
    cases doSetenv_outcome hcall with
    | rejected check same =>
        exact absurd (accepted_of_free hname) check
    | deleted check rest novalue result crc =>
        rfl
    | overflowed check rest value position overflow message same =>
        rcases remainingData_wellFormed hdata args.name.noNul hname.noEquals with
          ⟨data', hdata', hwf, _⟩
        rw [rest, Option.some.injEq] at hdata'
        subst hdata'
        rw [appendPosition_wellFormed hwf, Option.some.injEq] at position
        subst position
        exact absurd overflow (hfits value)
    | defined check rest value position fits write result crc =>
        rfl
  subst hzero
  refine ⟨t, hcall, ?_⟩
  rcases doSetenv_success hdata hcall with ⟨hequals, hwf⟩
  unfold assign
  rw [dif_pos hequals]
  exact hwf

theorem lookupVariable_assign_self (vars : List Variable) {args : SetenvArgs}
    (h : FreeName args.name.bytes) :
    lookupVariable args.name.bytes (assign vars args) = args.assigned := by
  unfold assign SetenvArgs.assigned
  rw [dif_pos h.noEquals, lookupVariable_update_self]

theorem lookupVariable_assign_other {name : List Byte} (vars : List Variable)
    {args : SetenvArgs} (hother : name ≠ args.name.bytes) :
    lookupVariable name (assign vars args) = lookupVariable name vars := by
  unfold assign
  split
  case isTrue hequals =>
      exact lookupVariable_update_other vars args hequals hother
  case isFalse =>
      rfl

/-!
# Whole sequences
-/

theorem fitsAll_append (vars : List Variable) (first second : List SetenvArgs) :
    FitsAll vars (first ++ second) <->
      FitsAll vars first ∧ FitsAll (first.foldl assign vars) second := by
  induction first generalizing vars with
  | nil =>
      exact ⟨fun h => ⟨trivial, h⟩, fun h => h.right⟩
  | cons args first ih =>
      show _ ∧ FitsAll (assign vars args) (first ++ second) <-> _
      rw [ih]
      exact (and_assoc).symm

def SetenvArgs.pair (args : SetenvArgs) : List Byte × List (List Byte) :=
  (args.name.bytes, args.valueBytes)

def lastAssigned (name : List Byte) (pairs : List (List Byte × List (List Byte))) :
    Option (Option (List Byte)) :=
  (pairs.filter (fun pair => pair.1 = name)).getLast?.map
    (fun pair => if pair.2 = [] then none else some (joinValues pair.2))

theorem lastAssigned_snoc (name : List Byte) (pairs : List (List Byte × List (List Byte)))
    (pair : List Byte × List (List Byte)) :
    lastAssigned name (pairs ++ [pair]) =
      if pair.1 = name then
        some (if pair.2 = [] then none else some (joinValues pair.2))
      else lastAssigned name pairs := by
  unfold lastAssigned
  rw [List.filter_append]
  split
  case isTrue hname =>
      rw [List.filter_cons_of_pos (by simpa using hname), List.filter_nil,
        List.getLast?_concat, Option.map_some]
  case isFalse hname =>
      rw [List.filter_cons_of_neg (by simpa using hname), List.filter_nil, List.append_nil]

theorem lookupVariable_assigns (name : List Byte) (vars : List Variable)
    (calls : List SetenvArgs) (hnames : forall args, args ∈ calls ->
      FreeName args.name.bytes) :
    lookupVariable name (calls.foldl assign vars) =
      (lastAssigned name (calls.map SetenvArgs.pair)).getD (lookupVariable name vars) := by
  induction calls using List.reverseRecOn with
  | nil =>
      rfl
  | append_singleton calls args ih =>
      have hrest := ih (fun a ha => hnames a (List.mem_append_left _ ha))
      rw [List.foldl_append, List.map_append, List.map_singleton, lastAssigned_snoc]
      show lookupVariable name (assign (calls.foldl assign vars) args) = _
      split
      case isTrue hname =>
          rw [← show args.name.bytes = name from hname, lookupVariable_assign_self _
            (hnames args (List.mem_append_right _ (List.mem_singleton_self args)))]
          rfl
      case isFalse hname =>
          rw [lookupVariable_assign_other _ (Ne.symm hname)]
          exact hrest

theorem assigns_deletions (vars : List Variable) (calls : List SetenvArgs)
    (hcalls : forall args, args ∈ calls ->
      FreeName args.name.bytes ∧ args.valueBytes = []) :
    FitsAll vars calls ∧
      calls.foldl assign vars =
        (calls.map (fun args => args.name.bytes)).foldl
          (fun rest name => removeVariable name rest) vars := by
  induction calls generalizing vars with
  | nil =>
      exact ⟨trivial, rfl⟩
  | cons args calls ih =>
      rcases hcalls args List.mem_cons_self with ⟨hname, hnone⟩
      have hassign : assign vars args = removeVariable args.name.bytes vars := by
        unfold assign updateVariables
        rw [dif_pos hname.noEquals, if_pos hnone, List.append_nil]
      rcases ih (assign vars args) (fun a ha => hcalls a (List.mem_cons_of_mem args ha))
        with ⟨hfits, hfold⟩
      refine ⟨⟨fun hvalues => absurd hnone hvalues, hfits⟩, ?_⟩
      rw [List.foldl_cons, hfold, hassign]
      rfl

/-!
# Room
-/

/-- The bytes that an assignment adds at most: `name=value` and a NUL. -/
def extent (pair : List Byte × List (List Byte)) : Nat :=
  if pair.2 = [] then 0 else pair.1.length + (joinValues pair.2).length + 2

theorem joinValues_length {values : List (List Byte)} (h : values ≠ []) :
    (joinValues values).length + 1 = (values.map (fun v => v.length + 1)).sum := by
  induction values with
  | nil =>
      exact absurd rfl h
  | cons v values ih =>
      cases values with
      | nil =>
          simp [joinValues, List.intercalate]
      | cons w values =>
          have hrest := ih (List.cons_ne_nil w values)
          have hstep : joinValues (v :: w :: values) =
              v ++ 0x20#8 :: joinValues (w :: values) := by
            simp [joinValues, List.intercalate]
          rw [hstep, List.length_append, List.length_cons, List.map_cons, List.sum_cons,
            ← hrest]
          omega

theorem removeVariable_length (name : List Byte) (vars : List Variable) :
    (encodeVariables (removeVariable name vars)).length <=
      (encodeVariables vars).length := by
  induction vars with
  | nil =>
      exact Nat.le_refl _
  | cons v vars ih =>
      unfold removeVariable at ih ⊢
      rw [List.filter_cons, encodeVariables_cons, List.length_append]
      split
      · rw [encodeVariables_cons, List.length_append]
        omega
      · omega

theorem definitionLength_extent {args : SetenvArgs} (h : args.valueBytes ≠ []) :
    definitionLength args.name.bytes args.valueBytes = extent args.pair + 1 := by
  have hjoin := joinValues_length h
  unfold definitionLength extent SetenvArgs.pair
  rw [if_neg h, ← hjoin]
  show _ = args.name.bytes.length + (joinValues args.valueBytes).length + 2 + 1
  omega

theorem fits_of_room {vars : List Variable} {args : SetenvArgs}
    (h : (encodeVariables vars).length + extent args.pair < envSize) : Fits vars args := by
  intro hvalues hover
  have hremove := removeVariable_length args.name.bytes vars
  unfold Overflows at hover
  rw [definitionLength_extent hvalues] at hover
  omega

theorem assign_length (vars : List Variable) (args : SetenvArgs) :
    (encodeVariables (assign vars args)).length <=
      (encodeVariables vars).length + extent args.pair := by
  have hremove := removeVariable_length args.name.bytes vars
  unfold assign
  split
  case isTrue hequals =>
      unfold updateVariables extent SetenvArgs.pair
      rw [encodeVariables_append, List.length_append]
      split
      · show _ + 0 <= _
        omega
      · rw [encodeVariables_cons, Variable.text]
        simp only [SetenvArgs.variable, SetenvArgs.value, List.length_append,
          List.length_cons, List.length_nil]
        show _ + (_ + (encodeVariables []).length) <= _
        rw [show (encodeVariables []).length = 0 from rfl]
        omega
  case isFalse =>
      omega

theorem fitsAll_of_room (vars : List Variable) (calls : List SetenvArgs)
    (h : (encodeVariables vars).length + (calls.map (fun args => extent args.pair)).sum <
      envSize) :
    FitsAll vars calls := by
  induction calls generalizing vars with
  | nil =>
      trivial
  | cons args calls ih =>
      rw [List.map_cons, List.sum_cons] at h
      have hstep := assign_length vars args
      exact ⟨fits_of_room (by omega), ih (assign vars args) (by omega)⟩

end Environment
end Bab750
