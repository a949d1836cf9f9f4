import Bab750.Environment.Persistence

/-!
# Addresses of the environment

`getenv_IPaddr` reads an address off the environment.  The address of the board is kept
a second time, in `bi_ip_addr`, and only the last exit of `_do_setenv` writes it there.
This module says what a call does to the addresses, to that copy, and to `env_id`.
-/

namespace Bab750
namespace Environment

open Foundation
open Support

/-- `string_to_ip`, whose loop is the one of `_do_setenv`. -/
def stringToIp : Option (List Byte) -> BitVec 32
  | none => 0#32
  | some text => parseIpAddr text

def getenvIPaddr (s : BoardState) (var : List Byte) : BitVec 32 :=
  stringToIp ((getenvString (dataChar s.data) var).getD none)

theorem getenvIPaddr_wellFormed {s : BoardState} {vars : List Variable}
    (hdata : WellFormed s.data vars) {var : List Byte} (hnul : 0#8 ∉ var)
    (hequals : equalsSign ∉ var) :
    getenvIPaddr s var = stringToIp (lookupVariable var vars) := by
  unfold getenvIPaddr
  rw [getenvString_wellFormed hdata hnul, nameOf_eq_self hequals]
  rfl

/-!
# The counter and the copy
-/

/-- What a call keeps of the board besides the data area. -/
structure SameCopy (s t : BoardState) : Prop where
  envId : t.envId = s.envId
  ipAddr : t.ipAddr = s.ipAddr

theorem setenvConsole_sameCopy (s : BoardState) (name : List Byte)
    (values : List (List Byte)) : SameCopy s (setenvConsole s name values).2 := by
  unfold setenvConsole
  cases consoleFile name with
  | none =>
      exact ⟨rfl, rfl⟩
  | some file =>
      cases values with
      | nil =>
          exact ⟨rfl, rfl⟩
      | cons devname values =>
          show SameCopy s (consoleAssign s file devname).2
          unfold consoleAssign
          cases searchDevice s (consoleFlag file) devname with
          | none =>
              exact ⟨rfl, rfl⟩
          | some dev =>
              show SameCopy s (consoleSetfile s file dev).2
              unfold consoleSetfile
              dsimp only
              split
              · exact ⟨rfl, rfl⟩
              · exact ⟨rfl, rfl⟩

theorem switchBaudrate_sameCopy {s t : BoardState} {values : List (List Byte)} {ok : Bool}
    (h : switchBaudrate s values = some (ok, t)) : SameCopy s t := by
  unfold switchBaudrate at h
  dsimp only at h
  split at h
  case isTrue hrate =>
      cases hwait : waitForEnter s.input with
      | none =>
          rw [hwait] at h
          cases h
      | some input =>
          rw [hwait] at h
          rcases Prod.mk.inj (Option.some.inj h) with ⟨_, rfl⟩
          exact ⟨rfl, rfl⟩
  case isFalse hrate =>
      rcases Prod.mk.inj (Option.some.inj h) with ⟨_, rfl⟩
      exact ⟨rfl, rfl⟩

/-- `bi_ip_addr` behind a call with the given return value. -/
def copyBehind (s : BoardState) (name : List Byte) (values : List (List Byte)) (r : Int) :
    BitVec 32 :=
  match values with
  | [] => s.ipAddr
  | value :: _ => if r = 0 ∧ name = ascii "ipaddr" then parseIpAddr value else s.ipAddr

theorem copyBehind_failed {s : BoardState} {name : List Byte} {values : List (List Byte)}
    {r : Int} (hr : r ≠ 0) : copyBehind s name values r = s.ipAddr := by
  cases values with
  | nil =>
      rfl
  | cons value values =>
      exact if_neg (fun h => hr h.left)

theorem copyBehind_congr {s u : BoardState} (h : u.ipAddr = s.ipAddr) (name : List Byte)
    (values : List (List Byte)) (r : Int) :
    copyBehind u name values r = copyBehind s name values r := by
  unfold copyBehind
  rw [h]

theorem updateCopies_copy (s : BoardState) (name value : List Byte) :
    (updateCopies s name value).envId = s.envId ∧
      (updateCopies s name value).ipAddr =
        if name = ascii "ipaddr" then parseIpAddr value else s.ipAddr := by
  by_cases hname : name = ascii "ipaddr"
  · subst hname
    exact ⟨rfl, rfl⟩
  · unfold updateCopies
    rw [if_neg hname, if_neg hname]
    split_ifs <;> exact ⟨rfl, rfl⟩

theorem setenvAppend_copy {s t : BoardState} {name : List Byte}
    {values : List (List Byte)} {r : Int}
    (h : setenvAppend s name values = some (r, t)) :
    t.envId = s.envId ∧ t.ipAddr = copyBehind s name values r := by
  unfold setenvAppend at h
  cases values with
  | nil =>
      rcases Prod.mk.inj (Option.some.inj h) with ⟨_, rfl⟩
      exact ⟨rfl, rfl⟩
  | cons value values =>
      dsimp only at h
      cases hposition : appendPosition s.data with
      | none =>
          rw [hposition] at h
          cases h
      | some env =>
          rw [hposition] at h
          dsimp only at h
          split at h
          case isTrue hover =>
              rcases Prod.mk.inj (Option.some.inj h) with ⟨rfl, rfl⟩
              refine ⟨rfl, ?_⟩
              rw [copyBehind_failed (by decide)]
              rfl
          case isFalse hfits =>
              cases hwrite : writeDefinition s.data env name (value :: values) with
              | none =>
                  rw [hwrite] at h
                  cases h
              | some data =>
                  rw [hwrite] at h
                  rcases Prod.mk.inj (Option.some.inj h) with ⟨rfl, rfl⟩
                  rcases updateCopies_copy (envCrcUpdate { s with data := data }) name value
                    with ⟨hid, hip⟩
                  refine ⟨hid, hip.trans ?_⟩
                  unfold copyBehind
                  simp only [true_and]
                  rfl

theorem setenvDelete_copy {s t : BoardState} {name : List Byte}
    {values : List (List Byte)} {found : Option (Nat × Nat)} {r : Int}
    (h : setenvDelete s name values found = some (r, t)) :
    t.envId = s.envId ∧ t.ipAddr = copyBehind s name values r := by
  cases found with
  | none =>
      exact setenvAppend_copy h
  | some range =>
      rcases range with ⟨env, nxt⟩
      simp only [setenvDelete] at h
      cases hcheck : (if name = ascii "baudrate" then switchBaudrate s values
          else some (true, s)) with
      | none =>
          simp [hcheck] at h
      | some switched =>
          rcases switched with ⟨ok, w⟩
          have hsame : SameCopy s w := by
            split at hcheck
            · exact switchBaudrate_sameCopy hcheck
            · rcases Prod.mk.inj (Option.some.inj hcheck) with ⟨_, rfl⟩
              exact ⟨rfl, rfl⟩
          cases ok with
          | false =>
              simp only [hcheck, Option.some.injEq, Prod.mk.injEq] at h
              rcases h with ⟨rfl, rfl⟩
              refine ⟨hsame.envId, ?_⟩
              rw [copyBehind_failed (by decide)]
              exact hsame.ipAddr
          | true =>
              simp only [hcheck] at h
              cases hdelete : deleteDefinition w.data env nxt with
              | none =>
                  simp [hdelete] at h
              | some data =>
                  simp only [hdelete] at h
                  rcases setenvAppend_copy h with ⟨hid, hip⟩
                  refine ⟨hid.trans hsame.envId, hip.trans ?_⟩
                  exact copyBehind_congr hsame.ipAddr name values r

/-- A call counts `env_id` up unless its name has a `=`, and writes the copy at its end. -/
theorem doSetenv_copy {s t : BoardState} {args : SetenvArgs} {r : Int}
    (h : doSetenv s args = some (r, t)) :
    t.envId = (if equalsSign ∈ args.name.bytes then s.envId else s.envId + 1) ∧
      t.ipAddr = copyBehind s args.name.bytes args.valueBytes r := by
  unfold doSetenv at h
  dsimp only at h
  split at h
  case isTrue hequals =>
      rcases Prod.mk.inj (Option.some.inj h) with ⟨rfl, rfl⟩
      rw [if_pos hequals, copyBehind_failed (by decide)]
      exact ⟨rfl, rfl⟩
  case isFalse hequals =>
      rw [if_neg hequals]
      have hconsole := setenvConsole_sameCopy { s with envId := s.envId + 1 }
        args.name.bytes args.valueBytes
      cases hsearch : searchDefinition s.data args.name.bytes (s.data.length + 1) 0 with
      | none =>
          simp [hsearch] at h
      | some found =>
          simp only [hsearch] at h
          split at h
          case isTrue hgo =>
              rcases setenvDelete_copy h with ⟨hid, hip⟩
              refine ⟨hid.trans hconsole.envId, hip.trans ?_⟩
              exact copyBehind_congr hconsole.ipAddr _ _ _
          case isFalse hstop =>
              simp only [Option.some.injEq, Prod.mk.injEq] at h
              rcases h with ⟨rfl, rfl⟩
              rw [copyBehind_failed (by decide)]
              exact ⟨hconsole.envId, hconsole.ipAddr⟩

/-!
# The copy of the address
-/

/--
The call takes an address out of the environment and leaves the copy, or gives the address
in several words, of which the copy sees only the first one.
-/
def LosesAddress (s : BoardState) (args : SetenvArgs) : Prop :=
  args.name.bytes = ascii "ipaddr" ∧
    ((getenvIPaddr s (ascii "ipaddr") ≠ 0#32 ∧
        (args.valueBytes = [] ∨ OverwriteOverflows s args)) ∨
      exists value rest, args.valueBytes = value :: rest ∧
        parseIpAddr value ≠ parseIpAddr args.value)

theorem ipaddr_noNul : 0#8 ∉ ascii "ipaddr" := by decide

theorem ipaddr_noEquals : equalsSign ∉ ascii "ipaddr" := by decide

theorem getenvIPaddr_sameData {s t : BoardState} (h : t.data = s.data) (var : List Byte) :
    getenvIPaddr t var = getenvIPaddr s var := by
  unfold getenvIPaddr
  rw [h]

theorem getenvIPaddr_removed {s t : BoardState} {vars : List Variable} {name : List Byte}
    (hdata : WellFormed s.data vars) (hleft : WellFormed t.data (removeVariable name vars))
    (hzero : name = ascii "ipaddr" -> getenvIPaddr s (ascii "ipaddr") = 0#32) :
    getenvIPaddr t (ascii "ipaddr") = getenvIPaddr s (ascii "ipaddr") := by
  rw [getenvIPaddr_wellFormed hleft ipaddr_noNul ipaddr_noEquals]
  by_cases hname : name = ascii "ipaddr"
  · rw [hzero hname, hname, lookupVariable_remove_self]
    rfl
  · rw [lookupVariable_remove_other (Ne.symm hname),
      getenvIPaddr_wellFormed hdata ipaddr_noNul ipaddr_noEquals]

theorem getenvIPaddr_remaining {s t : BoardState} {vars : List Variable}
    {args : SetenvArgs} {data : List Byte} (hdata : WellFormed s.data vars)
    (check : Accepted s args) (rest : remainingData s.data args.name.bytes = some data)
    (hresult : t.data = data)
    (hzero : args.name.bytes = ascii "ipaddr" -> Defined s.data args.name.bytes ->
      getenvIPaddr s (ascii "ipaddr") = 0#32) :
    getenvIPaddr t (ascii "ipaddr") = getenvIPaddr s (ascii "ipaddr") ∧
      WellFormed t.data (removeVariable args.name.bytes vars) := by
  rcases remainingData_wellFormed hdata args.name.noNul check.left with
    ⟨left, hleft, hwf, hsame⟩
  rw [rest, Option.some.injEq] at hleft
  rw [← hleft, ← hresult] at hwf
  refine ⟨?_, hwf⟩
  by_cases hdefined : Defined s.data args.name.bytes
  · exact getenvIPaddr_removed hdata hwf (fun hname => hzero hname hdefined)
  · refine getenvIPaddr_sameData ?_ _
    rw [hresult, hleft, hsame hdefined]

/-- A call that does not lose the address keeps the copy in step with the environment. -/
theorem doSetenv_ipAddr {s t : BoardState} {args : SetenvArgs} {r : Int}
    {vars : List Variable} (hdata : WellFormed s.data vars)
    (hcopy : s.ipAddr = getenvIPaddr s (ascii "ipaddr"))
    (h : doSetenv s args = some (r, t)) (hkeeps : ¬ LosesAddress s args) :
    t.ipAddr = getenvIPaddr t (ascii "ipaddr") ∧
      exists after, WellFormed t.data after := by
  have hip := (doSetenv_copy h).right
  have hzero : args.name.bytes = ascii "ipaddr" ->
      (args.valueBytes = [] ∨ OverwriteOverflows s args) ->
        getenvIPaddr s (ascii "ipaddr") = 0#32 := by
    intro hname hgone
    by_contra haddress
    exact hkeeps ⟨hname, Or.inl ⟨haddress, hgone⟩⟩
  rw [hip]
  cases doSetenv_outcome h with
  | rejected check same =>
      rw [copyBehind_failed (by decide), getenvIPaddr_sameData same.data]
      rw [same.data]
      exact ⟨hcopy, vars, hdata⟩
  | deleted check rest novalue result crc =>
      rcases getenvIPaddr_remaining hdata check rest result
        (fun hname _ => hzero hname (Or.inl novalue)) with ⟨hsame, hwf⟩
      rw [hsame, novalue]
      exact ⟨hcopy, _, hwf⟩
  | overflowed check rest value position overflow message same =>
      rcases getenvIPaddr_remaining hdata check rest same.data
        (fun hname hdefined => hzero hname (Or.inr
          ⟨check, hdefined, value, _, _, rest, position, overflow⟩)) with ⟨hsame, hwf⟩
      rw [copyBehind_failed (by decide), hsame]
      exact ⟨hcopy, _, hwf⟩
  | defined check rest value position fits write result crc =>
      rcases doSetenv_success hdata h with ⟨hequals, hwf⟩
      refine ⟨?_, _, hwf⟩
      rw [getenvIPaddr_wellFormed hwf ipaddr_noNul ipaddr_noEquals]
      cases hvalues : args.valueBytes with
      | nil =>
          exact absurd hvalues value
      | cons first more =>
          by_cases hname : args.name.bytes = ascii "ipaddr"
          · have hlookup := lookupVariable_update_self vars args hequals
            rw [if_neg value, hname] at hlookup
            rw [hlookup]
            show (if 0 = 0 ∧ _ then _ else _) = parseIpAddr args.value
            rw [if_pos ⟨rfl, hname⟩]
            by_contra hwords
            exact hkeeps ⟨hname, Or.inr ⟨first, more, hvalues, hwords⟩⟩
          · rw [lookupVariable_update_other vars args hequals (Ne.symm hname),
              ← getenvIPaddr_wellFormed hdata ipaddr_noNul ipaddr_noEquals, ← hcopy]
            exact if_neg (fun hboth => hname hboth.right)

end Environment
end Bab750
