import Bab750.Console.LineEditor
import Bab750.Environment.Updates

/-!
# Editing a variable

`do_editenv` and `setenv` of `common/cmd_nvedit.c`.  The value is copied to the edit
buffer, but without command line editing `readline_into_buffer` starts with an empty
line, and what it returns is not looked at: a line that is broken off or empty deletes
the variable.
-/

namespace Bab750
namespace Environment

open Foundation
open Support
open Console

/-!
# The command
-/

def charOf (b : Byte) : Char := Char.ofNat b.toNat

def byteOf (c : Char) : Byte := BitVec.ofNat 8 c.toNat

def stringOf (bytes : List Byte) : CString where
  bytes := bytes.takeWhile (fun b => b != 0#8)
  noNul := by
    intro hmem
    exact absurd (List.mem_takeWhile_imp hmem) (by decide)

/-- `argv[1]` of `editenv`; with the edit buffer it stays in the range of `int`. -/
structure EditenvArgs where
  name : CString
  addressable : name.bytes.length + cbSize + 3 < 2 ^ 31

def bufferString (buffer : LineBuffer) : CString := stringOf (buffer.val.map byteOf)

theorem bufferString_length (buffer : LineBuffer) :
    (bufferString buffer).bytes.length <= cbSize := by
  have hle := (List.takeWhile_sublist (fun b => b != 0#8)
    (l := buffer.val.map byteOf)).length_le
  rw [List.length_map, buffer.property] at hle
  exact hle

/-- The arguments of `_do_setenv` for a value that is not empty. -/
def EditenvArgs.assign (args : EditenvArgs) (buffer : LineBuffer) : SetenvArgs where
  name := args.name
  values := [bufferString buffer]
  addressable := by
    have hvalue := bufferString_length buffer
    have hname := args.addressable
    simp only [List.map_cons, List.map_nil, List.sum_cons, List.sum_nil]
    omega

/-- The arguments of `_do_setenv` for an empty value. -/
def EditenvArgs.delete (args : EditenvArgs) : SetenvArgs where
  name := args.name
  values := []
  addressable := by
    have hname := args.addressable
    simp only [List.map_nil, List.sum_nil]
    omega

/--
`setenv`: an empty value deletes the variable.  `argv[2]` is then the empty value, and
not the NULL of the command line.
-/
def setenv (s : BoardState) (args : EditenvArgs) (buffer : LineBuffer) :
    Option (Int × BoardState) :=
  if (bufferString buffer).bytes = [] then
    (doSetenv { s with lowMemory := [] } args.delete).map
      (fun r => (r.1, { r.2 with lowMemory := s.lowMemory }))
  else doSetenv s (args.assign buffer)

/-- `sprintf(buffer, "%s", value)`; a value that does not fit is written behind the buffer. -/
def copyValue (buffer : LineBuffer) (value : List Byte) : Option LineBuffer :=
  if h : value.length < cbSize then
    some ⟨value.map charOf ++ '\x00' :: buffer.val.drop (value.length + 1), by
      rw [List.length_append, List.length_map, List.length_cons, List.length_drop,
        buffer.property]
      omega⟩
  else none

def initialBuffer (buffer : LineBuffer) : Option (List Byte) -> Option LineBuffer
  | some value => copyValue buffer value
  | none => buffer.store 0 '\x00'

/-- The prompt of `do_editenv`. -/
def editPrompt : Text := chars "edit: "

/--
`do_editenv` with a buffer on the stack that may hold anything.  There is no result when
a write misses the buffer, or when the keys run out.
-/
def doEditenv (s : BoardState) (args : EditenvArgs) (buffer : LineBuffer) :
    Option (Int × BoardState) := do
  let initVal <- getenvString (dataChar s.data) args.name.bytes
  let buffer <- initialBuffer buffer initVal
  let read <- readlineIntoBuffer (some editPrompt) buffer (s.input.map charOf)
  let s := { s with
    input := read.2.2.map byteOf
    output := s.output ++ read.1.map byteOf }
  match read.2.1 with
  | .typing _ => none
  | .entered _ buffer => setenv s args buffer
  | .interrupted buffer => setenv s args buffer

/-!
# Deleting instead of abandoning
-/

/-- `_do_setenv` refuses to delete the variable, or there is none. -/
def KeepsVariable (vars : List Variable) (name : List Byte) : Prop :=
  equalsSign ∈ name ∨ consoleFile name ≠ none ∨ name = ascii "baudrate" ∨
    forall v, v ∈ vars -> v.name ≠ name

variable {s t : BoardState} {vars : List Variable} {args : EditenvArgs} {r : Int}

theorem doSetenv_delete_returns (hdata : WellFormed s.data vars) (hlow : s.lowMemory = []) :
    exists r t, doSetenv s args.delete = some (r, t) := by
  by_cases hbaud : args.name.bytes = ascii "baudrate"
  · -- the rate of an empty text is in no table
    have hequals : equalsSign ∉ args.name.bytes := by
      rw [hbaud]
      decide
    rcases remainingData_wellFormed hdata args.name.noNul hequals with ⟨data, hrest, _⟩
    have hconsole : forall u : BoardState, setenvConsole u args.name.bytes [] = (true, u) := by
      intro u
      unfold setenvConsole
      rw [hbaud, show consoleFile (ascii "baudrate") = none from by decide]
    unfold remainingData at hrest
    unfold doSetenv
    dsimp only
    rw [if_neg (show equalsSign ∉ args.delete.name.bytes from hequals)]
    have hname : args.delete.name.bytes = args.name.bytes := rfl
    rw [hname]
    cases hsearch : searchDefinition s.data args.name.bytes (s.data.length + 1) 0 with
    | none =>
        rw [hsearch] at hrest
        cases hrest
    | some found =>
        change exists r t, (if (setenvConsole _ args.name.bytes []).1 = true then
          setenvDelete (setenvConsole _ args.name.bytes []).2 args.name.bytes [] found
          else _) = some (r, t)
        rw [hconsole, if_pos rfl]
        unfold setenvDelete
        cases found with
        | none =>
            exact ⟨_, _, rfl⟩
        | some range =>
            have hrate : (simpleStrtoul (([] : List (List Byte)).headD s.lowMemory) 10).1 ∉
                baudrateTable := by
              rw [hlow]
              decide
            rw [hbaud, if_pos rfl]
            unfold switchBaudrate
            dsimp only
            rw [if_neg hrate]
            exact ⟨_, _, rfl⟩
  · have hname : args.delete.name.bytes ≠ ascii "baudrate" := hbaud
    rcases doSetenv_returns hdata hname with ⟨⟨r, t⟩, hcall⟩
    exact ⟨r, t, hcall⟩

theorem accepted_delete_iff (hdata : WellFormed s.data vars) (hlow : s.lowMemory = [])
    (hdefined : exists v, v ∈ vars ∧ v.name = args.name.bytes) :
    Accepted s args.delete <-> ¬ KeepsVariable vars args.name.bytes := by
  have hconsole : (setenvConsole s args.name.bytes []).1 = true <->
      consoleFile args.name.bytes = none := by
    unfold setenvConsole
    cases consoleFile args.name.bytes with
    | none =>
        simp
    | some file =>
        simp
  have hrate : ¬ BaudrateSupported s [] := by
    unfold BaudrateSupported
    rw [List.headD_nil, hlow]
    decide
  have hpresent : ¬ forall v, v ∈ vars -> v.name ≠ args.name.bytes := by
    rcases hdefined with ⟨v, hv, hname⟩
    exact fun hnone => hnone v hv hname
  unfold Accepted KeepsVariable
  change _ ∧ (setenvConsole s args.name.bytes []).1 = true ∧ (_ -> _ -> BaudrateSupported s [])
    <-> _
  rw [hconsole]
  constructor
  · rintro ⟨hequals, hfile, hbaud⟩ (hbad | hbad | hbad | hbad)
    · exact hequals hbad
    · exact hbad hfile
    · exact hrate (hbaud hbad ((defined_iff hdata args.name.noNul hequals).mpr hdefined))
    · exact hpresent hbad
  · intro hkeeps
    simp only [not_or, not_not] at hkeeps
    exact ⟨hkeeps.left, hkeeps.right.left, fun hbaud => absurd hbaud hkeeps.right.right.left⟩

theorem doSetenv_delete_data (hdata : WellFormed s.data vars) (hlow : s.lowMemory = [])
    (hcall : doSetenv s args.delete = some (r, t)) :
    (KeepsVariable vars args.name.bytes -> t.data = s.data) ∧
      (¬ KeepsVariable vars args.name.bytes ->
        WellFormed t.data (removeVariable args.name.bytes vars)) := by
  by_cases hdefined : exists v, v ∈ vars ∧ v.name = args.name.bytes
  · have haccepted := accepted_delete_iff hdata hlow hdefined
    cases doSetenv_outcome hcall with
    | rejected check same =>
        exact ⟨fun _ => same.data, fun hkeeps => absurd (haccepted.mpr hkeeps) check⟩
    | deleted check rest novalue result crc =>
        refine ⟨fun hkeeps => absurd hkeeps (haccepted.mp check), fun _ => ?_⟩
        rcases remainingData_wellFormed hdata args.name.noNul check.left with
          ⟨data, hrest, hwf, _⟩
        rw [show args.delete.name = args.name from rfl, hrest, Option.some.injEq] at rest
        rw [result, <- rest]
        exact hwf
    | overflowed check rest value =>
        exact absurd rfl value
    | defined check rest value =>
        exact absurd rfl value
  · have habsent : forall v, v ∈ vars -> v.name ≠ args.name.bytes :=
      fun v hv hname => hdefined ⟨v, hv, hname⟩
    refine ⟨fun _ => ?_, fun hkeeps => absurd (Or.inr (Or.inr (Or.inr habsent))) hkeeps⟩
    cases doSetenv_outcome hcall with
    | rejected check same =>
        exact same.data
    | deleted check rest novalue result crc =>
        have hequals : equalsSign ∉ args.name.bytes := check.left
        rcases remainingData_wellFormed hdata args.name.noNul hequals with
          ⟨data, hrest, _, hsame⟩
        rw [show args.delete.name = args.name from rfl, hrest, Option.some.injEq] at rest
        rw [result, <- rest]
        refine hsame ?_
        rw [defined_iff hdata args.name.noNul hequals]
        exact hdefined
    | overflowed check rest value =>
        exact absurd rfl value
    | defined check rest value =>
        exact absurd rfl value

/-!
# What the line editor leaves
-/

def KeysBefore (keys : List Byte) : Prop :=
  forall b, b ∈ keys -> b ≠ 0x0d#8 ∧ b ≠ 0x0a#8 ∧ b ≠ 0x03#8

theorem byteOf_charOf : forall b : Byte, byteOf (charOf b) = b := by
  decide +kernel

theorem charOf_injective {a b : Byte} (h : charOf a = charOf b) : a = b := by
  rw [<- byteOf_charOf a, h, byteOf_charOf]

theorem bufferString_empty {buffer : LineBuffer} {rest : Text}
    (h : buffer.val = '\x00' :: rest) : (bufferString buffer).bytes = [] := by
  unfold bufferString stringOf
  rw [h]
  rfl

theorem set_first (buffer : LineBuffer) :
    exists rest, buffer.val.set 0 '\x00' = '\x00' :: rest := by
  cases hcells : buffer.val with
  | nil =>
      have hsize := buffer.property
      rw [hcells] at hsize
      cases hsize
  | cons c rest =>
      exact ⟨rest, rfl⟩

theorem readlineIntoBuffer_break (prompt : Option Text) (buffer : LineBuffer)
    {keys : List Byte} (hkeys : KeysBefore keys) (rest : List Byte) :
    exists out final, readlineIntoBuffer prompt buffer ((keys ++ 0x03#8 :: rest).map charOf) =
        some (out, .interrupted final, rest.map charOf) ∧
      (bufferString final).bytes = [] := by
  have hplain : forall c, c ∈ keys.map charOf -> c ≠ '\r' ∧ c ≠ '\n' ∧ c ≠ '\x03' := by
    intro c hc
    rcases List.mem_map.mp hc with ⟨b, hb, rfl⟩
    rcases hkeys b hb with ⟨hreturn, hfeed, hbreak⟩
    exact ⟨fun h => hreturn (charOf_injective h), fun h => hfeed (charOf_injective h),
      fun h => hbreak (charOf_injective h)⟩
  rcases readlineLoop_keys (openEditor_holds prompt buffer) hplain
    ('\x03' :: rest.map charOf) with ⟨out, next, _, hloop⟩
  rcases store_inside next.buffer '\x00' (show 0 < cbSize by decide) with
    ⟨final, hstore, hfinal⟩
  rcases set_first next.buffer with ⟨tail, htail⟩
  have hkey : readlineKey (promptLength prompt) next '\x03' =
      some ([], .interrupted final) := by
    unfold readlineKey
    rw [if_neg (by decide), if_neg (by decide), if_pos rfl,
      show (0 : Int) = (0 : Nat) from rfl, hstore]
    rfl
  refine ⟨puts (prompt.getD []) ++ (out ++ []), final, ?_,
    bufferString_empty (hfinal.trans htail)⟩
  unfold readlineIntoBuffer
  rw [List.map_append, List.map_cons, show charOf 0x03#8 = '\x03' from by decide, hloop,
    readlineLoop, hkey]
  rfl

theorem readlineIntoBuffer_enter (prompt : Option Text) (buffer : LineBuffer) {b : Byte}
    (hb : b = 0x0d#8 ∨ b = 0x0a#8) (rest : List Byte) :
    exists out final, readlineIntoBuffer prompt buffer ((b :: rest).map charOf) =
        some (out, .entered 0 final, rest.map charOf) ∧
      (bufferString final).bytes = [] := by
  have hc : charOf b = '\r' ∨ charOf b = '\n' := by
    rcases hb with rfl | rfl
    · exact Or.inl (by decide)
    · exact Or.inr (by decide)
  rcases store_inside buffer '\x00' (show 0 < cbSize by decide) with
    ⟨final, hstore, hfinal⟩
  rcases set_first buffer with ⟨tail, htail⟩
  have hkey : readlineKey (promptLength prompt) (openEditor prompt buffer) (charOf b) =
      some (puts ['\r', '\n'], .entered 0 final) := by
    unfold readlineKey
    rw [if_pos hc]
    change (buffer.store (0 : Nat) '\x00').bind _ = _
    rw [hstore]
    rfl
  refine ⟨puts (prompt.getD []) ++ puts ['\r', '\n'], final, ?_,
    bufferString_empty (hfinal.trans htail)⟩
  unfold readlineIntoBuffer
  rw [List.map_cons, readlineLoop, hkey]
  rfl

/-!
# Abandoned edits
-/

/-- The value of the variable fits into the edit buffer with its NUL. -/
def ValueFits (vars : List Variable) (name : List Byte) : Prop :=
  forall value, lookupVariable (nameOf name) vars = some value -> value.length < cbSize

/-- ^C leaves the environment as it was, and Enter alone the value of the variable. -/
structure EditAbandoned (s : BoardState) (args : EditenvArgs) : Prop where
  interrupted : forall buffer keys rest, KeysBefore keys -> exists r t,
    doEditenv { s with input := keys ++ 0x03#8 :: rest } args buffer = some (r, t) ∧
      t.data = s.data
  entered : forall buffer b rest, b = 0x0d#8 ∨ b = 0x0a#8 -> exists r t,
    doEditenv { s with input := b :: rest } args buffer = some (r, t) ∧
      getenvString (dataChar t.data) args.name.bytes =
        getenvString (dataChar s.data) args.name.bytes

theorem initialBuffer_some (hfits : ValueFits vars args.name.bytes) (buffer : LineBuffer) :
    exists first, initialBuffer buffer (lookupVariable (nameOf args.name.bytes) vars) =
      some first := by
  cases hvalue : lookupVariable (nameOf args.name.bytes) vars with
  | none =>
      rcases store_inside buffer '\x00' (show 0 < cbSize by decide) with ⟨first, hstore, _⟩
      exact ⟨first, hstore⟩
  | some value =>
      exact ⟨_, dif_pos (hfits value hvalue)⟩

theorem doEditenv_empty (hdata : WellFormed s.data vars)
    (hfits : ValueFits vars args.name.bytes) (buffer : LineBuffer)
    (hread : forall first, exists out final rest,
      (readlineIntoBuffer (some editPrompt) first (s.input.map charOf) =
          some (out, .interrupted final, rest) ∨
        readlineIntoBuffer (some editPrompt) first (s.input.map charOf) =
          some (out, .entered 0 final, rest)) ∧
      (bufferString final).bytes = []) :
    exists u r t, u.data = s.data ∧ u.lowMemory = [] ∧
      doSetenv u args.delete = some (r, t) ∧
      (doEditenv s args buffer).map (fun x => (x.1, x.2.data)) = some (r, t.data) := by
  rcases initialBuffer_some hfits buffer with ⟨first, hfirst⟩
  rcases hread first with ⟨out, final, rest, hline, hempty⟩
  have hreturns : exists r t, doSetenv { s with
      input := rest.map byteOf
      output := s.output ++ out.map byteOf
      lowMemory := [] } args.delete = some (r, t) := doSetenv_delete_returns hdata rfl
  rcases hreturns with ⟨r, t, hcall⟩
  refine ⟨{ s with
    input := rest.map byteOf
    output := s.output ++ out.map byteOf
    lowMemory := [] }, r, t, rfl, rfl, hcall, ?_⟩
  unfold doEditenv
  rw [getenvString_wellFormed hdata args.name.noNul, Option.bind_eq_bind, Option.bind_some,
    hfirst, Option.bind_eq_bind, Option.bind_some]
  rcases hline with hline | hline
  · rw [hline, Option.bind_eq_bind, Option.bind_some]
    dsimp only
    unfold setenv
    rw [if_pos hempty, hcall]
    rfl
  · rw [hline, Option.bind_eq_bind, Option.bind_some]
    dsimp only
    unfold setenv
    rw [if_pos hempty, hcall]
    rfl

theorem doEditenv_unfit (hdata : WellFormed s.data vars)
    (hfits : ¬ ValueFits vars args.name.bytes) (buffer : LineBuffer) :
    doEditenv s args buffer = none := by
  unfold ValueFits at hfits
  push Not at hfits
  rcases hfits with ⟨value, hvalue, hlong⟩
  have hcopy : initialBuffer buffer (some value) = none := dif_neg (Nat.not_lt.mpr hlong)
  unfold doEditenv
  rw [getenvString_wellFormed hdata args.name.noNul, hvalue, Option.bind_eq_bind,
    Option.bind_some, hcopy]
  rfl

theorem doEditenv_data {input : List Byte} {buffer : LineBuffer}
    {r : Int} {data : List Byte}
    (h : (doEditenv { s with input := input } args buffer).map (fun x => (x.1, x.2.data)) =
      some (r, data)) :
    exists t, doEditenv { s with input := input } args buffer = some (r, t) ∧
      t.data = data := by
  rcases Option.map_eq_some_iff.mp h with ⟨⟨r', t⟩, hcall, hboth⟩
  cases hboth
  exact ⟨t, hcall, rfl⟩

theorem keeps_of_abandoned (hdata : WellFormed s.data vars) (habandoned : EditAbandoned s args) :
    ValueFits vars args.name.bytes ∧ KeepsVariable vars args.name.bytes := by
  rcases habandoned.interrupted sampleLineBuffer [] [] (by simp [KeysBefore]) with
    ⟨r, t, hcall, hsame⟩
  have hfits : ValueFits vars args.name.bytes := by
    by_contra hunfit
    have hnone := doEditenv_unfit (s := { s with input := [] ++ 0x03#8 :: [] }) hdata hunfit
      sampleLineBuffer
    rw [hnone] at hcall
    cases hcall
  refine ⟨hfits, ?_⟩
  by_contra hkeeps
  rcases doEditenv_empty (s := { s with input := [] ++ 0x03#8 :: [] }) hdata hfits
    sampleLineBuffer (fun first => by
      have hnone : KeysBefore [] := by simp [KeysBefore]
      rcases readlineIntoBuffer_break (some editPrompt) first hnone [] with
        ⟨out, final, hline, hempty⟩
      exact ⟨out, final, _, Or.inl hline, hempty⟩) with
    ⟨u, r', t', hu, hlow, hdelete, hresult⟩
  rw [hcall] at hresult
  have hdata' : WellFormed u.data vars := hu ▸ hdata
  have hgone := (doSetenv_delete_data hdata' hlow hdelete).right hkeeps
  have ht : t'.data = s.data := by
    rw [<- hsame]
    exact (Prod.mk.inj (Option.some.inj hresult)).right.symm
  unfold KeepsVariable at hkeeps
  push Not at hkeeps
  rcases hkeeps with ⟨hequals, _, _, v, hv, hname⟩
  rw [ht] at hgone
  have hfirst := getenvString_wellFormed hdata args.name.noNul
  have hsecond := getenvString_wellFormed hgone args.name.noNul
  rw [hfirst, nameOf_eq_self hequals, lookupVariable_remove_self, Option.some.injEq]
    at hsecond
  unfold lookupVariable at hsecond
  rw [Option.map_eq_none_iff, List.find?_eq_none] at hsecond
  exact hsecond v hv (by simp [hname])

theorem abandoned_of_keeps (hdata : WellFormed s.data vars)
    (hfits : ValueFits vars args.name.bytes) (hkeeps : KeepsVariable vars args.name.bytes) :
    EditAbandoned s args := by
  constructor
  · intro buffer keys rest hkeys
    rcases doEditenv_empty (s := { s with input := keys ++ 0x03#8 :: rest }) hdata hfits
      buffer (fun first => by
        rcases readlineIntoBuffer_break (some editPrompt) first hkeys rest with
          ⟨out, final, hline, hempty⟩
        exact ⟨out, final, _, Or.inl hline, hempty⟩) with
      ⟨u, r, t, hu, hlow, hdelete, hresult⟩
    rcases doEditenv_data hresult with ⟨t', hcall, ht'⟩
    have hdata' : WellFormed u.data vars := hu ▸ hdata
    have hsame := (doSetenv_delete_data hdata' hlow hdelete).left hkeeps
    exact ⟨r, t', hcall, ht'.trans (hsame.trans hu)⟩
  · intro buffer b rest hb
    rcases doEditenv_empty (s := { s with input := b :: rest }) hdata hfits
      buffer (fun first => by
        rcases readlineIntoBuffer_enter (some editPrompt) first hb rest with
          ⟨out, final, hline, hempty⟩
        exact ⟨out, final, _, Or.inr hline, hempty⟩) with
      ⟨u, r, t, hu, hlow, hdelete, hresult⟩
    rcases doEditenv_data hresult with ⟨t', hcall, ht'⟩
    have hdata' : WellFormed u.data vars := hu ▸ hdata
    have hsame := (doSetenv_delete_data hdata' hlow hdelete).left hkeeps
    refine ⟨r, t', hcall, ?_⟩
    rw [ht', hsame, hu]

/--
Editing can be abandoned exactly where the value fits into the buffer and the variable is
not there or cannot be deleted.
-/
theorem editenv_abandoned_iff (s : BoardState) (args : EditenvArgs) (vars : List Variable)
    (hdata : WellFormed s.data vars) :
    EditAbandoned s args <->
      ValueFits vars args.name.bytes ∧ KeepsVariable vars args.name.bytes :=
  ⟨keeps_of_abandoned hdata, fun h => abandoned_of_keeps hdata h.left h.right⟩

/-- The arguments of `editenv a`. -/
def sampleEdit : EditenvArgs where
  name := ⟨ascii "a", sampleVariable.nameNoNul⟩
  addressable := by decide

/-- The arguments of `editenv b`. -/
def freshEdit : EditenvArgs where
  name := ⟨ascii "b", sampleVariable.valueNoNul⟩
  addressable := by decide

theorem editenv_abandoned_fresh : EditAbandoned sampleBoard freshEdit := by
  refine (editenv_abandoned_iff sampleBoard freshEdit [sampleVariable]
    sampleBoard_wellFormed).mpr ⟨?_, Or.inr (Or.inr (Or.inr ?_))⟩
  · have hnone : lookupVariable (nameOf freshEdit.name.bytes) [sampleVariable] = none := by
      decide
    intro value hvalue
    rw [hnone] at hvalue
    cases hvalue
  · decide

/-- ^C deletes the variable `a`. -/
theorem editenv_deletes :
    ¬ forall (s : BoardState) (args : EditenvArgs) (vars : List Variable),
      WellFormed s.data vars -> EditAbandoned s args := by
  intro habandoned
  have hkeeps := (keeps_of_abandoned sampleBoard_wellFormed
    (habandoned sampleBoard sampleEdit _ sampleBoard_wellFormed)).right
  rcases hkeeps with hbad | hbad | hbad | hbad
  · exact absurd hbad (by decide)
  · exact hbad (by decide)
  · exact absurd hbad (by decide)
  · exact hbad sampleVariable List.mem_cons_self rfl

end Environment
end Bab750
