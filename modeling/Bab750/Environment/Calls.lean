import Bab750.Environment.StoreLaw

/-!
# What a call of setenv can do

A call is rejected in front of the deletion, deletes only, overflows behind the
deletion, or appends a definition.  The four outcomes are stated once, for any
data area; on a well-formed image they become updates of the list of variables.
-/

namespace Bab750
namespace Environment

open Foundation
open Support

/-!
# Outcomes over any data area
-/

def remainingData (data name : List Byte) : Option (List Byte) :=
  match searchDefinition data name (data.length + 1) 0 with
  | none => none
  | some none => some data
  | some (some (env, nxt)) => deleteDefinition data env nxt

def Defined (data name : List Byte) : Prop :=
  exists env nxt,
    searchDefinition data name (data.length + 1) 0 = some (some (env, nxt))

/-- The rate a call of `setenv baudrate` asks for is in the table. -/
def BaudrateSupported (s : BoardState) (values : List (List Byte)) : Prop :=
  (simpleStrtoul (values.headD s.lowMemory) 10).1 ∈ baudrateTable

/-- None of the checks in front of the deletion rejects the call. -/
def Accepted (s : BoardState) (args : SetenvArgs) : Prop :=
  equalsSign ∉ args.name.bytes ∧
    (setenvConsole s args.name.bytes args.valueBytes).1 = true ∧
      (args.name.bytes = ascii "baudrate" -> Defined s.data args.name.bytes ->
        BaudrateSupported s args.valueBytes)

structure SameImage (s t : BoardState) : Prop where
  envPtr : t.envPtr = s.envPtr
  crc : t.crc = s.crc
  data : t.data = s.data

/-- The checksum in front of the data is the checksum of the data. -/
def CrcValid (s : BoardState) : Prop :=
  s.crc = crc32 0#32 (s.envPtr + envHeaderSize) s.data

inductive SetenvOutcome (s : BoardState) (args : SetenvArgs) :
    Int -> BoardState -> Prop where
  | rejected {t : BoardState} (check : ¬ Accepted s args) (same : SameImage s t) :
      SetenvOutcome s args 1 t
  | deleted {t : BoardState} {data : List Byte} (check : Accepted s args)
      (rest : remainingData s.data args.name.bytes = some data)
      (novalue : args.valueBytes = []) (result : t.data = data)
      (crc : CrcValid t) : SetenvOutcome s args 0 t
  | overflowed {t : BoardState} {data : List Byte} {env : Nat}
      (check : Accepted s args)
      (rest : remainingData s.data args.name.bytes = some data)
      (value : args.valueBytes ≠ []) (position : appendPosition data = some env)
      (overflow : envSize < env + definitionLength args.name.bytes args.valueBytes)
      (message : exists before, t.output = before ++
        (ascii "## Error: environment overflow, \"" ++ args.name.bytes ++
          ascii "\" deleted\n"))
      (same : SameImage { s with data := data } t) : SetenvOutcome s args 1 t
  | defined {t : BoardState} {data data' : List Byte} {env : Nat}
      (check : Accepted s args)
      (rest : remainingData s.data args.name.bytes = some data)
      (value : args.valueBytes ≠ []) (position : appendPosition data = some env)
      (fits : ¬ envSize < env + definitionLength args.name.bytes args.valueBytes)
      (write : writeDefinition data env args.name.bytes args.valueBytes = some data')
      (result : t.data = data') (crc : CrcValid t) : SetenvOutcome s args 0 t

theorem SameImage.refl (s : BoardState) : SameImage s s :=
  ⟨rfl, rfl, rfl⟩

theorem SameImage.trans {s t u : BoardState} (hst : SameImage s t)
    (htu : SameImage t u) : SameImage s u :=
  ⟨htu.envPtr.trans hst.envPtr, htu.crc.trans hst.crc, htu.data.trans hst.data⟩

theorem sameImage_print (s : BoardState) (text : List Byte) :
    SameImage s (s.print text) :=
  ⟨rfl, rfl, rfl⟩

theorem sameImage_updateCopies (s : BoardState) (name value : List Byte) :
    SameImage s (updateCopies s name value) := by
  unfold updateCopies
  split_ifs <;> exact ⟨rfl, rfl, rfl⟩

theorem SameImage.crcValid {s t : BoardState} (h : SameImage s t)
    (hs : CrcValid s) : CrcValid t := by
  unfold CrcValid at *
  rw [h.crc, h.envPtr, h.data]
  exact hs

theorem envCrcUpdate_crcValid (s : BoardState) : CrcValid (envCrcUpdate s) := rfl

theorem setenvConsole_sameImage (s : BoardState) (name : List Byte)
    (values : List (List Byte)) :
    SameImage s (setenvConsole s name values).2 ∧
      (setenvConsole s name values).2.lowMemory = s.lowMemory := by
  unfold setenvConsole
  cases consoleFile name with
  | none =>
      exact ⟨SameImage.refl s, rfl⟩
  | some file =>
      cases values with
      | nil =>
          exact ⟨sameImage_print s _, rfl⟩
      | cons devname values =>
          show SameImage s (consoleAssign s file devname).2 ∧
            (consoleAssign s file devname).2.lowMemory = s.lowMemory
          unfold consoleAssign
          cases searchDevice s (consoleFlag file) devname with
          | none =>
              exact ⟨SameImage.refl s, rfl⟩
          | some dev =>
              show SameImage s (consoleSetfile s file dev).2 ∧
                (consoleSetfile s file dev).2.lowMemory = s.lowMemory
              unfold consoleSetfile
              dsimp only
              split
              · exact ⟨SameImage.refl s, rfl⟩
              · exact ⟨⟨rfl, rfl, rfl⟩, rfl⟩

theorem switchBaudrate_cases {s t : BoardState} {values : List (List Byte)}
    {ok : Bool} (h : switchBaudrate s values = some (ok, t)) :
    SameImage s t ∧ (ok = true <-> BaudrateSupported s values) := by
  unfold switchBaudrate at h
  by_cases hrate : (simpleStrtoul (values.headD s.lowMemory) 10).1 ∈ baudrateTable
  · simp only [if_pos hrate] at h
    cases hwait : waitForEnter s.input with
    | none =>
        simp [hwait] at h
    | some input =>
        simp only [hwait, Option.some.injEq, Prod.mk.injEq] at h
        rcases h with ⟨rfl, rfl⟩
        exact ⟨⟨rfl, rfl, rfl⟩, fun _ => hrate, fun _ => rfl⟩
  · simp only [if_neg hrate, Option.some.injEq, Prod.mk.injEq] at h
    rcases h with ⟨rfl, rfl⟩
    refine ⟨⟨rfl, rfl, rfl⟩, ?_, ?_⟩
    · intro hfalse
      cases hfalse
    · intro hsupported
      exact absurd hsupported hrate

theorem setenvAppend_outcome {s t : BoardState} (u : BoardState)
    {args : SetenvArgs} {r : Int} (check : Accepted s args)
    (rest : remainingData s.data args.name.bytes = some u.data)
    (henv : u.envPtr = s.envPtr) (hcrc : u.crc = s.crc)
    (h : setenvAppend u args.name.bytes args.valueBytes = some (r, t)) :
    SetenvOutcome s args r t := by
  cases hvalues : args.valueBytes with
  | nil =>
      simp only [hvalues, setenvAppend, Option.some.injEq, Prod.mk.injEq] at h
      rcases h with ⟨rfl, rfl⟩
      exact .deleted check rest hvalues rfl (envCrcUpdate_crcValid u)
  | cons value values =>
      have hne : args.valueBytes ≠ [] := by
        rw [hvalues]
        exact List.cons_ne_nil _ _
      rw [hvalues] at h
      unfold setenvAppend at h
      cases hposition : appendPosition u.data with
      | none =>
          simp [hposition] at h
      | some env =>
          simp only [hposition] at h
          split at h
          case isTrue hover =>
              simp only [Option.some.injEq, Prod.mk.injEq] at h
              rcases h with ⟨rfl, rfl⟩
              exact .overflowed check rest hne hposition (by rw [hvalues]; exact hover)
                ⟨u.output, rfl⟩ ⟨henv, hcrc, rfl⟩
          case isFalse hfits =>
              cases hwrite : writeDefinition u.data env args.name.bytes
                  (value :: values) with
              | none =>
                  simp [hwrite] at h
              | some data' =>
                  simp only [hwrite, Option.some.injEq, Prod.mk.injEq] at h
                  rcases h with ⟨rfl, rfl⟩
                  have hcopies := sameImage_updateCopies
                    (envCrcUpdate { u with data := data' }) args.name.bytes value
                  exact .defined check rest hne hposition
                    (by rw [hvalues]; exact hfits)
                    (by rw [hvalues]; exact hwrite) hcopies.data
                    (hcopies.crcValid (envCrcUpdate_crcValid _))

theorem setenvConsole_envId (s : BoardState) (envId : Int) (name : List Byte)
    (values : List (List Byte)) :
    (setenvConsole { s with envId := envId } name values).1 =
      (setenvConsole s name values).1 := by
  unfold setenvConsole
  cases consoleFile name with
  | none =>
      rfl
  | some file =>
      cases values with
      | nil =>
          rfl
      | cons devname values =>
          have hassign : (consoleAssign { s with envId := envId } file devname).1 =
              (consoleAssign s file devname).1 := by
            unfold consoleAssign
            rw [show searchDevice { s with envId := envId } (consoleFlag file) devname =
              searchDevice s (consoleFlag file) devname from rfl]
            cases searchDevice s (consoleFlag file) devname with
            | none =>
                rfl
            | some dev =>
                simp only [consoleSetfile]
                split_ifs <;> rfl
          show decide (0 <= (consoleAssign { s with envId := envId } file devname).1) =
            decide (0 <= (consoleAssign s file devname).1)
          rw [hassign]

theorem baudrateCheck_cases {s t : BoardState} {name : List Byte}
    {values : List (List Byte)} {ok : Bool}
    (h : (if name = ascii "baudrate" then switchBaudrate s values
      else some (true, s)) = some (ok, t)) :
    SameImage s t ∧
      (ok = true <-> (name = ascii "baudrate" -> BaudrateSupported s values)) := by
  split at h
  case isTrue hname =>
      rcases switchBaudrate_cases h with ⟨hsame, hrate⟩
      refine ⟨hsame, ?_⟩
      rw [hrate]
      constructor
      · intro hsupported _
        exact hsupported
      · intro hsupported
        exact hsupported hname
  case isFalse hname =>
      simp only [Option.some.injEq, Prod.mk.injEq] at h
      rcases h with ⟨rfl, rfl⟩
      refine ⟨SameImage.refl _, ?_, ?_⟩
      · intro _ hbad
        exact absurd hbad hname
      · intro _
        rfl

theorem setenvDelete_outcome {s u t : BoardState} {args : SetenvArgs} {r : Int}
    {found : Option (Nat × Nat)} (hequals : equalsSign ∉ args.name.bytes)
    (hconsole : (setenvConsole s args.name.bytes args.valueBytes).1 = true)
    (hsearch : searchDefinition s.data args.name.bytes (s.data.length + 1) 0 =
      some found)
    (hsame : SameImage s u) (hlow : u.lowMemory = s.lowMemory)
    (h : setenvDelete u args.name.bytes args.valueBytes found = some (r, t)) :
    SetenvOutcome s args r t := by
  cases found with
  | none =>
      have hundefined : ¬ Defined s.data args.name.bytes := by
        rintro ⟨env, nxt, hfound⟩
        rw [hsearch] at hfound
        cases hfound
      refine setenvAppend_outcome u
        ⟨hequals, hconsole, fun _ hdef => absurd hdef hundefined⟩ ?_
        hsame.envPtr hsame.crc h
      rw [hsame.data]
      simp [remainingData, hsearch]
  | some range =>
      rcases range with ⟨env, nxt⟩
      simp only [setenvDelete] at h
      cases hcheck : (if args.name.bytes = ascii "baudrate" then
          switchBaudrate u args.valueBytes else some (true, u)) with
      | none =>
          simp [hcheck] at h
      | some switched =>
          rcases switched with ⟨ok, w⟩
          rcases baudrateCheck_cases hcheck with ⟨hsame', hok⟩
          have himage := hsame.trans hsame'
          have hrate : ok = true <-> (args.name.bytes = ascii "baudrate" ->
              BaudrateSupported s args.valueBytes) := by
            unfold BaudrateSupported at hok ⊢
            rw [← hlow]
            exact hok
          cases ok with
          | false =>
              simp only [hcheck, Option.some.injEq, Prod.mk.injEq] at h
              rcases h with ⟨rfl, rfl⟩
              refine .rejected ?_ himage
              intro check
              have hfalse := hrate.mpr
                (fun hname => check.right.right hname ⟨env, nxt, hsearch⟩)
              cases hfalse
          | true =>
              simp only [hcheck] at h
              rw [himage.data] at h
              cases hdelete : deleteDefinition s.data env nxt with
              | none =>
                  simp [hdelete] at h
              | some data =>
                  simp only [hdelete] at h
                  refine setenvAppend_outcome { w with data := data }
                    ⟨hequals, hconsole, fun hname _ => hrate.mp rfl hname⟩ ?_
                    himage.envPtr himage.crc h
                  simp [remainingData, hsearch, hdelete]

theorem doSetenv_outcome {s t : BoardState} {args : SetenvArgs} {r : Int}
    (h : doSetenv s args = some (r, t)) : SetenvOutcome s args r t := by
  unfold doSetenv at h
  dsimp only at h
  split at h
  case isTrue hequals =>
      simp only [Option.some.injEq, Prod.mk.injEq] at h
      rcases h with ⟨rfl, rfl⟩
      exact .rejected (fun check => check.left hequals) (sameImage_print s _)
  case isFalse hequals =>
      have hconsole := setenvConsole_sameImage { s with envId := s.envId + 1 }
        args.name.bytes args.valueBytes
      have hpass := setenvConsole_envId s (s.envId + 1) args.name.bytes args.valueBytes
      rcases hconsole with ⟨hsame, hlow⟩
      have himage : SameImage s (setenvConsole { s with envId := s.envId + 1 }
          args.name.bytes args.valueBytes).2 :=
        ⟨hsame.envPtr, hsame.crc, hsame.data⟩
      cases hsearch : searchDefinition s.data args.name.bytes (s.data.length + 1) 0 with
      | none =>
          simp [hsearch] at h
      | some found =>
          simp only [hsearch] at h
          split at h
          case isTrue hgo =>
              exact setenvDelete_outcome hequals (hpass.symm.trans hgo) hsearch himage
                hlow h
          case isFalse hstop =>
              simp only [Option.some.injEq, Prod.mk.injEq] at h
              rcases h with ⟨rfl, rfl⟩
              refine .rejected ?_ himage
              intro check
              exact hstop (hpass.trans check.right.left)

end Environment
end Bab750
