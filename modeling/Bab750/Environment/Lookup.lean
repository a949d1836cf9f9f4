import Bab750.Foundation.StringTable

/-!
# Environment lookup

The lookup functions of `common/cmd_nvedit.c`.  They read the environment only
through `env_get_char`, so they are written over an accessor: before relocation
it asks the NVRAM device, afterwards it reads the copy in RAM.  A read outside
the object behind the accessor, or past the terminator of the name, has no
result.
-/

namespace Bab750
namespace Environment

open Foundation

def configEnvSize : Nat := 0x400

def envHeaderSize : Nat := 4

def envSize : Nat := configEnvSize - envHeaderSize

def equalsSign : Byte := 0x3d#8

/--
`envmatch`: the index of the value when the names match.  With both strings at
their terminator the C loop goes on comparing behind them, which is a read
outside the name.
-/
def envmatch (get : Nat -> Option Byte) : List Byte -> Nat -> Option (Option Nat)
  | [], i2 =>
      match get i2 with
      | none => none
      | some c =>
          if c = 0#8 then none
          else if c = equalsSign then some (some (i2 + 1))
          else some none
  | c1 :: s1, i2 =>
      match get i2 with
      | none => none
      | some c =>
          if c1 = c then
            if c1 = equalsSign then some (some (i2 + 1))
            else envmatch get s1 (i2 + 1)
          else some none

/--
The inner loop of `getenv` and `getenv_f`: the end of the string at an index, or
nothing when the scan passes `CONFIG_ENV_SIZE`.
-/
def entryEnd (get : Nat -> Option Byte) : Nat -> Nat -> Option (Option Nat)
  | 0, _ => none
  | fuel + 1, nxt =>
      match get nxt with
      | none => none
      | some c =>
          if c = 0#8 then some (some nxt)
          else if configEnvSize <= nxt then some none
          else entryEnd get fuel (nxt + 1)

/--
The outer loop of `getenv` and `getenv_f` from an index on: the index of the
value of the first matching entry.
-/
def findValue (get : Nat -> Option Byte) (name : List Byte) :
    Nat -> Nat -> Option (Option Nat)
  | 0, _ => none
  | fuel + 1, i =>
      match get i with
      | none => none
      | some c =>
          if c = 0#8 then some none
          else
            match entryEnd get (configEnvSize + 2) i with
            | none => none
            | some none => some none
            | some (some nxt) =>
                match envmatch get name i with
                | none => none
                | some (some val) => some (some val)
                | some none => findValue get name fuel (nxt + 1)

def getenv (get : Nat -> Option Byte) (name : List Byte) : Option (Option Nat) :=
  findValue get name (configEnvSize + 2) 0

def getenvString (get : Nat -> Option Byte) (name : List Byte) :
    Option (Option (List Byte)) :=
  match getenv get name with
  | none => none
  | some none => some none
  | some (some val) => (readString get (configEnvSize + 2) val).map some

/-- Result of `getenv_f`: return value, bytes left in the buffer, console text. -/
structure GetenvFResult where
  ret : Int
  buf : List Byte
  output : List Byte
deriving DecidableEq

/--
The copy loop of `getenv_f` with room for a number of bytes: the bytes stored
and whether the terminator was among them.
-/
def copyOut (get : Nat -> Option Byte) : Nat -> Nat -> Option (List Byte × Bool)
  | 0, _ => some ([], false)
  | room + 1, val =>
      match get val with
      | none => none
      | some c =>
          if c = 0#8 then some ([0#8], true)
          else (copyOut get room (val + 1)).map (fun r => (c :: r.1, r.2))

/-- What `getenv_f` reports once its copy loop has ended. -/
def finishCopy (len : Nat) (copied : List Byte × Bool) : GetenvFResult :=
  if copied.2 then
    { ret := copied.1.length - 1, buf := copied.1, output := [] }
  else
    { ret := len
      buf := if len = 0 then copied.1 else copied.1.dropLast ++ [0#8]
      output := ascii "env_buf too small [" ++ ascii (toString len) ++ ascii "]\n" }

/-- `getenv_f`: copy the value of a variable to a buffer of `len` bytes. -/
def getenvF (get : Nat -> Option Byte) (name : List Byte) (len : Nat) :
    Option GetenvFResult :=
  match findValue get name (configEnvSize + 2) 0 with
  | none => none
  | some none => some { ret := -1, buf := [], output := [] }
  | some (some val) => (copyOut get len val).map (finishCopy len)

/-!
# Lookup in a list of strings

The same search over the strings of a table.  The three answers keep the case
in which the comparison leaves the name.
-/

/-- Compare a name with one string of the table; the value when they match. -/
def matchString : List Byte -> List Byte -> Option (Option (List Byte))
  | [], [] => none
  | [], c :: text => if c = equalsSign then some (some text) else some none
  | _ :: _, [] => some none
  | c1 :: s1, c :: text =>
      if c1 = c then
        if c1 = equalsSign then some (some text) else matchString s1 text
      else some none

def lookupString (name : List Byte) :
    List (List Byte) -> Option (Option (List Byte))
  | [] => some none
  | text :: strs =>
      match matchString name text with
      | none => none
      | some (some value) => some (some value)
      | some none => lookupString name strs

/-!
# The loops over a table

Each loop is related to its list counterpart under the assumption that the
accessor answers the bytes of the table from the current index on.
-/

theorem envmatch_readsAt {get : Nat -> Option Byte} (name text : List Byte)
    (off : Nat) (hname : 0#8 ∉ name) (htext : 0#8 ∉ text)
    (hread : ReadsAt get off (text ++ [0#8])) :
    match matchString name text with
    | none => envmatch get name off = none
    | some none => envmatch get name off = some none
    | some (some value) =>
        exists pre : List Byte, text = pre ++ value ∧
          envmatch get name off = some (some (off + pre.length)) := by
  induction name generalizing text off with
  | nil =>
      cases text with
      | nil =>
          have hhead := (readsAt_cons.mp hread).left
          simp [matchString, envmatch, hhead]
      | cons c text =>
          have hhead := (readsAt_cons.mp hread).left
          have hc : c ≠ 0#8 := by
            intro hc
            exact htext (by simp [hc])
          by_cases heq : c = equalsSign
          · simp only [matchString, if_pos heq, envmatch, hhead, if_neg hc]
            exact ⟨[c], by simp, by simp⟩
          · simp [matchString, envmatch, hhead, hc, heq]
  | cons c1 name ih =>
      cases text with
      | nil =>
          have hhead := (readsAt_cons.mp hread).left
          have hc1 : c1 ≠ 0#8 := by
            intro hc1
            exact hname (by simp [hc1])
          simp [matchString, envmatch, hhead, hc1]
      | cons c text =>
          rcases readsAt_cons.mp hread with ⟨hhead, htail⟩
          by_cases hsame : c1 = c
          · by_cases heq : c1 = equalsSign
            · simp only [matchString, if_pos hsame, if_pos heq, envmatch, hhead]
              exact ⟨[c], by simp, by simp⟩
            · have hrest := ih text (off + 1)
                (fun h => hname (List.mem_cons_of_mem _ h))
                (fun h => htext (List.mem_cons_of_mem _ h)) htail
              simp only [matchString, if_pos hsame, if_neg heq, envmatch, hhead]
              cases hmatch : matchString name text with
              | none =>
                  simpa [hmatch] using hrest
              | some found =>
                  cases found with
                  | none =>
                      simpa [hmatch] using hrest
                  | some value =>
                      simp only [hmatch] at hrest
                      rcases hrest with ⟨pre, htextEq, hval⟩
                      refine ⟨c :: pre, by simp [htextEq], ?_⟩
                      rw [hval, List.length_cons]
                      congr 2
                      omega
          · simp [matchString, envmatch, hhead, hsame]

theorem entryEnd_readsAt {get : Nat -> Option Byte} {text : List Byte}
    (fuel off : Nat) (htext : 0#8 ∉ text)
    (hread : ReadsAt get off (text ++ [0#8])) (hfuel : text.length < fuel)
    (hbound : off + text.length <= configEnvSize) :
    entryEnd get fuel off = some (some (off + text.length)) := by
  induction text generalizing fuel off with
  | nil =>
      cases fuel with
      | zero =>
          simp at hfuel
      | succ fuel =>
          have hhead := (readsAt_cons.mp hread).left
          simp [entryEnd, hhead]
  | cons c text ih =>
      cases fuel with
      | zero =>
          simp at hfuel
      | succ fuel =>
          rcases readsAt_cons.mp hread with ⟨hhead, htail⟩
          have hc : c ≠ 0#8 := by
            intro hc
            exact htext (by simp [hc])
          rw [List.length_cons] at hfuel hbound
          have hrest := ih fuel (off + 1)
            (fun h => htext (List.mem_cons_of_mem _ h)) htail (by omega) (by omega)
          have hnot : ¬ configEnvSize <= off := by omega
          simp only [entryEnd, hhead, if_neg hc, if_neg hnot, hrest,
            List.length_cons]
          congr 2
          omega

/-- The search over a table answers the first match, as the list search does. -/
theorem findValue_readsAt {get : Nat -> Option Byte} {name : List Byte}
    {strs : List (List Byte)} (fuel off : Nat) (hname : 0#8 ∉ name)
    (hstrs : TableStrings strs)
    (hread : ReadsAt get off (encodeStrings strs ++ [0#8]))
    (hfuel : strs.length < fuel)
    (hbound : off + (encodeStrings strs).length <= configEnvSize) :
    match lookupString name strs with
    | none => findValue get name fuel off = none
    | some none => findValue get name fuel off = some none
    | some (some value) =>
        exists val : Nat, findValue get name fuel off = some (some val) ∧
          ReadsAt get val (value ++ [0#8]) ∧ 0#8 ∉ value ∧
            value.length < configEnvSize := by
  induction strs generalizing fuel off with
  | nil =>
      cases fuel with
      | zero =>
          simp at hfuel
      | succ fuel =>
          have hhead := (readsAt_cons.mp hread).left
          simp [lookupString, findValue, hhead]
  | cons text strs ih =>
      cases fuel with
      | zero =>
          simp at hfuel
      | succ fuel =>
          rcases hstrs text (by simp) with ⟨hne, hnul⟩
          have hread' : ReadsAt get off
              ((text ++ [0#8]) ++ (encodeStrings strs ++ [0#8])) := by
            simpa using hread
          rcases readsAt_append.mp hread' with ⟨htext, hrest⟩
          have hhead : exists c, get off = some c ∧ c ≠ 0#8 := by
            cases text with
            | nil =>
                exact absurd rfl hne
            | cons c text =>
                refine ⟨c, (readsAt_cons.mp htext).left, ?_⟩
                intro hc
                exact hnul (by simp [hc])
          rcases hhead with ⟨c, hget, hc⟩
          simp only [encodeStrings_cons, List.length_append,
            List.length_cons] at hbound hfuel
          have hend := entryEnd_readsAt (configEnvSize + 2) off hnul htext
            (by omega) (by omega)
          have hmatch := envmatch_readsAt name text off hname hnul htext
          have hnext := ih fuel (off + (text ++ [0#8]).length)
            (fun t ht => hstrs t (List.mem_cons_of_mem _ ht)) hrest (by omega)
            (by simp only [List.length_append, List.length_singleton]; omega)
          have hoff : off + (text ++ [0#8]).length = off + text.length + 1 := by
            simp [Nat.add_assoc]
          rw [hoff] at hnext
          simp only [lookupString, findValue, hget, if_neg hc, hend]
          cases hcase : matchString name text with
          | none =>
              simp only [hcase] at hmatch
              simp [hmatch]
          | some found =>
              cases found with
              | none =>
                  simp only [hcase] at hmatch
                  simpa [hmatch] using hnext
              | some value =>
                  simp only [hcase] at hmatch
                  rcases hmatch with ⟨pre, htextEq, hval⟩
                  refine ⟨off + pre.length, by simp [hval], ?_, ?_, ?_⟩
                  · have hsplit : ReadsAt get off
                        (pre ++ (value ++ [0#8])) := by
                      simpa [htextEq] using htext
                    exact (readsAt_append.mp hsplit).right
                  · intro h
                    exact hnul (by simp [htextEq, h])
                  · rw [htextEq, List.length_append] at hbound
                    omega

theorem getenvString_readsAt {get : Nat -> Option Byte} {name : List Byte}
    {strs : List (List Byte)} (hname : 0#8 ∉ name)
    (hstrs : TableStrings strs)
    (hread : ReadsAt get 0 (encodeStrings strs ++ [0#8]))
    (hbound : (encodeStrings strs).length <= configEnvSize)
    (hcount : strs.length <= configEnvSize) :
    getenvString get name = lookupString name strs := by
  have hfind := findValue_readsAt (configEnvSize + 2) 0 hname hstrs hread
    (by omega) (by omega)
  unfold getenvString getenv
  cases hcase : lookupString name strs with
  | none =>
      simp only [hcase] at hfind
      simp [hfind]
  | some found =>
      cases found with
      | none =>
          simp only [hcase] at hfind
          simp [hfind]
      | some value =>
          simp only [hcase] at hfind
          rcases hfind with ⟨val, hval, hvalue, hnul, hlen⟩
          have hstring := readString_readsAt (configEnvSize + 2) val hnul
            hvalue (by omega)
          simp [hval, hstring]

end Environment
end Bab750
