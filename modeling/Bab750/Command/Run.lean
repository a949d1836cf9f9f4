import Bab750.Command.Line

/-!
# Running commands

`run_command` of `common/main.c` and `find_cmd` of `common/command.c`, for any table
of commands.  What a command does to the board is a function of its entry.
-/

namespace Bab750
namespace Command

open Foundation
open Console (cbSize Shell)

/-!
# The command table
-/

/-- `CMD_FLAG_REPEAT` and `CMD_FLAG_BOOTD`. -/
structure Flags where
  repeated : Bool
  bootd : Bool
deriving DecidableEq

/-- What a command function leaves behind; `interrupted` is `had_ctrlc`. -/
structure Result (S : Type) where
  output : Text
  state : S
  rc : Int
  interrupted : Bool

variable {S : Type}

def textOf (bytes : List Byte) : Text := bytes.map (fun b => Char.ofNat b.toNat)

def bytesOf (text : Text) : List Byte := text.map (fun c => BitVec.ofNat 8 c.toNat)

structure Manual where
  name : List Byte
  usage : Text
  help : Text

def cmdUsage (manual : Manual) : Text :=
  textOf manual.name ++ chars " - " ++ manual.usage ++ chars "\n\nUsage:\n" ++
    textOf manual.name ++ chars " " ++ manual.help ++ chars "\n"

structure Entry (S : Type) extends Manual where
  maxargs : Nat
  repeatable : Bool
  /-- `cmdtp->cmd == do_bootd`. -/
  isBootd : Bool
  cmd : S -> Flags -> List (List Byte) -> Result S

def commandKey (cmd : List Byte) : List Byte := cmd.takeWhile (fun c => c != 0x2e#8)

/-- The loop of `find_cmd_tbl`: a full match, or the only abbreviated one. -/
def findFrom (key : List Byte) : List (Entry S) -> Nat -> Option (Entry S) ->
    Option (Entry S)
  | [], found, last => if found = 1 then last else none
  | entry :: table, found, last =>
      if key.isPrefixOf entry.name then
        if key.length = entry.name.length then some entry
        else findFrom key table (found + 1) (some entry)
      else findFrom key table found last

def findCmd (table : List (Entry S)) (cmd : List Byte) : Option (Entry S) :=
  findFrom (commandKey cmd) table 0 none

/-!
# The loop over the commands of a line
-/

structure CommandSet (S : Type) where
  table : List (Entry S)
  getenv : S -> List Byte -> Option (List Byte)
  /-- The byte in front of `cmdbuf`. -/
  front : Byte

/-- The variables of `run_command`. -/
structure RunState (S : Type) where
  output : Text
  state : S
  rc : Int
  repeatable : Bool

/-- `return rc ? rc : repeatable`. -/
def RunState.finish (r : RunState S) : Text × S × Int :=
  (r.output, r.state, if r.rc ≠ 0 then r.rc else if r.repeatable then 1 else 0)

def RunState.giveUp (r : RunState S) (message : Text) : RunState S :=
  { r with output := r.output ++ message, rc := -1 }

def tooManyArgs : Text := chars "** Too many args (max. 16) **\n"

def unknownCommand (name : List Byte) : Text :=
  chars "Unknown command '" ++ textOf name ++ chars "' - try 'help'\n"

/-- What one command of the line does: the loop goes on, or `run_command` returns. -/
def runOne (set : CommandSet S) (flags : Flags) (r : RunState S) (token : List Byte) :
    Flags × RunState S × Bool :=
  let args := parseLine (processMacros (set.getenv r.state) token)
  let r := { r with output := r.output ++ if args.tooMany then tooManyArgs else [] }
  match args.argv with
  | [] => (flags, r.giveUp [], true)
  | name :: rest =>
      match findCmd set.table name with
      | none => (flags, r.giveUp (unknownCommand name), true)
      | some entry =>
          if entry.maxargs < (name :: rest).length then
            (flags, r.giveUp (cmdUsage entry.toManual), true)
          else if entry.isBootd && flags.bootd then
            (flags, r.giveUp (chars "'bootd' recursion detected\n"), true)
          else
            let flags := { flags with bootd := flags.bootd || entry.isBootd }
            let result := entry.cmd r.state flags (name :: rest)
            (flags,
              { output := r.output ++ result.output
                state := result.state
                rc := if result.rc ≠ 0 then -1 else r.rc
                repeatable := r.repeatable && entry.repeatable },
              !result.interrupted)

/-- The loop of `run_command`; every pass takes at least one character. -/
def runLoop (set : CommandSet S) :
    Nat -> Flags -> RunState S -> Byte -> List Byte -> Text × S × Int
  | 0, _, r, _, _ => r.finish
  | fuel + 1, flags, r, prev, str =>
      if str.isEmpty then r.finish
      else
        let (token, more) := splitCommand false prev true str
        let (flags, r, goesOn) := runOne set flags r token
        if goesOn then runLoop set fuel flags r 0#8 (more.getD [])
        else (r.output, r.state, -1)

def runCommand (set : CommandSet S) (s : S) (cmd : List Byte) (flags : Flags) :
    Text × S × Int :=
  if cmd.isEmpty then ([], s, -1)
  else if cbSize <= cmd.length then (chars "## Command too long!\n", s, -1)
  else runLoop set cmd.length flags ⟨[], s, 0, true⟩ set.front cmd

def commandShell (set : CommandSet S) : Shell S where
  runCommand := fun s line repeated => runCommand set s (bytesOf line) ⟨repeated, false⟩

/-!
# One plain command
-/

def lineCode (entry : Entry S) (result : Result S) : Int :=
  if result.interrupted then -1
  else if result.rc ≠ 0 then -1
  else if entry.repeatable then 1 else 0

theorem joinWords_ne_nil {words : List (List Byte)} (hwords : words ≠ [])
    (hplain : forall word, word ∈ words -> PlainWord word) : joinWords words ≠ [] := by
  cases words with
  | nil =>
      exact absurd rfl hwords
  | cons word words =>
      cases words with
      | nil =>
          exact (hplain word List.mem_cons_self).nonempty
      | cons other words =>
          exact List.append_ne_nil_of_right_ne_nil _ (List.cons_ne_nil _ _)

theorem runCommand_one (set : CommandSet S) (s : S) (flags : Flags) {line name : List Byte}
    {rest : List (List Byte)} {entry : Entry S} (hsome : line ≠ [])
    (hlength : line.length < cbSize)
    (hsplit : splitCommand false set.front true line = (line, none))
    (hparse : parseLine (processMacros (set.getenv s) line) = ⟨name :: rest, false⟩)
    (hentry : findCmd set.table name = some entry)
    (hmax : (name :: rest).length <= entry.maxargs) (hbootd : entry.isBootd = false) :
    runCommand set s line flags =
      ((entry.cmd s flags (name :: rest)).output, (entry.cmd s flags (name :: rest)).state,
        lineCode entry (entry.cmd s flags (name :: rest))) := by
  have hone : runOne set flags ⟨[], s, 0, true⟩ line =
      (flags,
        ⟨(entry.cmd s flags (name :: rest)).output,
          (entry.cmd s flags (name :: rest)).state,
          if (entry.cmd s flags (name :: rest)).rc ≠ 0 then -1 else 0,
          entry.repeatable⟩,
        !(entry.cmd s flags (name :: rest)).interrupted) := by
    unfold runOne
    simp only [hparse, hentry, hbootd]
    rw [if_neg (by omega)]
    simp
  have hempty : line.isEmpty = false := by
    rw [List.isEmpty_eq_false_iff]
    exact hsome
  have hfuel : exists fuel, line.length = fuel + 1 := by
    exact Nat.exists_eq_succ_of_ne_zero (fun h => hsome (List.length_eq_zero_iff.mp h))
  rcases hfuel with ⟨fuel, hfuel⟩
  unfold runCommand
  rw [hempty, if_neg (by decide), if_neg (by omega), hfuel]
  unfold runLoop
  simp only [hempty, Bool.false_eq_true, if_false, hsplit, hone]
  unfold lineCode
  cases (entry.cmd s flags (name :: rest)).interrupted with
  | true =>
      rfl
  | false =>
      simp only [Bool.not_false, if_true, Option.getD_none]
      -- nothing is left of the line
      have hrest : forall r : RunState S, runLoop set fuel flags r 0#8 [] = r.finish := by
        intro r
        cases fuel with
        | zero =>
            rfl
        | succ fuel =>
            rfl
      rw [hrest]
      unfold RunState.finish
      by_cases hrc : (entry.cmd s flags (name :: rest)).rc = 0
      · simp [hrc]
      · simp [hrc]

theorem runCommand_words (set : CommandSet S) (s : S) (flags : Flags) {name : List Byte}
    {rest : List (List Byte)} {entry : Entry S}
    (hplain : forall word, word ∈ name :: rest -> PlainWord word)
    (hargs : (name :: rest).length <= maxArgs)
    (hlength : (joinWords (name :: rest)).length < cbSize)
    (hentry : findCmd set.table name = some entry)
    (hmax : (name :: rest).length <= entry.maxargs) (hbootd : entry.isBootd = false) :
    runCommand set s (joinWords (name :: rest)) flags =
      ((entry.cmd s flags (name :: rest)).output, (entry.cmd s flags (name :: rest)).state,
        lineCode entry (entry.cmd s flags (name :: rest))) := by
  have hordinary := joinWords_ordinary (name :: rest) hplain
  refine runCommand_one set s flags (joinWords_ne_nil (List.cons_ne_nil name rest) hplain)
    hlength (splitCommand_ordinary _ hordinary _ _) ?_ hentry hmax hbootd
  rw [processMacros_ordinary _ _ hordinary hlength]
  exact parseArgs_words _ (List.cons_ne_nil _ _) (fun w hw => (hplain w hw).bare) _ hargs

theorem commandShell_words (set : CommandSet S) (s : S) {line : Text} {name : List Byte}
    {rest : List (List Byte)} {entry : Entry S} (hline : bytesOf line = joinWords (name :: rest))
    (hplain : forall word, word ∈ name :: rest -> PlainWord word)
    (hargs : (name :: rest).length <= maxArgs) (hlength : line.length < cbSize)
    (hentry : findCmd set.table name = some entry)
    (hmax : (name :: rest).length <= entry.maxargs) (hbootd : entry.isBootd = false) :
    (commandShell set).runCommand s line false =
      ((entry.cmd s ⟨false, false⟩ (name :: rest)).output,
        (entry.cmd s ⟨false, false⟩ (name :: rest)).state,
        lineCode entry (entry.cmd s ⟨false, false⟩ (name :: rest))) := by
  have hbytes : (bytesOf line).length = line.length := List.length_map _
  rw [hline] at hbytes
  show runCommand set s (bytesOf line) ⟨false, false⟩ = _
  rw [hline]
  exact runCommand_words set s _ hplain hargs (by rw [hbytes]; exact hlength) hentry hmax
    hbootd

end Command
end Bab750
