import Bab750.Command.Run
import Mathlib.Data.List.TakeWhile

/-!
# The arguments of the commands of a line

Which commands `run_command` calls, and with which arguments.  `parse_line` reports too many
arguments with a message only, and does not end `argv` then.
-/

namespace Bab750
namespace Command

open Foundation
open Console (cbSize)

/-!
# Words
-/

def lineWords (line : List Byte) : List (List Byte) :=
  (line.splitOnP isBlank).filter (fun word => !word.isEmpty)

theorem lineWords_append {c : Byte} (hc : isBlank c = true) (front rest : List Byte) :
    lineWords (front ++ c :: rest) = lineWords front ++ lineWords rest := by
  unfold lineWords
  rw [List.splitOnP_append_cons front rest hc, List.filter_append]

theorem lineWords_blanks {blanks : List Byte} (h : forall c, c ∈ blanks -> isBlank c = true)
    (line : List Byte) : lineWords (blanks ++ line) = lineWords line := by
  induction blanks with
  | nil =>
      rfl
  | cons c blanks ih =>
      have hrest := ih (fun d hd => h d (List.mem_cons_of_mem c hd))
      rw [List.cons_append, ← hrest]
      exact lineWords_append (h c List.mem_cons_self) [] (blanks ++ line)

theorem lineWords_word {word : List Byte} (h : BareWord word) : lineWords word = [word] := by
  unfold lineWords
  rw [List.splitOnP_eq_singleton h.chars, List.filter_cons_of_pos]
  · rfl
  · rw [List.isEmpty_eq_false_iff.mpr h.nonempty]
    rfl

/-- A line is blank, or it has a first word; the word ends the line or is followed by white
space. -/
inductive LineShape : List Byte -> Prop where
  | blank (blanks : List Byte) (hblanks : forall c, c ∈ blanks -> isBlank c = true) :
      LineShape blanks
  | last (blanks word : List Byte) (hblanks : forall c, c ∈ blanks -> isBlank c = true)
      (hword : BareWord word) : LineShape (blanks ++ word)
  | word (blanks word : List Byte) (c : Byte) (rest : List Byte)
      (hblanks : forall c, c ∈ blanks -> isBlank c = true) (hword : BareWord word)
      (hc : isBlank c = true) : LineShape (blanks ++ (word ++ c :: rest))

theorem head_dropWhile {p : Byte -> Bool} {text rest : List Byte} {c : Byte}
    (h : text.dropWhile p = c :: rest) : p c = false := by
  have hhead := List.head?_dropWhile_not p text
  rw [h] at hhead
  exact hhead

theorem lineShape (line : List Byte) : LineShape line := by
  have hline : line.takeWhile isBlank ++ line.dropWhile isBlank = line :=
    List.takeWhile_append_dropWhile
  have hblanks : forall c, c ∈ line.takeWhile isBlank -> isBlank c = true :=
    fun c hc => List.mem_takeWhile_imp hc
  have hhead := @head_dropWhile isBlank line
  generalize line.takeWhile isBlank = blanks at hline hblanks
  generalize line.dropWhile isBlank = text at hline hhead
  rw [← hline]
  cases text with
  | nil =>
      rw [List.append_nil]
      exact LineShape.blank blanks hblanks
  | cons c text =>
      have hc : isBlank c = false := hhead rfl
      have hword : BareWord ((c :: text).takeWhile (fun c => !isBlank c)) := by
        constructor
        · rw [List.takeWhile_cons_of_pos (by rw [hc]; rfl)]
          exact List.cons_ne_nil _ _
        · intro d hd
          have hin := List.mem_takeWhile_imp hd
          rw [Bool.not_eq_true'] at hin
          exact hin
      have htext : (c :: text).takeWhile (fun c => !isBlank c) ++
          (c :: text).dropWhile (fun c => !isBlank c) = c :: text :=
        List.takeWhile_append_dropWhile
      have hbehind := @head_dropWhile (fun c => !isBlank c) (c :: text)
      generalize (c :: text).takeWhile (fun c => !isBlank c) = word at hword htext
      generalize (c :: text).dropWhile (fun c => !isBlank c) = behind at htext hbehind
      rw [← htext]
      cases behind with
      | nil =>
          rw [List.append_nil]
          exact LineShape.last blanks word hblanks hword
      | cons d rest =>
          have hd := @hbehind rest d rfl
          rw [Bool.not_eq_false'] at hd
          exact LineShape.word blanks word d rest hblanks hword hd

section Shapes

variable {blanks word : List Byte} (hblanks : forall c, c ∈ blanks -> isBlank c = true)

include hblanks

theorem lineWords_of_blank : lineWords blanks = [] := by
  have hnone := lineWords_blanks hblanks []
  rw [List.append_nil] at hnone
  exact hnone

theorem lineWords_of_last (hword : BareWord word) : lineWords (blanks ++ word) = [word] := by
  rw [lineWords_blanks hblanks, lineWords_word hword]

theorem lineWords_of_word (hword : BareWord word) {c : Byte} (hc : isBlank c = true)
    (rest : List Byte) :
    lineWords (blanks ++ (word ++ c :: rest)) = word :: lineWords rest := by
  rw [lineWords_blanks hblanks, lineWords_append hc, lineWords_word hword]
  rfl

theorem parseArgs_of_blank (places : Nat) : parseArgs (places + 1) blanks = ⟨[], false⟩ := by
  have hnone : blanks.dropWhile isBlank = [] := List.dropWhile_eq_nil_iff.mpr hblanks
  unfold parseArgs
  rw [hnone]
  rfl

theorem dropWhile_blanks (hword : BareWord word) (rest : List Byte) :
    (blanks ++ (word ++ rest)).dropWhile isBlank = word ++ rest := by
  rw [List.dropWhile_append_of_pos hblanks]
  cases word with
  | nil =>
      exact absurd rfl hword.nonempty
  | cons c word =>
      rw [List.cons_append, List.dropWhile_cons_of_neg]
      rw [hword.chars c List.mem_cons_self]
      decide

theorem parseArgs_of_last (hword : BareWord word) (places : Nat) :
    parseArgs (places + 1) (blanks ++ word) = ⟨[word], false⟩ := by
  have hdrop := dropWhile_blanks hblanks hword []
  rw [List.append_nil] at hdrop
  have htake : word.takeWhile (fun c => !isBlank c) = word := by
    apply List.takeWhile_eq_self_iff.mpr
    intro c hc
    rw [hword.chars c hc]
    rfl
  unfold parseArgs
  dsimp only
  rw [hdrop, htake, List.drop_length, if_neg]
  rw [List.isEmpty_eq_false_iff.mpr hword.nonempty]
  decide

theorem parseArgs_of_word (hword : BareWord word) {c : Byte} (hc : isBlank c = true)
    (rest : List Byte) (places : Nat) :
    parseArgs (places + 1) (blanks ++ (word ++ c :: rest)) =
      ⟨word :: (parseArgs places rest).argv, (parseArgs places rest).tooMany⟩ := by
  have htake : (word ++ c :: rest).takeWhile (fun c => !isBlank c) = word := by
    rw [List.takeWhile_append_of_pos, List.takeWhile_cons_of_neg, List.append_nil]
    · rw [hc]
      decide
    · intro d hd
      rw [hword.chars d hd]
      rfl
  rw [parseArgs]
  dsimp only
  rw [dropWhile_blanks hblanks hword, htake, List.drop_left, if_neg]
  rw [List.isEmpty_eq_false_iff.mpr (List.append_ne_nil_of_right_ne_nil _
    (List.cons_ne_nil _ _))]
  decide

end Shapes

theorem parseArgs_argv (places : Nat) (line : List Byte) :
    (parseArgs places line).argv = (lineWords line).take places := by
  induction places generalizing line with
  | zero =>
      rfl
  | succ places ih =>
      cases lineShape line with
      | blank blanks hblanks =>
          rw [parseArgs_of_blank hblanks, lineWords_of_blank hblanks]
          rfl
      | last blanks word hblanks hword =>
          rw [parseArgs_of_last hblanks hword, lineWords_of_last hblanks hword,
            List.take_succ_cons, List.take_nil]
      | word blanks word c rest hblanks hword hc =>
          rw [parseArgs_of_word hblanks hword hc, lineWords_of_word hblanks hword hc,
            List.take_succ_cons, ← ih rest]

theorem parseArgs_all {places : Nat} {line : List Byte}
    (h : (parseArgs places line).tooMany = false) :
    (parseArgs places line).argv = lineWords line := by
  induction places generalizing line with
  | zero =>
      cases h
  | succ places ih =>
      cases lineShape line with
      | blank blanks hblanks =>
          rw [parseArgs_of_blank hblanks, lineWords_of_blank hblanks]
      | last blanks word hblanks hword =>
          rw [parseArgs_of_last hblanks hword, lineWords_of_last hblanks hword]
      | word blanks word c rest hblanks hword hc =>
          rw [parseArgs_of_word hblanks hword hc] at h ⊢
          rw [lineWords_of_word hblanks hword hc, ← ih h]

def WordsFollowed (n : Nat) (line : List Byte) : Prop :=
  exists front c rest, line = front ++ c :: rest ∧ isBlank c = true ∧
    (lineWords front).length = n

theorem parseArgs_followed {n : Nat} {line : List Byte}
    (h : (parseArgs (n + 1) line).tooMany = true) : WordsFollowed (n + 1) line := by
  induction n generalizing line with
  | zero =>
      cases lineShape line with
      | blank blanks hblanks =>
          rw [parseArgs_of_blank hblanks] at h
          cases h
      | last blanks word hblanks hword =>
          rw [parseArgs_of_last hblanks hword] at h
          cases h
      | word blanks word c rest hblanks hword hc =>
          refine ⟨blanks ++ word, c, rest, ?_, hc, ?_⟩
          · rw [List.append_assoc]
          · rw [lineWords_of_last hblanks hword]
            rfl
  | succ n ih =>
      cases lineShape line with
      | blank blanks hblanks =>
          rw [parseArgs_of_blank hblanks] at h
          cases h
      | last blanks word hblanks hword =>
          rw [parseArgs_of_last hblanks hword] at h
          cases h
      | word blanks word c rest hblanks hword hc =>
          rw [parseArgs_of_word hblanks hword hc] at h
          rcases ih h with ⟨front, d, behind, rfl, hd, hlength⟩
          refine ⟨blanks ++ (word ++ c :: front), d, behind, ?_, hd, ?_⟩
          · rw [List.append_assoc, List.append_assoc, List.cons_append]
          · rw [lineWords_of_word hblanks hword hc, List.length_cons, hlength]

theorem parseArgs_tooMany {n : Nat} {line : List Byte} (h : WordsFollowed n line) :
    (parseArgs n line).tooMany = true := by
  rcases h with ⟨front, c, rest, rfl, hc, hlength⟩
  induction n generalizing front with
  | zero =>
      rfl
  | succ n ih =>
      cases lineShape front with
      | blank blanks hblanks =>
          rw [lineWords_of_blank hblanks] at hlength
          cases hlength
      | last blanks word hblanks hword =>
          rw [lineWords_of_last hblanks hword] at hlength
          rw [List.append_assoc, parseArgs_of_word hblanks hword hc]
          rw [← Nat.succ.inj hlength]
          rfl
      | word blanks word d front hblanks hword hd =>
          rw [lineWords_of_word hblanks hword hd] at hlength
          rw [List.append_assoc, List.append_assoc, List.cons_append,
            parseArgs_of_word hblanks hword hd]
          exact ih front (Nat.succ.inj hlength)

theorem parseLine_tooMany_iff (line : List Byte) :
    (parseLine line).tooMany = true ↔ WordsFollowed maxArgs line :=
  ⟨parseArgs_followed, parseArgs_tooMany⟩

/-!
# The passes of `run_command`
-/

/-- The entries of `argv` behind `parse_line`; `NULL` is none, and `before` is what they held. -/
def Arguments.slots (args : Arguments) (before : Nat -> Option (List Byte)) (i : Nat) :
    Option (List Byte) :=
  if i < args.argv.length then args.argv[i]?
  else if i = args.argv.length ∧ args.tooMany = false then none
  else before i

variable {S : Type}

/-- A pass of the loop: the variables in front of it, and the command. -/
structure Pass (S : Type) where
  flags : Flags
  run : RunState S
  token : List Byte

/-- `finaltoken`. -/
def Pass.line (set : CommandSet S) (pass : Pass S) : List Byte :=
  processMacros (set.getenv pass.run.state) pass.token

def Pass.arguments (set : CommandSet S) (pass : Pass S) : Arguments :=
  parseLine (pass.line set)

def Pass.call (set : CommandSet S) (pass : Pass S) : Option (Entry S) :=
  match (pass.arguments set).argv with
  | [] => none
  | name :: rest =>
      match findCmd set.table name with
      | none => none
      | some entry =>
          if entry.maxargs < (name :: rest).length then none
          else if entry.isBootd && pass.flags.bootd then none
          else some entry

def loopPasses (set : CommandSet S) :
    Nat -> Flags -> RunState S -> Byte -> List Byte -> List (Pass S)
  | 0, _, _, _, _ => []
  | fuel + 1, flags, r, prev, str =>
      if str.isEmpty then []
      else
        let (token, more) := splitCommand false prev true str
        let (flags', r', goesOn) := runOne set flags r token
        ⟨flags, r, token⟩ ::
          if goesOn then loopPasses set fuel flags' r' 0#8 (more.getD []) else []

/-- The passes of `run_command`. -/
def runPasses (set : CommandSet S) (s : S) (cmd : List Byte) (flags : Flags) :
    List (Pass S) :=
  if cmd.isEmpty then []
  else if cbSize <= cmd.length then []
  else loopPasses set cmd.length flags ⟨[], s, 0, true⟩ set.front cmd

/-- A pass calls its command with all of `argv`, or it gives the command up. -/
theorem runOne_call (set : CommandSet S) (pass : Pass S) :
    match pass.call set with
    | some entry =>
        exists flags output, (runOne set pass.flags pass.run pass.token).2.1 =
          { output := output ++
              (entry.cmd pass.run.state flags (pass.arguments set).argv).output
            state := (entry.cmd pass.run.state flags (pass.arguments set).argv).state
            rc := if (entry.cmd pass.run.state flags (pass.arguments set).argv).rc ≠ 0 then -1
              else pass.run.rc
            repeatable := pass.run.repeatable && entry.repeatable }
    | none =>
        (runOne set pass.flags pass.run pass.token).2.1.state = pass.run.state ∧
          (runOne set pass.flags pass.run pass.token).2.1.rc = -1 := by
  unfold Pass.call runOne
  have hargs : parseLine (processMacros (set.getenv pass.run.state) pass.token) =
      pass.arguments set := rfl
  rw [hargs]
  generalize pass.arguments set = args
  dsimp only
  cases args.argv with
  | nil =>
      exact ⟨rfl, rfl⟩
  | cons name rest =>
      dsimp only
      cases findCmd set.table name with
      | none =>
          exact ⟨rfl, rfl⟩
      | some entry =>
          dsimp only
          by_cases hmax : entry.maxargs < (name :: rest).length
          · rw [if_pos hmax, if_pos hmax]
            exact ⟨rfl, rfl⟩
          · rw [if_neg hmax, if_neg hmax]
            cases hboot : entry.isBootd && pass.flags.bootd with
            | true =>
                exact ⟨rfl, rfl⟩
            | false =>
                exact ⟨_, _, rfl⟩

theorem runLoop_passes (set : CommandSet S) (fuel : Nat) (flags : Flags) (r : RunState S)
    (prev : Byte) (str : List Byte) :
    runLoop set fuel flags r prev str =
      match (loopPasses set fuel flags r prev str).getLast? with
      | none => r.finish
      | some pass =>
          let (_, r', goesOn) := runOne set pass.flags pass.run pass.token
          if goesOn then r'.finish else (r'.output, r'.state, -1) := by
  induction fuel generalizing flags r prev str with
  | zero =>
      rfl
  | succ fuel ih =>
      unfold runLoop loopPasses
      by_cases hstr : str.isEmpty = true
      · rw [if_pos hstr, if_pos hstr]
        rfl
      · rw [if_neg hstr, if_neg hstr]
        rcases splitCommand false prev true str with ⟨token, more⟩
        dsimp only
        cases hone : runOne set flags r token with
        | mk flags' next =>
            rcases next with ⟨r', goesOn⟩
            dsimp only
            cases goesOn with
            | false =>
                rw [if_neg (by decide), if_neg (by decide), List.getLast?_singleton]
                dsimp only
                rw [hone]
                rfl
            | true =>
                rw [if_pos rfl, if_pos rfl, ih]
                cases hmore : loopPasses set fuel flags' r' 0#8 (more.getD []) with
                | nil =>
                    rw [List.getLast?_singleton]
                    dsimp only
                    rw [hone]
                    rfl
                | cons pass passes =>
                    rw [List.getLast?_cons_cons,
                      List.getLast?_eq_some_getLast (List.cons_ne_nil pass passes)]

/-!
# Calls with all arguments
-/

/-- A command is called with all words of its line, and `argv` ends behind them; a line with
too many words is not run. -/
structure ExactPass (set : CommandSet S) (pass : Pass S) : Prop where
  exact : forall entry, pass.call set = some entry ->
    (pass.arguments set).argv.length = (lineWords (pass.line set)).length ∧
      forall before i, i <= (pass.arguments set).argv.length ->
        (pass.arguments set).slots before i = (lineWords (pass.line set))[i]?
  refused : maxArgs < (lineWords (pass.line set)).length -> pass.call set = none

/-- `CONFIG_SYS_MAXARGS` words with white space behind them, for a command that takes as many. -/
def Pass.Overruns (set : CommandSet S) (pass : Pass S) : Prop :=
  WordsFollowed maxArgs (pass.line set) ∧
    exists name entry, (lineWords (pass.line set)).head? = some name ∧
      findCmd set.table name = some entry ∧ maxArgs <= entry.maxargs ∧
      (entry.isBootd && pass.flags.bootd) = false

theorem WordsFollowed.length_le {n : Nat} {line : List Byte} (h : WordsFollowed n line) :
    n <= (lineWords line).length := by
  rcases h with ⟨front, c, rest, rfl, hc, hlength⟩
  rw [lineWords_append hc, List.length_append, hlength]
  exact Nat.le_add_right _ _

section Exact

variable {set : CommandSet S} {pass : Pass S}

theorem arguments_argv (set : CommandSet S) (pass : Pass S) :
    (pass.arguments set).argv = (lineWords (pass.line set)).take maxArgs :=
  parseArgs_argv maxArgs (pass.line set)

theorem call_iff {entry : Entry S} :
    pass.call set = some entry ↔
      exists name, (lineWords (pass.line set)).head? = some name ∧
        findCmd set.table name = some entry ∧
        (pass.arguments set).argv.length <= entry.maxargs ∧
        (entry.isBootd && pass.flags.bootd) = false := by
  have hargv := arguments_argv set pass
  unfold Pass.call
  cases hwords : lineWords (pass.line set) with
  | nil =>
      rw [hwords, List.take_nil] at hargv
      rw [hargv]
      simp
  | cons word words =>
      rw [hwords, show maxArgs = 15 + 1 from rfl, List.take_succ_cons] at hargv
      rw [hargv]
      dsimp only
      cases hfind : findCmd set.table word with
      | none =>
          simp [hfind]
      | some found =>
          dsimp only
          constructor
          · intro h
            split at h
            case isTrue hmax =>
                cases h
            case isFalse hmax =>
                split at h
                case isTrue hboot =>
                    cases h
                case isFalse hboot =>
                    cases h
                    exact ⟨word, rfl, hfind, Nat.le_of_not_lt hmax, Bool.not_eq_true _ ▸ hboot⟩
          · rintro ⟨name, hname, hentry, hmax, hboot⟩
            cases hname
            rw [hfind] at hentry
            cases hentry
            rw [if_neg (Nat.not_lt.mpr hmax), hboot]
            rfl

theorem overruns_iff :
    pass.Overruns set ↔
      (pass.arguments set).tooMany = true ∧ exists entry, pass.call set = some entry := by
  have hmany := parseLine_tooMany_iff (pass.line set)
  have hlength : WordsFollowed maxArgs (pass.line set) ->
      (pass.arguments set).argv.length = maxArgs := by
    intro h
    rw [arguments_argv, List.length_take]
    exact Nat.min_eq_left h.length_le
  constructor
  · rintro ⟨hfollowed, name, entry, hname, hentry, hmax, hboot⟩
    refine ⟨hmany.mpr hfollowed, entry, call_iff.mpr ⟨name, hname, hentry, ?_, hboot⟩⟩
    rw [hlength hfollowed]
    exact hmax
  · rintro ⟨htoo, entry, hcall⟩
    have hfollowed := hmany.mp htoo
    rcases call_iff.mp hcall with ⟨name, hname, hentry, hmax, hboot⟩
    rw [hlength hfollowed] at hmax
    exact ⟨hfollowed, name, entry, hname, hentry, hmax, hboot⟩

theorem exactPass_iff : ExactPass set pass ↔ ¬ pass.Overruns set := by
  rw [overruns_iff]
  constructor
  · rintro h ⟨htoo, entry, hcall⟩
    -- what `argv` held behind the last place is still there
    have hkept : forall before : Nat -> Option (List Byte),
        (pass.arguments set).slots before (pass.arguments set).argv.length =
          before (pass.arguments set).argv.length := by
      intro before
      unfold Arguments.slots
      rw [if_neg (Nat.lt_irrefl _), if_neg]
      rw [htoo]
      exact fun hend => Bool.noConfusion hend.right
    have hnone := (h.exact entry hcall).right (fun _ => none) _ (Nat.le_refl _)
    have hsome := (h.exact entry hcall).right (fun _ => some []) _ (Nat.le_refl _)
    rw [hkept] at hnone hsome
    rw [← hnone] at hsome
    cases hsome
  · intro hnot
    have hends : forall entry, pass.call set = some entry ->
        (pass.arguments set).tooMany = false := by
      intro entry hcall
      rw [← Bool.not_eq_true]
      exact fun htoo => hnot ⟨htoo, entry, hcall⟩
    constructor
    · intro entry hcall
      have hall : (pass.arguments set).argv = lineWords (pass.line set) :=
        parseArgs_all (hends entry hcall)
      refine ⟨congrArg List.length hall, ?_⟩
      intro before i hi
      unfold Arguments.slots
      cases Nat.lt_or_eq_of_le hi with
      | inl hlt =>
          rw [if_pos hlt, hall]
      | inr heq =>
          rw [if_neg (by omega), if_pos ⟨heq, hends entry hcall⟩, heq, ← hall]
          exact (List.getElem?_length _).symm
    · intro hmore
      cases hcall : pass.call set with
      | none =>
          rfl
      | some entry =>
          have hall := congrArg List.length (parseArgs_all (hends entry hcall))
          rw [parseArgs_argv, List.length_take] at hall
          change min maxArgs (lineWords (pass.line set)).length =
            (lineWords (pass.line set)).length at hall
          omega

end Exact

/-!
# Whole lines
-/

theorem runOne_failed (set : CommandSet S) (pass : Pass S)
    (h : pass.call set = none ∨ pass.run.rc = -1) :
    (runOne set pass.flags pass.run pass.token).2.1.rc = -1 := by
  have hone := runOne_call set pass
  cases hcall : pass.call set with
  | none =>
      rw [hcall] at hone
      exact hone.right
  | some entry =>
      rw [hcall] at hone
      rcases hone with ⟨flags, output, hrun⟩
      have hrc : pass.run.rc = -1 := h.resolve_left (by rw [hcall]; exact Option.some_ne_none _)
      rw [hrun]
      dsimp only
      split
      · rfl
      · exact hrc

theorem runLoop_failed (set : CommandSet S) (fuel : Nat) (flags : Flags) (r : RunState S)
    (prev : Byte) (str : List Byte)
    (h : r.rc = -1 ∨ exists pass, pass ∈ loopPasses set fuel flags r prev str ∧
      pass.call set = none) :
    (runLoop set fuel flags r prev str).2.2 = -1 := by
  induction fuel generalizing flags r prev str with
  | zero =>
      rcases h with h | ⟨pass, hpass, _⟩
      · unfold runLoop RunState.finish
        rw [h]
        rfl
      · exact absurd hpass List.not_mem_nil
  | succ fuel ih =>
      unfold runLoop
      unfold loopPasses at h
      by_cases hstr : str.isEmpty = true
      · rw [if_pos hstr] at h ⊢
        rcases h with h | ⟨pass, hpass, _⟩
        · unfold RunState.finish
          rw [h]
          rfl
        · exact absurd hpass List.not_mem_nil
      · rw [if_neg hstr] at h ⊢
        generalize splitCommand false prev true str = split at h ⊢
        rcases split with ⟨token, more⟩
        dsimp only at h ⊢
        have hfail := runOne_failed set ⟨flags, r, token⟩
        dsimp only at hfail
        generalize runOne set flags r token = next at h hfail ⊢
        rcases next with ⟨flags', r', goesOn⟩
        dsimp only at h hfail ⊢
        cases goesOn with
        | false =>
            rfl
        | true =>
            rw [if_pos rfl] at h ⊢
            apply ih
            rcases h with h | ⟨pass, hpass, hcall⟩
            · exact Or.inl (hfail (Or.inr h))
            · rcases List.mem_cons.mp hpass with rfl | hpass
              · exact Or.inl (hfail (Or.inl hcall))
              · exact Or.inr ⟨pass, hpass, hcall⟩

theorem runCommand_failed (set : CommandSet S) (s : S) (cmd : List Byte) (flags : Flags)
    {pass : Pass S} (hpass : pass ∈ runPasses set s cmd flags)
    (hcall : pass.call set = none) : (runCommand set s cmd flags).2.2 = -1 := by
  unfold runPasses at hpass
  unfold runCommand
  split
  · rfl
  · split
    · rfl
    · rename_i hsome hshort
      rw [if_neg hsome, if_neg hshort] at hpass
      exact runLoop_failed set _ _ _ _ _ (Or.inr ⟨pass, hpass, hcall⟩)

/-- Commands run with all their arguments, as long as none that takes as many as there are
places is given these and white space behind them. -/
theorem arguments_exact_iff (set : CommandSet S) (s : S) (cmd : List Byte) (flags : Flags) :
    (forall pass, pass ∈ runPasses set s cmd flags -> ExactPass set pass ∧
        (maxArgs < (lineWords (pass.line set)).length ->
          (runCommand set s cmd flags).2.2 = -1)) ↔
      forall pass, pass ∈ runPasses set s cmd flags -> ¬ pass.Overruns set := by
  constructor
  · intro h pass hpass
    exact exactPass_iff.mp (h pass hpass).left
  · intro h pass hpass
    have hexact := exactPass_iff.mpr (h pass hpass)
    refine ⟨hexact, ?_⟩
    intro hmore
    exact runCommand_failed set s cmd flags hpass (hexact.refused hmore)

/-- A table with `setenv`, which keeps the arguments it is called with. -/
def setenvSet : CommandSet (List (List Byte)) where
  table := [{
    name := ascii "setenv"
    usage := []
    help := []
    maxargs := maxArgs
    repeatable := false
    isBootd := false
    cmd := fun _ _ argv => ⟨[], argv, 0, false⟩ }]
  getenv := fun _ _ => none
  front := 0#8

def longLine : List Byte := ascii "setenv b a c d e f g h i j k l m n o p q"

theorem longLine_run :
    runCommand setenvSet [] longLine ⟨false, false⟩ =
      (tooManyArgs, (lineWords longLine).take 16, 0) := by
  decide +kernel

/-- `setenv` runs with the first 16 words of the line, and the line does not fail. -/
theorem setenv_truncated :
    (runCommand setenvSet [] longLine ⟨false, false⟩).2 = ((lineWords longLine).take 16, 0) ∧
      (lineWords longLine).length = 18 ∧
      ¬ forall pass, pass ∈ runPasses setenvSet [] longLine ⟨false, false⟩ ->
        ExactPass setenvSet pass ∧
          (maxArgs < (lineWords (pass.line setenvSet)).length ->
            (runCommand setenvSet [] longLine ⟨false, false⟩).2.2 = -1) := by
  refine ⟨by rw [longLine_run], by decide, ?_⟩
  intro h
  have hmem : (⟨⟨false, false⟩, ⟨[], [], 0, true⟩, longLine⟩ : Pass (List (List Byte))) ∈
      runPasses setenvSet [] longLine ⟨false, false⟩ := List.mem_cons_self
  have hfailed := (h _ hmem).right (by decide +kernel)
  rw [longLine_run] at hfailed
  exact absurd hfailed (by decide)

end Command
end Bab750
