import Bab750.Console.Monitor
import Bab750.Foundation.Bytes

/-!
# Command lines

`parse_line`, `process_macros`, and the search for separators of `common/main.c`.
A line is a C string without its terminator.
-/

namespace Bab750
namespace Command

open Foundation
open Console (cbSize)

/-!
# Characters
-/

def backslash : Byte := 0x5c#8
def singleQuote : Byte := 0x27#8
def semicolon : Byte := 0x3b#8
def dollarSign : Byte := 0x24#8

def isBlank (c : Byte) : Bool := c == 0x20#8 || c == 0x09#8

/-!
# Arguments
-/

def maxArgs : Nat := 16

/-- What `parse_line` finds; with too many arguments, `argv` has no end. -/
structure Arguments where
  argv : List (List Byte)
  tooMany : Bool
deriving DecidableEq

/-- The loop of `parse_line` with some places left. -/
def parseArgs : Nat -> List Byte -> Arguments
  | 0, _ => ⟨[], true⟩
  | places + 1, line =>
      let text := line.dropWhile isBlank
      if text.isEmpty then ⟨[], false⟩
      else
        let word := text.takeWhile (fun c => !isBlank c)
        match text.drop word.length with
        | [] => ⟨[word], false⟩
        | _ :: rest =>
            let more := parseArgs places rest
            ⟨word :: more.argv, more.tooMany⟩

def parseLine (line : List Byte) : Arguments := parseArgs maxArgs line

/-!
# Macros
-/

/-- What `process_macros` waits for. -/
inductive MacroState where
  | dollar
  | opening
  /-- The end of a variable, with its name since `varname_start`. -/
  | closing (name : List Byte)
  | quote
deriving DecidableEq

/-- The variables of `process_macros`; `outputcnt` is what is left of the buffer. -/
structure MacroLoop where
  state : MacroState
  prev : Byte
  out : List Byte
deriving DecidableEq

/-- The body of the loop for a character; `raw` is what was read for it. -/
def macroChar (getenv : List Byte -> Option (List Byte)) (m : MacroLoop)
    (raw : List Byte) (c : Byte) : MacroLoop :=
  match m.state with
  | .dollar =>
      if c == singleQuote && m.prev != backslash then
        { m with state := .quote, prev := c }
      else if c == dollarSign && m.prev != backslash then
        { m with state := .opening, prev := c }
      else { m with prev := c, out := m.out ++ [c] }
  | .opening =>
      if c == 0x28#8 || c == 0x7b#8 then { m with state := .closing [], prev := c }
      else
        let out := m.out ++ [dollarSign]
        { state := .dollar
          prev := c
          out := if out.length < cbSize then out ++ [c] else out }
  | .closing name =>
      if c == 0x29#8 || c == 0x7d#8 then
        let value := (getenv (name ++ raw).dropLast).getD []
        { state := .dollar
          prev := c
          out := m.out ++ value.take (cbSize - m.out.length) }
      else { m with state := .closing (name ++ raw), prev := c }
  | .quote =>
      if c == singleQuote && m.prev != backslash then
        { m with state := .dollar, prev := c }
      else { m with prev := c, out := m.out ++ [c] }

/-- The loop of `process_macros`; one level of escape characters is removed. -/
def macroLoop (getenv : List Byte -> Option (List Byte)) :
    MacroLoop -> List Byte -> MacroLoop
  | m, [] => m
  | m, [c] =>
      if m.out.length < cbSize then
        if m.state ≠ .quote ∧ c = backslash ∧ m.prev ≠ backslash then m
        else macroChar getenv m [c] c
      else m
  | m, c :: d :: input =>
      if m.out.length < cbSize then
        if m.state ≠ .quote ∧ c = backslash ∧ m.prev ≠ backslash then
          macroLoop getenv (macroChar getenv { m with prev := c } [c, d] d) input
        else macroLoop getenv (macroChar getenv m [c] c) (d :: input)
      else m

/-- `process_macros`; the last character of a full buffer gives way to the end. -/
def processMacros (getenv : List Byte -> Option (List Byte)) (input : List Byte) :
    List Byte :=
  let out := (macroLoop getenv ⟨.dollar, 0#8, []⟩ input).out
  if out.length < cbSize then out else out.dropLast

/-!
# Separators
-/

/--
The command up to the next separator, and what is behind it.  `prev` is the character
in front; a separator at the start is none.
-/
def splitCommand : Bool -> Byte -> Bool -> List Byte -> List Byte × Option (List Byte)
  | _, _, _, [] => ([], none)
  | inquotes, prev, atStart, c :: rest =>
      let quoted := if c == singleQuote && prev != backslash then !inquotes else inquotes
      if !quoted && c == semicolon && !atStart && prev != backslash then ([], some rest)
      else
        let (token, more) := splitCommand quoted c false rest
        (c :: token, more)

/-!
# Lines without special characters
-/

/-- A character that neither the macros nor the separators look at. -/
def isOrdinary (c : Byte) : Bool :=
  c != backslash && c != singleQuote && c != semicolon && c != dollarSign

structure PlainWord (word : List Byte) : Prop where
  nonempty : word ≠ []
  chars : forall c, c ∈ word -> isOrdinary c = true ∧ isBlank c = false

structure BareWord (word : List Byte) : Prop where
  nonempty : word ≠ []
  chars : forall c, c ∈ word -> isBlank c = false

theorem PlainWord.bare {word : List Byte} (h : PlainWord word) : BareWord word :=
  ⟨h.nonempty, fun c hc => (h.chars c hc).right⟩

def joinWords : List (List Byte) -> List Byte
  | [] => []
  | [word] => word
  | word :: other :: words => word ++ 0x20#8 :: joinWords (other :: words)

theorem splitCommand_ordinary (text : List Byte)
    (h : forall c, c ∈ text -> isOrdinary c = true) (prev : Byte) (atStart : Bool) :
    splitCommand false prev atStart text = (text, none) := by
  induction text generalizing prev atStart with
  | nil =>
      rfl
  | cons c text ih =>
      have hc := h c List.mem_cons_self
      unfold isOrdinary at hc
      simp only [Bool.and_eq_true, bne_iff_ne, ne_eq] at hc
      have hquote : (c == singleQuote) = false := beq_eq_false_iff_ne.mpr hc.left.left.right
      have hsep : (c == semicolon) = false := beq_eq_false_iff_ne.mpr hc.left.right
      unfold splitCommand
      simp only [hquote, hsep, Bool.false_and, Bool.and_false, Bool.false_eq_true, if_false]
      rw [ih (fun d hd => h d (List.mem_cons_of_mem c hd))]

theorem macroLoop_step (getenv : List Byte -> Option (List Byte)) (m : MacroLoop) (c : Byte)
    (input : List Byte) (hroom : m.out.length < cbSize)
    (hescape : ¬ (m.state ≠ .quote ∧ c = backslash ∧ m.prev ≠ backslash)) :
    macroLoop getenv m (c :: input) = macroLoop getenv (macroChar getenv m [c] c) input := by
  cases input with
  | nil =>
      unfold macroLoop
      rw [if_pos hroom, if_neg hescape]
  | cons d input =>
      rw [macroLoop, if_pos hroom, if_neg hescape]

theorem macroLoop_ordinary (getenv : List Byte -> Option (List Byte)) (text : List Byte)
    (h : forall c, c ∈ text -> isOrdinary c = true) (prev : Byte) (out input : List Byte)
    (hroom : out.length + text.length <= cbSize) :
    macroLoop getenv ⟨.dollar, prev, out⟩ (text ++ input) =
      macroLoop getenv ⟨.dollar, text.getLastD prev, out ++ text⟩ input := by
  induction text generalizing prev out with
  | nil =>
      rw [List.append_nil]
      rfl
  | cons c text ih =>
      have hc := h c List.mem_cons_self
      unfold isOrdinary at hc
      simp only [Bool.and_eq_true, bne_iff_ne, ne_eq] at hc
      rw [List.length_cons] at hroom
      have hchar : macroChar getenv ⟨.dollar, prev, out⟩ [c] c =
          ⟨.dollar, c, out ++ [c]⟩ := by
        have hquote : (c == singleQuote) = false :=
          beq_eq_false_iff_ne.mpr hc.left.left.right
        have hdollar : (c == dollarSign) = false := beq_eq_false_iff_ne.mpr hc.right
        unfold macroChar
        simp only [hquote, hdollar, Bool.false_and, Bool.false_eq_true, if_false]
      have hescape : ¬ (MacroState.dollar ≠ .quote ∧ c = backslash ∧ prev ≠ backslash) :=
        fun hc' => hc.left.left.left hc'.right.left
      rw [List.cons_append,
        macroLoop_step getenv _ c _ (show out.length < cbSize by omega) hescape, hchar,
        ih (fun e he => h e (List.mem_cons_of_mem c he)), List.getLastD_cons,
        List.append_assoc, List.singleton_append]
      rw [List.length_append, List.length_singleton]
      omega

theorem processMacros_ordinary (getenv : List Byte -> Option (List Byte))
    (text : List Byte) (h : forall c, c ∈ text -> isOrdinary c = true)
    (hroom : text.length < cbSize) : processMacros getenv text = text := by
  have hout := macroLoop_ordinary getenv text h 0#8 [] []
    (by rw [List.length_nil]; omega)
  rw [List.append_nil] at hout
  unfold processMacros
  simp only [hout, List.nil_append]
  exact if_pos hroom

theorem takeWhile_word {word : List Byte} (h : BareWord word) (rest : List Byte)
    (hrest : rest = [] ∨ exists more, rest = 0x20#8 :: more) :
    (word ++ rest).dropWhile isBlank = word ++ rest ∧
      (word ++ rest).takeWhile (fun c => !isBlank c) = word := by
  constructor
  · cases word with
    | nil =>
        exact absurd rfl h.nonempty
    | cons c word =>
        rw [List.cons_append, List.dropWhile_cons_of_neg]
        rw [h.chars c List.mem_cons_self]
        decide
  · rw [List.takeWhile_append_of_pos]
    · rcases hrest with rfl | ⟨more, rfl⟩
      · exact List.append_nil _
      · rw [List.takeWhile_cons_of_neg (by decide), List.append_nil]
    · intro c hc
      rw [h.chars c hc]
      rfl

theorem parseArgs_words (words : List (List Byte)) (hwords : words ≠ [])
    (hbare : forall word, word ∈ words -> BareWord word) (places : Nat)
    (hplaces : words.length <= places) :
    parseArgs places (joinWords words) = ⟨words, false⟩ := by
  induction words generalizing places with
  | nil =>
      exact absurd rfl hwords
  | cons word words ih =>
      have hword := hbare word List.mem_cons_self
      cases places with
      | zero =>
          simp at hplaces
      | succ places =>
          cases words with
          | nil =>
              rcases takeWhile_word hword [] (Or.inl rfl) with ⟨hdrop, htake⟩
              rw [List.append_nil] at hdrop htake
              have hsome : word.isEmpty = false := by
                rw [List.isEmpty_eq_false_iff]
                exact hword.nonempty
              unfold joinWords parseArgs
              simp only [hdrop, htake, hsome, List.drop_length]
              rfl
          | cons other words =>
              rcases takeWhile_word hword (0x20#8 :: joinWords (other :: words))
                (Or.inr ⟨_, rfl⟩) with ⟨hdrop, htake⟩
              have hsome : (word ++ 0x20#8 :: joinWords (other :: words)).isEmpty =
                  false := by
                rw [List.isEmpty_eq_false_iff]
                exact List.append_ne_nil_of_right_ne_nil _ (List.cons_ne_nil _ _)
              have hmore := ih (List.cons_ne_nil _ _)
                (fun w hw => hbare w (List.mem_cons_of_mem word hw)) places
                (by rw [List.length_cons] at hplaces; omega)
              unfold joinWords parseArgs
              simp only [hdrop, htake, hsome, List.drop_left, hmore]
              rfl

theorem joinWords_ordinary (words : List (List Byte))
    (hplain : forall word, word ∈ words -> PlainWord word) :
    forall c, c ∈ joinWords words -> isOrdinary c = true := by
  induction words with
  | nil =>
      intro c hc
      exact absurd hc List.not_mem_nil
  | cons word words ih =>
      have hword := hplain word List.mem_cons_self
      cases words with
      | nil =>
          intro c hc
          exact (hword.chars c hc).left
      | cons other words =>
          intro c hc
          rcases List.mem_append.mp hc with hc | hc
          · exact (hword.chars c hc).left
          · rcases List.mem_cons.mp hc with rfl | hc
            · decide
            · exact ih (fun w hw => hplain w (List.mem_cons_of_mem word hw)) c hc

example : parseLine (ascii "cp.b  400000 ff900000 ff") =
    ⟨[ascii "cp.b", ascii "400000", ascii "ff900000", ascii "ff"], false⟩ := by decide

example : processMacros (fun _ => some (ascii "x1")) (ascii "a $\x7bb\x7d '$c' \\$d") =
    ascii "a x1 $c $d" := by decide

end Command
end Bab750
