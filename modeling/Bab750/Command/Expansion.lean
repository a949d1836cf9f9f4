import Bab750.Command.Line

/-!
# What a command expands to

The expansion of a command as a function of its text, without a limit: quotes and escapes are
taken away, and variables are replaced.  `process_macros` computes the front of it.
-/

namespace Bab750
namespace Command

open Foundation
open Console (cbSize)

/-!
# The expansion
-/

/-- What an escape protects: the character it is removed for, or every character that directly
follows a backslash. -/
inductive EscapeRule where
  | pairs
  | previous
deriving DecidableEq

def EscapeRule.protects (rule : EscapeRule) (c : Byte) : Bool :=
  rule == .previous && c == backslash

def isOpening (c : Byte) : Bool := c == 0x28#8 || c == 0x7b#8

def isClosing (c : Byte) : Bool := c == 0x29#8 || c == 0x7d#8

/-- The next character with one escape removed, and what is behind it. -/
def unescape : List Byte -> Option (Byte × List Byte)
  | [] => none
  | c :: text =>
      if c = backslash then
        match text with
        | [] => none
        | d :: text => some (d, text)
      else some (c, text)

theorem unescape_length {text rest : List Byte} {c : Byte}
    (h : unescape text = some (c, rest)) : rest.length < text.length := by
  unfold unescape at h
  split at h
  · cases h
  · split at h
    · split at h
      · cases h
      · cases h
        simp only [List.length_cons]
        omega
    · cases h
      exact Nat.lt_succ_self _

theorem dropWhile_length {p : Byte -> Bool} {text rest : List Byte} {c : Byte}
    (h : text.dropWhile p = c :: rest) : rest.length < text.length := by
  have hle := (List.dropWhile_sublist (l := text) p).length_le
  rw [h, List.length_cons] at hle
  exact hle

mutual

/-- The expansion of a text inside or outside of quotes, with a first character that is
protected or not. -/
def expand (rule : EscapeRule) (getenv : List Byte -> Option (List Byte)) :
    Bool -> Bool -> List Byte -> List Byte
  | _, _, [] => []
  | true, behind, c :: text =>
      if c = singleQuote ∧ behind = false then expand rule getenv false false text
      else c :: expand rule getenv true (c == backslash) text
  | false, true, c :: text => c :: expand rule getenv false (rule.protects c) text
  | false, false, c :: text =>
      if c = backslash then expand rule getenv false true text
      else if c = singleQuote then expand rule getenv true false text
      else if c = dollarSign then expandVariable rule getenv text
      else c :: expand rule getenv false false text
termination_by _ _ text => text.length

def expandVariable (rule : EscapeRule) (getenv : List Byte -> Option (List Byte))
    (text : List Byte) : List Byte :=
  match h : unescape text with
  | none => []
  | some (c, rest) =>
      have := unescape_length h
      if isOpening c then expandName rule getenv [] rest
      else dollarSign :: c :: expand rule getenv false (rule.protects c) rest
termination_by text.length

/-- The expansion of a variable whose name has begun; a variable without an end is nothing. -/
def expandName (rule : EscapeRule) (getenv : List Byte -> Option (List Byte))
    (name text : List Byte) : List Byte :=
  match h : text.dropWhile (fun c => !isClosing c) with
  | [] => []
  | _ :: rest =>
      have := dropWhile_length h
      (getenv (name ++ text.takeWhile (fun c => !isClosing c))).getD [] ++
        expand rule getenv false false rest
termination_by text.length

end

section Equations

variable (rule : EscapeRule) (getenv : List Byte -> Option (List Byte))

end Equations

/-!
# The characters of an expansion
-/

section Characters

variable (rule : EscapeRule) (getenv : List Byte -> Option (List Byte))

/-- The character comes from the text, or from the value of a variable. -/
def ComesFrom (text : List Byte) (c : Byte) : Prop :=
  c ∈ text ∨ c = dollarSign ∨ exists name value, getenv name = some value ∧ c ∈ value

variable {getenv}

theorem ComesFrom.mono {text more : List Byte} (hsub : forall c, c ∈ text -> c ∈ more)
    {c : Byte} (h : ComesFrom getenv text c) : ComesFrom getenv more c :=
  h.imp_left (hsub c)

end Characters

/-!
# The loop of `process_macros`
-/

section Loop

variable (getenv : List Byte -> Option (List Byte))

/-- What the body of the loop adds, without a limit. -/
def emitted (m : MacroLoop) (raw : List Byte) (c : Byte) : List Byte :=
  match m.state with
  | .dollar =>
      if c == singleQuote && m.prev != backslash then []
      else if c == dollarSign && m.prev != backslash then []
      else [c]
  | .opening => if isOpening c then [] else [dollarSign, c]
  | .closing name => if isClosing c then (getenv (name ++ raw).dropLast).getD [] else []
  | .quote => if c == singleQuote && m.prev != backslash then [] else [c]

def Follows (m : MacroLoop) : Prop := m.state = .opening -> m.prev = dollarSign

end Loop

end Command
end Bab750
