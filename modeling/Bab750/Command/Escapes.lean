import Bab750.Command.MacroBuffer

/-!
# One level of escapes

Outside of quotes, `process_macros` takes every character that directly follows a backslash
for protected, also when this backslash was protected itself.  Where each escape protects one
character, the two readings part at a protected backslash.
-/

namespace Bab750
namespace Command

open Foundation
open Console (cbSize)

/-!
# Reading a command character by character
-/

inductive Reading where
  | plain
  | escape
  /-- Directly behind a backslash that was protected. -/
  | kept
  | dollar
  | dollarEscape
  | name (front : List Byte)
  | quote (behind : Bool)
deriving DecidableEq

def afterPlain (c : Byte) : Reading :=
  if c = backslash then .escape
  else if c = singleQuote then .quote false
  else if c = dollarSign then .dollar
  else .plain

def afterProtected (c : Byte) : Reading := if c = backslash then .kept else .plain

def Reading.next : Reading -> Byte -> Reading
  | .plain, c | .kept, c => afterPlain c
  | .escape, c => afterProtected c
  | .dollar, c =>
      if c = backslash then .dollarEscape else if isOpening c then .name [] else .plain
  | .dollarEscape, c => if isOpening c then .name [] else afterProtected c
  | .name front, c => if isClosing c then .plain else .name (front ++ [c])
  | .quote behind, c =>
      if c = singleQuote ∧ behind = false then .plain else .quote (c == backslash)

section Readings

variable (rule : EscapeRule) (getenv : List Byte -> Option (List Byte))

end Readings

def Reading.pending : Reading -> Nat
  | .dollar | .dollarEscape => 1
  | _ => 0

end Command
end Bab750
