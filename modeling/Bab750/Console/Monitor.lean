import Bab750.Console.Serial
import Bab750.Foundation.Transducer

/-!
# The command line of U-Boot

`main_loop` and `readline` of `common/main.c` as they are configured for the board:
no line editing, no history, no completion, no boot retry.  What a command does is
left to a shell.  The board sits behind two queues: what was sent to it and is not
read yet, and what it has printed and nobody has read yet.
-/

namespace Bab750
namespace Console

open Foundation

/-!
# Reading a line
-/

def cbSize : Nat := 256

def prompt : Text := chars "=> "

/-- `puts` on the serial line: a line feed gets a carriage return in front. -/
def puts (text : Text) : Text :=
  text.flatMap (fun c => if c = '\n' then ['\r', '\n'] else [c])

def eraseSeq : Text := ['\x08', ' ', '\x08']

def tabSeq (col : Nat) : Text := List.replicate (8 - col % 8) ' '

def tabStop (col : Nat) : Nat := col + (8 - col % 8)

def retype : Text -> Nat -> Text × Nat
  | [], col => ([], col)
  | c :: rest, col =>
      if c = '\t' then (tabSeq col ++ (retype rest (tabStop col)).1,
        (retype rest (tabStop col)).2)
      else (puts [c] ++ (retype rest (col + 1)).1, (retype rest (col + 1)).2)

def eraseColumns (col : Nat) : Text :=
  (List.replicate (col - prompt.length) eraseSeq).flatten

def deleteChar (line : Text) (col : Nat) : Text × Text × Nat :=
  match line.getLast? with
  | none => ([], line, col)
  | some c =>
      if c = '\t' then
        (eraseColumns col ++ (retype line.dropLast prompt.length).1, line.dropLast,
          (retype line.dropLast prompt.length).2)
      else (eraseSeq, line.dropLast, col - 1)

def deleteWord : Nat -> Text -> Nat -> Text × Text × Nat
  | 0, line, col => ([], line, col)
  | fuel + 1, line, col =>
      let (out, shorter, left) := deleteChar line col
      if shorter.length = 0 ∨ line.getLast? = some ' ' then (out, shorter, left)
      else
        let (more, rest, column) := deleteWord fuel shorter left
        (out ++ more, rest, column)

inductive LineEvent where
  | typing (line : Text) (col : Nat)
  | entered
  | interrupted
deriving DecidableEq

/-- One pass of the loop of `readline_into_buffer`. -/
def readlineChar (line : Text) (col : Nat) (c : Char) : Text × LineEvent :=
  if c = '\r' ∨ c = '\n' then (puts ['\r', '\n'], .entered)
  else if c = '\x00' then ([], .typing line col)
  else if c = '\x03' then ([], .interrupted)
  else if c = '\x15' then (eraseColumns col, .typing [] (min col prompt.length))
  else if c = '\x17' then
    let (out, shorter, left) := deleteWord (line.length + 1) line col
    (out, .typing shorter left)
  else if c = '\x08' ∨ c = '\x7f' then
    let (out, shorter, left) := deleteChar line col
    (out, .typing shorter left)
  else if line.length < cbSize - 2 then
    if c = '\t' then (tabSeq col, .typing (line ++ [c]) (tabStop col))
    else (puts [c], .typing (line ++ [c]) (col + 1))
  else (['\x07'], .typing line col)

/-!
# The main loop
-/

/-- `run_command` for a line and `CMD_FLAG_REPEAT`: output, state, and return code. -/
structure Shell (S : Type) where
  runCommand : S -> Text -> Bool -> Text × S × Int

/-- The state of `main_loop` and `readline` between two characters. -/
structure Monitor (S : Type) where
  line : Text
  col : Nat
  lastcommand : Text
  rc : Int
  shell : S
  /-- The lines that `run_command` was called with. -/
  ran : List Text

variable {S : Type}

/-- `rc <= 0`: invalid command or not repeatable, forget it. -/
def keepCommand (rc : Int) (lastcommand : Text) : Text :=
  if rc <= 0 then [] else lastcommand

def mainLoopChar (shell : Shell S) (m : Monitor S) (c : Char) : Text × Monitor S :=
  match readlineChar m.line m.col c with
  | (out, .typing line col) => (out, { m with line := line, col := col })
  | (out, .interrupted) =>
      (out ++ puts (chars "<INTERRUPT>\n") ++ puts prompt,
        { m with
          line := []
          col := prompt.length
          lastcommand := keepCommand m.rc m.lastcommand })
  | (out, .entered) =>
      let lastcommand := if m.line.length = 0 then m.lastcommand else m.line
      let result := shell.runCommand m.shell lastcommand (m.line.length == 0)
      (out ++ puts result.1 ++ puts prompt,
        { line := []
          col := prompt.length
          lastcommand := keepCommand result.2.2 lastcommand
          rc := result.2.2
          shell := result.2.1
          ran := m.ran ++ [lastcommand] })

def mainLoop (shell : Shell S) (m : Monitor S) (input : Text) : Text × Monitor S :=
  feed (mainLoopChar shell) m input

/-!
# The board behind its line
-/

/-- The board up to the prompt of `main_loop`, and at it. -/
inductive Board (S : Type) where
  /-- Boot ROM, initialisation, and autoboot: they print, and they take keys away. -/
  | starting
  | monitor (m : Monitor S)

/-- The board with the text on its way to it, and the text on its way to the script. -/
structure Link (S : Type) where
  board : Board S
  incoming : Text
  outgoing : Text

/-- The state of `main_loop` at its first prompt. -/
def firstMonitor (s : S) : Monitor S where
  line := []
  col := prompt.length
  lastcommand := []
  rc := 1
  shell := s
  ran := []

inductive BoardStep (shell : Shell S) : Link S -> Link S -> Prop where
  | print (text incoming outgoing : Text) :
      BoardStep shell ⟨.starting, incoming, outgoing⟩
        ⟨.starting, incoming, outgoing ++ text⟩
  | takeKey (c : Char) (incoming outgoing : Text) :
      BoardStep shell ⟨.starting, c :: incoming, outgoing⟩ ⟨.starting, incoming, outgoing⟩
  | enter (s : S) (incoming outgoing : Text) :
      BoardStep shell ⟨.starting, incoming, outgoing⟩
        ⟨.monitor (firstMonitor s), incoming, outgoing ++ puts prompt⟩
  | read (m : Monitor S) (c : Char) (incoming outgoing : Text) :
      BoardStep shell ⟨.monitor m, c :: incoming, outgoing⟩
        ⟨.monitor (mainLoopChar shell m c).2, incoming,
          outgoing ++ (mainLoopChar shell m c).1⟩

/-- The events of a trace against the board, with any steps of the board in between. -/
inductive Served (shell : Shell S) (start : Link S) : List Event -> Link S -> Prop where
  | nil : Served shell start [] start
  | board {events : List Event} {link next : Link S}
      (before : Served shell start events link) (step : BoardStep shell link next) :
      Served shell start events next
  | sent {events : List Event} {link : Link S} (data : Text)
      (before : Served shell start events link) :
      Served shell start (events ++ [Event.sent data])
        { link with incoming := link.incoming ++ data }
  | received {events : List Event} {board : Board S} {incoming outgoing : Text}
      (chunk : Text)
      (before : Served shell start events ⟨board, incoming, chunk ++ outgoing⟩) :
      Served shell start (events ++ [Event.received chunk]) ⟨board, incoming, outgoing⟩
  | other {events : List Event} {link : Link S} (event : Event)
      (notSent : forall data, event ≠ .sent data)
      (notReceived : forall chunk, event ≠ .received chunk)
      (before : Served shell start events link) :
      Served shell start (events ++ [event]) link

end Console
end Bab750
