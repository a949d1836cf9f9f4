import Bab750.Foundation.Pattern
import Bab750.Foundation.Script

/-!
# The serial console of the scripts

What `bab750_flash_u_boot.py` and `bab750_boot_legacy_linux.py` have in common of
`SerialConsole`.  What a read returns and whether a deadline has passed is given from
outside, one answer after the other.  Chunks are the decoded text of a read.
-/

namespace Bab750
namespace Console

open Foundation

/-!
# Events and state
-/

inductive Level where
  | log
  | warn
  | error
  | message
deriving DecidableEq, Repr

inductive Event where
  | sent (data : Text)
  | received (chunk : Text)
  | message (level : Level) (text : Text)
  | resetLine (active : Bool)
  | reopened
  /-- `run_uboot_command` has returned the output of a command. -/
  | returned (command output : Text)
deriving DecidableEq, Repr

/-- The answer to a read, or to a look at the clock. -/
structure Answer where
  /-- What the read returns; no text when nothing came in time. -/
  chunk : Text
  /-- The deadline has passed. -/
  late : Bool

/-- The console and the part of the run that is looked at. -/
structure SerialConsole where
  buffer : Text
  trace : List Event
  answers : Nat -> Answer
  asked : Nat
  /-- No loop makes more passes. -/
  limit : Nat
  resetLine : Option Text
  resetActiveState : Bool
  displayName : Text

inductive Failure where
  | resetDetected (position : Nat)
  | timeoutError (text : Text)
  | systemExit (code : Nat)
  | usage (text : Text)
  | unicodeEncodeError
deriving DecidableEq, Repr

abbrev Serial (α : Type) : Type := Script SerialConsole Failure α

/-!
# Primitives
-/

def note (event : Event) : Serial Unit :=
  Script.change (fun w => { w with trace := w.trace ++ [event] })

def log (text : Text) : Serial Unit := note (.message .log text)

def warn (text : Text) : Serial Unit := note (.message .warn text)

def error (text : Text) : Serial Unit := note (.message .error text)

def emitScriptMessage (text : Text) : Serial Unit := note (.message .message text)

def ask : Serial Answer :=
  fun w => (.ok (w.answers w.asked), { w with asked := w.asked + 1 })

/-- `time.monotonic() >= deadline`. -/
def late : Serial Bool := do
  let answer ← ask
  pure answer.late

def mark : Serial Nat := Script.look (fun w => w.buffer.length)

def bufferSince (start : Nat) : Serial Text :=
  Script.look (fun w => w.buffer.drop start)

/-- The characters that `_append` keeps. -/
def bufferLimit : Nat := 131072

def appendBuffer (buffer chunk : Text) : Text :=
  let longer := buffer ++ chunk
  if bufferLimit < longer.length then longer.drop (longer.length - bufferLimit)
  else longer

def append (chunk : Text) : Serial Unit :=
  Script.change (fun w =>
    { w with
      buffer := appendBuffer w.buffer chunk
      trace := w.trace ++ [Event.received chunk] })

def readOnce : Serial Text := do
  let answer ← ask
  if answer.chunk.isEmpty then pure []
  else do
    append answer.chunk
    pure answer.chunk

def sendRaw (data description : Text) (logSend : Bool) : Serial Unit := do
  Script.when logSend (log (chars "Serial send: " ++ description))
  note (.sent data)

def sendEnter (logSend : Bool) : Serial Unit :=
  sendRaw ['\r'] (chars "<Enter>") logSend

def sendCtrlC (logSend : Bool) : Serial Unit :=
  sendRaw ['\x03'] (chars "Ctrl+C") logSend

/-- `line.encode("ascii")` succeeds. -/
def isAscii (line : Text) : Bool := line.all (fun c => c.toNat < 128)

def sendLine (line : Text) : Serial Unit :=
  if isAscii line then sendRaw (line ++ ['\r']) line true
  else Script.raise .unicodeEncodeError

/-- A `while True` loop. -/
def forever {σ α : Type} (body : σ -> Serial (Pass σ α)) (state : σ) : Serial α :=
  Script.loop (fun w => w.limit) body state

def setResetAsserted (asserted : Bool) : Serial Unit := do
  let line ← Script.look (fun w => w.resetLine)
  match line with
  | none => pure ()
  | some _ => do
      let active ← Script.look (fun w => w.resetActiveState)
      note (.resetLine (if asserted then active else !active))

def openPort : Serial Unit := do
  setResetAsserted false
  note .reopened
  setResetAsserted false

def reconnect : Serial Unit := do
  setResetAsserted false
  openPort

/-- `pulse_reset`; `description` names line, duration, and active state. -/
def pulseReset (description : Text) : Serial Unit := do
  let line ← Script.look (fun w => w.resetLine)
  match line with
  | none => pure ()
  | some _ => do
      log (chars "Pulsing reset via " ++ description)
      setResetAsserted true
      setResetAsserted false

end Console
end Bab750
