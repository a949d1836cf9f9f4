import Bab750.Console.FlashScript
import Bab750.Console.LinuxMarkers

/-!
# The Linux boot script

`bab750_boot_legacy_linux.py` from the opened console on: it stops the autoboot of a
flashed U-Boot, sends the commands of a file, and watches Linux start.  With `--attach`
it then passes keys through to the board; the run is looked at up to there.
-/

namespace Bab750
namespace Console
namespace Linux

open Foundation

inductive ModemLine where
  | rts
  | dtr
deriving DecidableEq

def ModemLine.name : ModemLine -> Text
  | .rts => chars "rts"
  | .dtr => chars "dtr"

def ModemLine.upper : ModemLine -> Text
  | .rts => chars "RTS"
  | .dtr => chars "DTR"

/-- The arguments of the command line that the run uses, and facts of the host. -/
structure Args where
  autoReset : Bool
  resetLine : Option ModemLine
  resetActiveState : Bool
  displayName : Text
  ubootEnterAttempts : Nat
  ubootCtrlCAttempts : Nat
  /-- The file of commands: its name, and its content if it exists. -/
  commandsFile : Text
  commandsText : Option Text
  /-- The texts that name the serial port, the reset pulse, and a time-out. -/
  portText : Text
  pulseText : Text
  hangText : Text
  /-- The letters and numbers beyond ASCII. -/
  letter : Char -> Bool

/-!
# Errors on the console
-/

/-- The loop of `report_serial_errors` over the lines that were found. -/
def reportLines : List Text -> List Text -> Serial (List Text)
  | [], emitted => pure emitted
  | group :: rest, emitted =>
      let line := strip group
      if line.isEmpty || emitted.contains line then reportLines rest emitted
      else if envOverflowRe.found line then reportLines rest emitted
      else do
        error line
        reportLines rest (emitted ++ [line])

def reportSerialErrors (haystack : Text) (emitted : List Text) : Serial (List Text) :=
  reportLines (serialErrorLines haystack) emitted

/-!
# The prompt of U-Boot
-/

/-- The inner loop of `wait_for_prompt_with_spam`: a verdict, or the next attempt. -/
def spamWait (start : Nat) (tftpEscape : Bool) (resetWatchStart : Option Nat) :
    Serial (Option Bool) :=
  forever (fun (_ : Unit) => do
    raiseIfReset resetWatchStart
    let haystack ← bufferSince start
    if promptRe.found haystack then pure (.done (some true))
    else if tftpEscape && ubootTftpAutorunRe.found haystack then pure (.done (some false))
    else do
      let expired ← late
      if expired then pure (.done none)
      else do
        let _ ← readOnce
        pure (.again ())) ()

/-- The attempts of `wait_for_prompt_with_spam` from a number on. -/
def spamAttempts (sendFn : Bool -> Serial Unit) (start : Nat) (tftpEscape : Bool)
    (resetWatchStart : Option Nat) : Nat -> Nat -> Serial Bool
  | 0, _ => do
      let haystack ← bufferSince start
      pure (promptRe.found haystack)
  | attempts + 1, attempt => do
      sendFn (attempt == 0)
      let verdict ← spamWait start tftpEscape resetWatchStart
      match verdict with
      | some result => pure result
      | none =>
          spamAttempts sendFn start tftpEscape resetWatchStart attempts (attempt + 1)

def waitForPromptWithSpam (start attempts : Nat) (sendFn : Bool -> Serial Unit)
    (tftpEscape : Bool) (resetWatchStart : Option Nat) : Serial Bool :=
  spamAttempts sendFn start tftpEscape resetWatchStart attempts 0

def stopUbootAutoboot (args : Args) (start : Nat) : Serial Bool := do
  log (chars "U-Boot autoboot window detected, sending <Enter>")
  let resetWatchStart ← mark
  let first ← waitForPromptWithSpam start 1 sendEnter true (some resetWatchStart)
  if first then pure true
  else do
    log (chars "U-Boot prompt not received yet, continuing <Enter> spam")
    waitForPromptWithSpam start args.ubootEnterAttempts sendEnter true
      (some resetWatchStart)

def interruptUbootTftpBoot (args : Args) (start : Nat) : Serial Bool := do
  warn (chars "Failed to stop the U-Boot autoboot process!")
  warn (chars "Trying to interrupt the tftp boot process...")
  let resetWatchStart ← mark
  waitForPromptWithSpam start args.ubootCtrlCAttempts sendCtrlC false
    (some resetWatchStart)

/-- The variables of `wait_for_u_boot_prompt`. -/
structure PromptState where
  start : Nat
  bannerLogged : Bool
  autobootAttempted : Bool
  nvramInvalidSeen : Bool
  nvramHandled : Bool
  ignoreNextPrompt : Bool
  emittedErrors : List Text

def interruptOrGiveUp {σ : Type} (args : Args) (start : Nat) : Serial (Pass σ Unit) := do
  let stopped ← interruptUbootTftpBoot args start
  if stopped then pure (.done ())
  else Script.raise (.timeoutError
    (chars "Timed out while waiting for the U-Boot prompt after interrupting autoboot"))

/-- The rest of a pass of `wait_for_u_boot_prompt`: banner, deadline, and read. -/
def promptPassEnd (args : Args) (haystack : Text) (s : PromptState) :
    Serial (Pass PromptState Unit) := do
  let banner := !s.bannerLogged && (ubootBannerRe args.letter).found haystack
  Script.when banner (log (chars "U-Boot banner detected"))
  let expired ← late
  if expired then
    Script.raise (.timeoutError
      (chars "Timed out while waiting for the U-Boot prompt after reset"))
  else do
    let _ ← readOnce
    pure (.again { s with bannerLogged := s.bannerLogged || banner })

/-- A pass of `wait_for_u_boot_prompt` behind the dialog: the prompt and the autoboot. -/
def promptPassPrompt (args : Args) (haystack : Text) (s : PromptState) :
    Serial (Pass PromptState Unit) :=
  if promptRe.found haystack then
    if s.ignoreNextPrompt then do
      log (chars "Ignoring temporary prompt after revision-info copy")
      let start ← mark
      pure (.again { s with
        ignoreNextPrompt := false, start := start, emittedErrors := [] })
    else pure (.done ())
  else if ubootTftpAutorunRe.found haystack then interruptOrGiveUp args s.start
  else if !s.autobootAttempted && ubootAutobootRe.found haystack then do
    let stopped ← stopUbootAutoboot args s.start
    if stopped then pure (.done ())
    else do
      let later ← bufferSince s.start
      if ubootTftpAutorunRe.found later then interruptOrGiveUp args s.start
      else promptPassEnd args haystack { s with autobootAttempted := true }
  else promptPassEnd args haystack s

/-- One pass of `wait_for_u_boot_prompt`. -/
def promptPass (args : Args) (s : PromptState) : Serial (Pass PromptState Unit) := do
  let haystack ← bufferSince s.start
  let emittedErrors ← reportSerialErrors haystack s.emittedErrors
  let s := { s with emittedErrors := emittedErrors }
  let invalid := !s.nvramInvalidSeen && nvramInvalidRe.found haystack
  Script.when invalid (warn nvramWarning)
  let s := { s with nvramInvalidSeen := s.nvramInvalidSeen || invalid }
  if s.nvramInvalidSeen && !s.nvramHandled && nvramPressKeyRe.found haystack then do
    sendLine (chars "C")
    let start ← mark
    pure (.again { s with
      nvramHandled := true, ignoreNextPrompt := true, start := start, emittedErrors := [] })
  else promptPassPrompt args haystack s

def waitForUBootPrompt (args : Args) (start : Nat) : Serial Unit := do
  log (chars "Waiting for U-Boot prompt after RESET")
  forever (promptPass args) {
    start := start
    bannerLogged := false
    autobootAttempted := false
    nvramInvalidSeen := false
    nvramHandled := false
    ignoreNextPrompt := false
    emittedErrors := [] }

/-!
# Commands
-/

/-- `command.startswith("tftpboot ")`. -/
def isTftpCommand (command : Text) : Bool := (chars "tftpboot ").isPrefixOf command

def stageDescription (command : Text) : Text :=
  if isTftpCommand command then chars "downloading the Linux image via TFTP"
  else chars "running '" ++ command ++ chars "'"

def hangDetected (args : Args) (stage : Text) : Text :=
  chars "Board hang detected while " ++ stage ++ chars ": no new serial output for " ++
    args.hangText ++ chars " seconds"

/-- The variables of `run_uboot_command`. -/
structure CommandState where
  emittedErrors : List Text
  sawTftpCompletion : Bool
  promptNudgeSent : Bool

/-- The console has been silent for the time that only `tftpboot` is given. -/
def idleFor (command chunk : Text) : Serial Bool :=
  if chunk.isEmpty && isTftpCommand command then late else pure false

def nudgeLog : Text :=
  chars ("TFTP transfer completed, but the U-Boot prompt did not appear yet. " ++
    "Sending <Enter> once.")

def acceptWarning : Text :=
  chars ("TFTP transfer finished, but the U-Boot prompt never appeared. " ++
    "Continuing with the loaded image anyway.")

/-- A silent console: one `<Enter>`, then the transfer is taken as it is. -/
def idlePass (args : Args) (command haystack : Text) (s : CommandState) :
    Serial (Pass CommandState Text) :=
  if s.sawTftpCompletion && !s.promptNudgeSent then do
    log nudgeLog
    sendEnter false
    pure (.again { s with promptNudgeSent := true })
  else if s.sawTftpCompletion then do
    warn acceptWarning
    note (.returned command haystack)
    pure (.done haystack)
  else Script.raise (.timeoutError (hangDetected args (stageDescription command)))

/-- The rest of a pass of `run_uboot_command`: the deadline and a read. -/
def commandPassRead (args : Args) (command haystack : Text) (s : CommandState) :
    Serial (Pass CommandState Text) := do
  let expired ← late
  if expired then
    Script.raise (.timeoutError (chars "Timed out while waiting for the U-Boot prompt after "
      ++ stageDescription command))
  else do
    let chunk ← readOnce
    let idle ← idleFor command chunk
    if idle then idlePass args command haystack s
    else pure (.again s)

/-- One pass of `run_uboot_command`. -/
def commandPass (args : Args) (command : Text) (start resetWatchStart : Nat)
    (s : CommandState) : Serial (Pass CommandState Text) := do
  raiseIfReset (some resetWatchStart)
  let haystack ← bufferSince start
  let emittedErrors ← reportSerialErrors haystack s.emittedErrors
  let completed := isTftpCommand command && tftpTransferredRe.found haystack
  let s := { s with
    emittedErrors := emittedErrors, sawTftpCompletion := s.sawTftpCompletion || completed }
  if promptRe.found haystack then do
    note (.returned command haystack)
    pure (.done haystack)
  else commandPassRead args command haystack s

/-- `run_uboot_command`; `idle_timeout` and the acceptance are those `main` passes. -/
def runUbootCommand (args : Args) (command : Text) : Serial Text := do
  let start ← mark
  let resetWatchStart ← mark
  sendLine command
  forever (commandPass args command start resetWatchStart) {
    emittedErrors := []
    sawTftpCompletion := false
    promptNudgeSent := false }

/-!
# Linux
-/

/-- The variables of `monitor_linux_boot`. -/
structure BootState where
  emittedErrors : List Text
  sawLinuxOutput : Bool

/-- One pass of `monitor_linux_boot`. -/
def bootPass (args : Args) (start resetWatchStart : Nat) (s : BootState) :
    Serial (Pass BootState Unit) := do
  raiseIfReset (some resetWatchStart)
  let haystack ← bufferSince start
  let emittedErrors ← reportSerialErrors haystack s.emittedErrors
  if promptRe.found haystack then
    Script.raise (.usage (chars "bootm returned to the U-Boot prompt"))
  else if kernelFailureRe.found haystack then
    Script.raise (.usage (chars "Linux reported a boot failure on the serial console"))
  else if linuxSuccessRe.found haystack then do
    log (chars "Linux reached userspace successfully")
    pure (.done ())
  else do
    let s := { s with
      emittedErrors := emittedErrors
      sawLinuxOutput := s.sawLinuxOutput || linuxBootRe.found haystack }
    let chunk ← readOnce
    let silent ← quietFor chunk
    if silent then
      Script.raise (.timeoutError (hangDetected args
        (if s.sawLinuxOutput then chars "booting Linux" else chars "starting Linux")))
    else pure (.again s)

def startingLinux (bootCommand : Text) : Text := chars "Starting Linux with: " ++ bootCommand

def monitorLinuxBoot (args : Args) (bootCommand : Text) : Serial Unit := do
  let start ← mark
  let resetWatchStart ← mark
  sendLine bootCommand
  log (startingLinux bootCommand)
  forever (bootPass args start resetWatchStart)
    { emittedErrors := [], sawLinuxOutput := false }

/-!
# The main program
-/

def promptAcquired : Text := chars "U-Boot prompt acquired, starting Linux netboot commands"

def overflowWarning : Text :=
  chars ("U-Boot could not store filesize in its tiny environment, " ++
    "but the TFTP transfer completed.")

def runCommands (args : Args) : List Text -> Serial Unit
  | [] => pure ()
  | command :: rest => do
      let output ← runUbootCommand args command
      Script.when (envOverflowRe.found output) (warn overflowWarning)
      runCommands args rest

/-- The marker that starts a cycle: a new one, or the one that cut the last cycle short. -/
def cycleStart (args : Args) (restartFrom : Option Nat) : Serial Nat :=
  match restartFrom with
  | none => do
      Script.when args.autoReset (pulseReset args.pulseText)
      waitForResetMarker
  | some position => do
      log (chars "Reset marker detected")
      pure position

def netboot (args : Args) (commands : List Text) : Serial Unit := do
  log promptAcquired
  runCommands args commands.dropLast
  monitorLinuxBoot args (commands.getLastD [])

/-- The body of the `try` statement. -/
def cycle (args : Args) (commands : List Text) (restartFrom : Option Nat) :
    Serial Unit := do
  let start ← cycleStart args restartFrom
  waitForUBootPrompt args start
  netboot args commands

def mainPass (args : Args) (commands : List Text) (restartFrom : Option Nat) :
    Serial (Pass (Option Nat) Unit) := do
  let result ← Script.attempt resetPosition (cycle args commands restartFrom)
  match result with
  | .ok () => pure (.done ())
  | .error position => do
      warn (chars ("Machine was rebooted before Linux boot finished, " ++
        "restarting from the beginning."))
      pure (.again (some position))

def resetControl (args : Args) (line : ModemLine) : Text :=
  line.upper ++ chars " reset control enabled (" ++
    (if args.resetActiveState then chars "asserted" else chars "deasserted") ++
    chars " line state asserts RESET)"

def logResetControl (args : Args) : Serial Unit :=
  match args.resetLine with
  | none => pure ()
  | some line => log (resetControl args line)

def mainWith (args : Args) (commands : List Text) : Serial Nat := do
  openPort
  log (chars "Connected to " ++ args.portText)
  log (chars "Using U-Boot command file: " ++ args.commandsFile)
  logResetControl args
  forever (mainPass args commands) none
  pure 0

def main (args : Args) : Serial Nat :=
  if args.autoReset && args.resetLine.isNone then
    Script.raise (.usage (chars "--auto-reset requires --reset-line"))
  else
    match loadCommandsFile args.commandsFile args.commandsText with
    | .error text => Script.raise (.usage text)
    | .ok commands => mainWith args commands

def startConsole (args : Args) (answers : Nat -> Answer) (limit : Nat) :
    SerialConsole where
  buffer := []
  trace := []
  answers := answers
  asked := 0
  limit := limit
  resetLine := args.resetLine.map ModemLine.name
  resetActiveState := args.resetActiveState
  displayName := args.displayName

def mainTrace (args : Args) (answers : Nat -> Answer) (limit : Nat) : List Event :=
  (main args (startConsole args answers limit)).2.trace

end Linux
end Console
end Bab750
