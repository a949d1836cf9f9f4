import Bab750.Console.Markers
import Bab750.Console.Serial

/-!
# The flash script

`bab750_flash_u_boot.py` from the opened console on: it waits for the boot ROM, lets
it load and start U-Boot, stops the autoboot, and sends the commands that download
and program the image.  A cycle that is cut short by a reset starts over.
-/

namespace Bab750
namespace Console

open Foundation

/-- The arguments of the command line that the run uses, and facts of the host. -/
structure Args where
  autoReset : Bool
  resetLine : Option Text
  resetActiveState : Bool
  displayName : Text
  serverip : Text
  ipaddr : Text
  loadAddress : Text
  flashStart : Text
  flashEnd : Text
  goAddress : Text
  ubootEnterAttempts : Nat
  ubootCtrlCAttempts : Nat
  /-- The texts that name the serial port, the reset pulse, and the delay. -/
  portText : Text
  resetText : Text
  pulseText : Text
  delayText : Text
  /-- `artifact.stat().st_size`. -/
  artifactSize : Nat
  /-- The letters and numbers beyond ASCII. -/
  letter : Char -> Bool

/-!
# Resets
-/

def findResetMarker (start : Nat) : Serial (Option Nat) := do
  let haystack ← bufferSince start
  pure ((resetMarkerRe.search haystack).map (fun n => start + n))

def raiseIfReset (start : Option Nat) : Serial Unit :=
  match start with
  | none => pure ()
  | some start => do
      let position ← findResetMarker start
      match position with
      | none => pure ()
      | some position => Script.raise (.resetDetected position)

theorem raiseIfReset_some (start : Nat) (w : SerialConsole) :
    raiseIfReset (some start) w =
      ((resetMarkerRe.search (w.buffer.drop start)).map (fun n => start + n)).elim
        ((.ok (), w) : Outcome Failure Unit × SerialConsole)
        (fun position => (.raised (.resetDetected position), w)) := by
  unfold raiseIfReset
  dsimp only
  rw [Script.bind_of_ok (show findResetMarker start w = (.ok _, w) from rfl)]
  cases resetMarkerRe.search (w.buffer.drop start) with
  | none =>
      rfl
  | some n =>
      rfl

/-- The console has been silent for as long as the quiet period. -/
def quietFor (chunk : Text) : Serial Bool :=
  if chunk.isEmpty then late else pure false

def waitForQuiet (description : Text) (resetWatchStart : Option Nat) : Serial Unit := do
  let here ← mark
  let start := resetWatchStart.getD here
  forever (fun (_ : Unit) => do
    raiseIfReset (some start)
    let chunk ← readOnce
    let quiet ← quietFor chunk
    if quiet then pure (.done ())
    else do
      let expired ← late
      if expired then
        Script.raise (.timeoutError (chars "Timed out while waiting for " ++ description))
      else pure (.again ())) ()

def sleepWithResetWatch : Serial Unit := do
  let resetWatchStart ← mark
  forever (fun (_ : Unit) => do
    raiseIfReset (some resetWatchStart)
    let expired ← late
    if expired then pure (.done ())
    else do
      let _ ← readOnce
      pure (.again ())) ()

def resetRequest (resetLine : Option Text) : Text :=
  match resetLine with
  | none => chars ("Press RESET on the board now.\n" ++
      "The script is waiting for reboot markers on the serial output:")
  | some _ => chars "Waiting for reboot markers on the serial output:"

def waitForResetMarker : Serial Nat := do
  let line ← Script.look (fun w => w.resetLine)
  emitScriptMessage (resetRequest line)
  let start ← mark
  forever (fun (_ : Unit) => do
    let position ← findResetMarker start
    match position with
    | some position => do
        log (chars "Reset marker detected")
        pure (.done position)
    | none => do
        let expired ← late
        if expired then
          Script.raise (.timeoutError (chars "Timed out while waiting for reset markers"))
        else do
          let _ ← readOnce
          pure (.again ())) ()

/-!
# The boot ROM
-/

/-- The variables of `wait_for_bootrom_loading`; `nextEnter` says it is not `None`. -/
structure LoadingState where
  resetWatchStart : Option Nat
  nextEnter : Bool
  memoryTestSeen : Bool
  vxworksBannerSeen : Bool
  nvramInvalidSeen : Bool
  nvramHandled : Bool
  enterSpamStarted : Bool
  loadRequested : Bool
  warnedAutostart : Bool

/-- `if reset_watch_start is None: reset_watch_start = console.mark()`. -/
def watchFromHere (s : LoadingState) : Serial LoadingState :=
  match s.resetWatchStart with
  | some _ => pure s
  | none => do
      let here ← mark
      pure { s with resetWatchStart := some here }

def nvramWarning : Text :=
  chars ("Invalid revision info is stored in NVRAM. " ++
    "Copying the current revision info to NVRAM.")

def seeMemoryTest (haystack : Text) (s : LoadingState) : Serial LoadingState :=
  if !s.memoryTestSeen && memoryTestRe.found haystack then do
    log (chars "Memory-test prompt detected")
    watchFromHere { s with memoryTestSeen := true }
  else pure s

def seeNvramInvalid (haystack : Text) (s : LoadingState) : Serial LoadingState :=
  if !s.nvramInvalidSeen && nvramInvalidRe.found haystack then do
    warn nvramWarning
    watchFromHere { s with nvramInvalidSeen := true }
  else pure s

def seePressKey (haystack : Text) (s : LoadingState) : Serial LoadingState :=
  if s.nvramInvalidSeen && !s.nvramHandled && nvramPressKeyRe.found haystack then do
    sendLine (chars "C")
    pure { s with nvramHandled := true }
  else pure s

def seeVxworksBanner (haystack : Text) (s : LoadingState) : Serial LoadingState :=
  if !s.vxworksBannerSeen && vxworksBannerRe.found haystack then do
    log (chars "VxWorks banner detected")
    watchFromHere { s with vxworksBannerSeen := true }
  else pure s

def startEnterSpam (s : LoadingState) : Serial LoadingState :=
  if !s.enterSpamStarted && s.memoryTestSeen && s.vxworksBannerSeen then do
    log (chars "Starting <Enter> spam to stop VxWorks autostart")
    pure { s with enterSpamStarted := true, nextEnter := true }
  else pure s

def requestLoad (haystack : Text) (s : LoadingState) : Serial LoadingState :=
  if !s.loadRequested && bootromVxworksPromptRe.found haystack then do
    log (chars "VxWorks boot prompt detected, sending 'l'")
    sendLine (chars "l")
    pure { s with loadRequested := true, nextEnter := false }
  else pure s

def warnAutostart (haystack : Text) (s : LoadingState) : Serial LoadingState :=
  if !s.warnedAutostart && bootromAutostartRe.found haystack then do
    warn (chars "Failed to stop the autostart process!")
    pure { s with warnedAutostart := true, nextEnter := false }
  else pure s

def spamEnter (s : LoadingState) : Serial Unit :=
  if s.nextEnter && !s.loadRequested && !s.warnedAutostart then do
    let due ← late
    Script.when due (sendEnter true)
  else pure ()

/-- A read; a console that has been silent for too long is opened again. -/
def readOrReconnect (s : LoadingState) : Serial Unit := do
  let chunk ← readOnce
  if chunk.isEmpty && s.memoryTestSeen && !s.vxworksBannerSeen && !s.loadRequested then do
    let halted ← late
    Script.when halted (do
      let name ← Script.look (fun w => w.displayName)
      error (chars "Connection halted! Attempting to reconnect to " ++ name ++
        chars "...")
      reconnect)
  else pure ()

/-- One pass of `wait_for_bootrom_loading`. -/
def bootromPass (letter : Char -> Bool) (start : Nat) (s : LoadingState) :
    Serial (Pass LoadingState (Option Nat)) := do
  raiseIfReset s.resetWatchStart
  let haystack ← bufferSince start
  if (loadingRe letter).found haystack then do
    log (chars "Loading detected")
    pure (.done s.resetWatchStart)
  else do
    let s ← seeMemoryTest haystack s
    let s ← seeNvramInvalid haystack s
    let s ← seePressKey haystack s
    let s ← seeVxworksBanner haystack s
    let s ← startEnterSpam s
    let s ← requestLoad haystack s
    let s ← warnAutostart haystack s
    spamEnter s
    let expired ← late
    if expired then
      Script.raise (.timeoutError
        (chars "Timed out while waiting for VxWorks prompt or Loading"))
    else do
      readOrReconnect s
      pure (.again s)

def waitForBootromLoading (args : Args) (start : Nat) : Serial Unit := do
  log (chars "Waiting for boot ROM output after RESET")
  let resetWatchStart ← forever (bootromPass args.letter start) {
    resetWatchStart := none
    nextEnter := false
    memoryTestSeen := false
    vxworksBannerSeen := false
    nvramInvalidSeen := false
    nvramHandled := false
    enterSpamStarted := false
    loadRequested := false
    warnedAutostart := false }
  log (chars "Waiting for Loading to finish")
  waitForQuiet (chars "Loading to go quiet") resetWatchStart

/-!
# The prompt of U-Boot
-/

/-- The inner loop of `wait_for_prompt_with_spam`: a verdict, or the next attempt. -/
def spamWait (start : Nat) (tftpEscape : Bool) (resetWatchStart : Option Nat) :
    Serial (Option Bool) :=
  forever (fun (_ : Unit) => do
    raiseIfReset resetWatchStart
    let haystack ← bufferSince start
    if promptRe.found haystack then pure (.done (some true))
    else if tftpEscape && ubootTftpAutorunRe.found haystack then pure (.done (some false))
    else do
      let expired ← late
      if expired then pure (.done none)
      else do
        let _ ← readOnce
        pure (.again ())) ()

/-- The attempts of `wait_for_prompt_with_spam` from a number on. -/
def spamAttempts (sendFn : Bool -> Serial Unit) (start : Nat) (tftpEscape : Bool)
    (resetWatchStart : Option Nat) : Nat -> Nat -> Serial Bool
  | 0, _ => do
      let haystack ← bufferSince start
      pure (promptRe.found haystack)
  | attempts + 1, attempt => do
      sendFn (attempt == 0)
      let verdict ← spamWait start tftpEscape resetWatchStart
      match verdict with
      | some result => pure result
      | none =>
          spamAttempts sendFn start tftpEscape resetWatchStart attempts (attempt + 1)

def waitForPromptWithSpam (start attempts : Nat) (sendFn : Bool -> Serial Unit)
    (tftpEscape : Bool) (resetWatchStart : Option Nat) : Serial Bool :=
  spamAttempts sendFn start tftpEscape resetWatchStart attempts 0

def stopUbootAutoboot (args : Args) (start : Nat) : Serial Bool := do
  log (chars "U-Boot autoboot window detected, sending <Enter>")
  let resetWatchStart ← mark
  let first ← waitForPromptWithSpam start 1 sendEnter true (some resetWatchStart)
  if first then pure true
  else do
    log (chars "U-Boot prompt not received yet, continuing <Enter> spam")
    waitForPromptWithSpam start args.ubootEnterAttempts sendEnter true
      (some resetWatchStart)

def interruptUbootTftpBoot (args : Args) (start : Nat) : Serial Bool := do
  warn (chars "Failed to stop the U-Boot autoboot process!")
  warn (chars "Trying to interrupt the tftp boot process...")
  let resetWatchStart ← mark
  waitForPromptWithSpam start args.ubootCtrlCAttempts sendCtrlC false
    (some resetWatchStart)

/-- The variables of `wait_for_u_boot_prompt`. -/
structure PromptState where
  start : Nat
  bannerLogged : Bool
  autobootAttempted : Bool
  nvramInvalidSeen : Bool
  nvramHandled : Bool
  ignoreNextPrompt : Bool

def interruptOrGiveUp {σ : Type} (args : Args) (start : Nat) : Serial (Pass σ Unit) := do
  let stopped ← interruptUbootTftpBoot args start
  if stopped then pure (.done ())
  else Script.raise (.timeoutError
    (chars "Timed out while waiting for U-Boot prompt after interrupting TFTP boot"))

/-- The rest of a pass of `wait_for_u_boot_prompt`: banner, deadline, and read. -/
def promptPassEnd (args : Args) (haystack : Text) (s : PromptState) :
    Serial (Pass PromptState Unit) := do
  let banner := !s.bannerLogged && (ubootBannerRe args.letter).found haystack
  Script.when banner
    (log (chars "U-Boot banner detected, waiting for initialization to finish"))
  let expired ← late
  if expired then
    Script.raise (.timeoutError (chars "Timed out while waiting for U-Boot prompt"))
  else do
    let _ ← readOnce
    pure (.again { s with bannerLogged := s.bannerLogged || banner })

/-- One pass of `wait_for_u_boot_prompt`. -/
def promptPass (args : Args) (s : PromptState) : Serial (Pass PromptState Unit) := do
  raiseIfReset none
  let haystack ← bufferSince s.start
  let invalid := !s.nvramInvalidSeen && nvramInvalidRe.found haystack
  Script.when invalid (warn nvramWarning)
  let s := { s with nvramInvalidSeen := s.nvramInvalidSeen || invalid }
  if s.nvramInvalidSeen && !s.nvramHandled && nvramPressKeyRe.found haystack then do
    sendLine (chars "C")
    let start ← mark
    pure (.again { s with nvramHandled := true, ignoreNextPrompt := true, start := start })
  else if promptRe.found haystack then
    if s.ignoreNextPrompt then do
      log (chars "Ignoring temporary prompt after revision-info copy")
      let start ← mark
      pure (.again { s with ignoreNextPrompt := false, start := start })
    else pure (.done ())
  else if ubootTftpAutorunRe.found haystack then interruptOrGiveUp args s.start
  else if !s.autobootAttempted && ubootAutobootRe.found haystack then do
    let stopped ← stopUbootAutoboot args s.start
    if stopped then pure (.done ())
    else do
      let later ← bufferSince s.start
      if ubootTftpAutorunRe.found later then interruptOrGiveUp args s.start
      else promptPassEnd args haystack { s with autobootAttempted := true }
  else promptPassEnd args haystack s

def waitForUBootPrompt (args : Args) : Serial Unit := do
  log (chars "Waiting for U-Boot to start")
  let start ← mark
  forever (promptPass args) {
    start := start
    bannerLogged := false
    autobootAttempted := false
    nvramInvalidSeen := false
    nvramHandled := false
    ignoreNextPrompt := false }

/-!
# Commands
-/

/-- One pass of `run_uboot_command`. -/
def commandPass (command : Text) (start resetWatchStart : Nat) (_ : Unit) :
    Serial (Pass Unit Text) := do
  raiseIfReset (some resetWatchStart)
  let haystack ← bufferSince start
  if promptRe.found haystack then do
    note (.returned command haystack)
    pure (.done haystack)
  else do
    let expired ← late
    if expired then
      Script.raise (.timeoutError (chars "Timed out while waiting for prompt after '" ++
        command ++ chars "'"))
    else do
      let _ ← readOnce
      pure (.again ())

def runUbootCommand (command : Text) : Serial Text := do
  let start ← mark
  let resetWatchStart ← mark
  sendLine command
  forever (commandPass command start resetWatchStart) ()

/-- `format(n, "x")`. -/
def hexText (n : Nat) : Text := Nat.toDigits 16 n

def parseTftpSizeHex (commandOutput : Text) (fallbackSize : Nat) : Serial Text :=
  match (tftpSizes commandOutput).getLast? with
  | some hex => pure (hex.map Char.toLower)
  | none => do
      log (chars ("Could not parse size from tftpboot output, " ++
        "falling back to local u-boot.bin size"))
      pure (hexText fallbackSize)

def flashOutputHasSectorBoundaryError (commandOutput : Text) : Bool :=
  flashSectorBoundaryErrorRe.found commandOutput

def flashOutputHasNotErasedError (commandOutput : Text) : Bool :=
  flashNotErasedRe.found commandOutput

def validateFlashProgramming (protectOutput eraseOutput copyOutput : Text) :
    Serial Unit := do
  let sectorBoundaryError := flashOutputHasSectorBoundaryError protectOutput ||
    flashOutputHasSectorBoundaryError eraseOutput
  let flashNotErased := flashOutputHasNotErasedError copyOutput
  Script.when sectorBoundaryError
    (error (chars "Flash address range error: end address is not on a sector boundary."))
  if flashNotErased then do
    error (if sectorBoundaryError then
      chars "Flash write failed: target flash was not erased."
      else chars "Flash write failed: Copy to Flash reported 'Flash not Erased'.")
    Script.raise (.systemExit 1)
  else if sectorBoundaryError then Script.raise (.systemExit 1)
  else pure ()

/-!
# The main program
-/

def setenvServerip (args : Args) : Text := chars "setenv serverip " ++ args.serverip

def setenvIpaddr (args : Args) : Text := chars "setenv ipaddr " ++ args.ipaddr

def tftpboot (args : Args) : Text :=
  chars "tftpboot " ++ args.loadAddress ++ chars " u-boot.bin"

def protectOff (args : Args) : Text :=
  chars "protect off " ++ args.flashStart ++ chars " " ++ args.flashEnd

def eraseFlash (args : Args) : Text :=
  chars "erase " ++ args.flashStart ++ chars " " ++ args.flashEnd

def copyToFlash (args : Args) (sizeHex : Text) : Text :=
  chars "cp.b " ++ args.loadAddress ++ chars " " ++ args.flashStart ++ chars " " ++
    sizeHex

def promptAcquired : Text := chars "U-Boot prompt acquired, starting flash commands"

def flashCommands (args : Args) : Serial Unit := do
  let _ ← runUbootCommand (setenvServerip args)
  let _ ← runUbootCommand (setenvIpaddr args)
  let tftpOutput ← runUbootCommand (tftpboot args)
  let sizeHex ← parseTftpSizeHex tftpOutput args.artifactSize
  let protectOutput ← runUbootCommand (protectOff args)
  let eraseOutput ← runUbootCommand (eraseFlash args)
  let copyOutput ← runUbootCommand (copyToFlash args sizeHex)
  validateFlashProgramming protectOutput eraseOutput copyOutput

/-- A cycle from `wait_for_u_boot_prompt` on. -/
def uBootPhase (args : Args) : Serial Unit := do
  waitForUBootPrompt args
  log promptAcquired
  flashCommands args

/-- The marker that starts a cycle: a new one, or the one that cut the last cycle short. -/
def cycleStart (args : Args) (restartFrom : Option Nat) : Serial Nat :=
  match restartFrom with
  | none => do
      Script.when args.autoReset (pulseReset args.pulseText)
      waitForResetMarker
  | some position => do
      log (chars "Reset marker detected")
      pure position

/-- The body of the `try` statement. -/
def cycle (args : Args) (restartFrom : Option Nat) : Serial Unit := do
  let start ← cycleStart args restartFrom
  waitForBootromLoading args start
  log (chars "Waiting " ++ args.delayText ++ chars "s before starting U-Boot from RAM")
  sleepWithResetWatch
  sendLine (chars "g " ++ args.goAddress)
  uBootPhase args

/-- `except ResetDetected`. -/
def resetPosition : Failure -> Option Nat
  | .resetDetected position => some position
  | _ => none

def mainPass (args : Args) (restartFrom : Option Nat) :
    Serial (Pass (Option Nat) Unit) := do
  let result ← Script.attempt resetPosition (cycle args restartFrom)
  match result with
  | .ok () => pure (.done ())
  | .error position => do
      warn (chars ("Machine was rebooted before the script finished, " ++
        "restarting from the beginning."))
      pure (.again (some position))

def main (args : Args) : Serial Nat := do
  if args.autoReset && args.resetLine.isNone then
    Script.raise (.usage (chars "--auto-reset requires --reset-line"))
  else do
    openPort
    log (chars "Connected to " ++ args.portText)
    Script.when args.resetLine.isSome (log args.resetText)
    forever (mainPass args) none
    log (chars "Flash programming finished")
    emitScriptMessage (chars "Switch the memory addressing mode, then reboot the machine.")
    pure 0

def startConsole (args : Args) (answers : Nat -> Answer) (limit : Nat) :
    SerialConsole where
  buffer := []
  trace := []
  answers := answers
  asked := 0
  limit := limit
  resetLine := args.resetLine
  resetActiveState := args.resetActiveState
  displayName := args.displayName

def mainTrace (args : Args) (answers : Nat -> Answer) (limit : Nat) : List Event :=
  (main args (startConsole args answers limit)).2.trace

end Console
end Bab750
