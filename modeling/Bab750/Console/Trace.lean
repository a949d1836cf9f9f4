import Bab750.Console.FlashScript

/-!
# What a script adds to its trace

A script that only appends events of one kind keeps every condition on buffer and
trace that such events keep.  Up to the prompt of U-Boot, the flash script sends no
command that changes the flash.
-/

namespace Bab750
namespace Console

open Foundation
open Script

def bufferAfter (buffer : Text) : Event -> Text
  | .received chunk => appendBuffer buffer chunk
  | _ => buffer

/-- Every condition that allowed events keep is kept by the script. -/
def OnlyAppends {α : Type} (allowed : Event -> Prop) (script : Serial α) : Prop :=
  forall holds : Text -> List Event -> Prop,
    (forall buffer trace event, allowed event -> holds buffer trace ->
      holds (bufferAfter buffer event) (trace ++ [event])) ->
      Keeps (fun w => holds w.buffer w.trace) script

section Rules

variable {α β σ : Type} {allowed : Event -> Prop}

theorem OnlyAppends.keeps {script : Serial α} (h : OnlyAppends allowed script)
    (holds : List Event -> Prop)
    (hstep : forall trace event, allowed event -> holds trace -> holds (trace ++ [event])) :
    Keeps (fun w => holds w.trace) script :=
  h (fun _ trace => holds trace) (fun _ trace event => hstep trace event)

theorem OnlyAppends.weaken {script : Serial α} {more : Event -> Prop}
    (h : OnlyAppends allowed script) (hmore : forall event, allowed event -> more event) :
    OnlyAppends more script :=
  fun holds hstep => h holds (fun buffer trace event hevent =>
    hstep buffer trace event (hmore event hevent))

theorem onlyAppends_pure (value : α) : OnlyAppends allowed (pure value : Serial α) :=
  fun _ _ => keeps_pure value

theorem onlyAppends_raise (failure : Failure) :
    OnlyAppends allowed (raise failure : Serial α) :=
  fun _ _ => keeps_raise failure

theorem onlyAppends_look (f : SerialConsole -> α) :
    OnlyAppends allowed (look f : Serial α) :=
  fun _ _ => keeps_look f

theorem onlyAppends_bind {script : Serial α} {rest : α -> Serial β}
    (hscript : OnlyAppends allowed script)
    (hrest : forall value, OnlyAppends allowed (rest value)) :
    OnlyAppends allowed (script >>= rest) :=
  fun holds h => keeps_bind (hscript holds h) (fun value => hrest value holds h)

theorem onlyAppends_when {condition : Bool} {script : Serial Unit}
    (hscript : OnlyAppends allowed script) :
    OnlyAppends allowed (when condition script) :=
  fun holds h => keeps_when (hscript holds h)

theorem onlyAppends_ite {condition : Prop} [Decidable condition] {first second : Serial α}
    (hfirst : OnlyAppends allowed first) (hsecond : OnlyAppends allowed second) :
    OnlyAppends allowed (if condition then first else second) := by
  split
  · exact hfirst
  · exact hsecond

theorem onlyAppends_forever {body : σ -> Serial (Pass σ α)}
    (hbody : forall state, OnlyAppends allowed (body state)) (state : σ) :
    OnlyAppends allowed (forever body state) :=
  fun holds h => keeps_loop (fun state => hbody state holds h) state

theorem onlyAppends_event {event : Event}
    (hbuffer : forall buffer, bufferAfter buffer event = buffer) (hevent : allowed event) :
    OnlyAppends allowed (note event) := by
  intro holds h
  refine keeps_change (fun w hw => ?_)
  have hnext := h w.buffer w.trace event hevent hw
  rw [hbuffer] at hnext
  exact hnext

theorem onlyAppends_note {level : Level} {text : Text}
    (hmessage : allowed (.message level text)) :
    OnlyAppends allowed (note (.message level text)) :=
  onlyAppends_event (fun _ => rfl) hmessage

theorem onlyAppends_late : OnlyAppends allowed late :=
  fun _ _ _ h => h

theorem onlyAppends_findResetMarker (start : Nat) :
    OnlyAppends allowed (findResetMarker start) :=
  fun _ _ _ h => h

theorem keeps_raiseIfReset {holds : SerialConsole -> Prop} (start : Option Nat) :
    Keeps holds (raiseIfReset start) := by
  unfold raiseIfReset
  cases start with
  | none =>
      exact keeps_pure ()
  | some start =>
      refine keeps_bind (keeps_bind (keeps_look _) (fun _ => keeps_pure _)) ?_
      intro position
      cases position with
      | none =>
          exact keeps_pure ()
      | some position =>
          exact keeps_raise _

theorem onlyAppends_raiseIfReset (start : Option Nat) :
    OnlyAppends allowed (raiseIfReset start) :=
  fun _ _ => keeps_raiseIfReset start

theorem onlyAppends_readOnce (hreceived : forall chunk, allowed (.received chunk)) :
    OnlyAppends allowed readOnce := by
  intro holds h w hw
  unfold readOnce
  show holds (Script.bind ask _ w).2.buffer (Script.bind ask _ w).2.trace
  unfold Script.bind ask
  dsimp only
  split
  · exact hw
  · exact h w.buffer w.trace (.received _) (hreceived _) hw

theorem onlyAppends_sendRaw {data description : Text} {logSend : Bool}
    (hlog : allowed (.message .log (chars "Serial send: " ++ description)))
    (hsent : allowed (.sent data)) :
    OnlyAppends allowed (sendRaw data description logSend) :=
  onlyAppends_bind (onlyAppends_when (onlyAppends_note hlog))
    (fun _ => onlyAppends_event (fun _ => rfl) hsent)

theorem onlyAppends_sendLine {line : Text}
    (hlog : allowed (.message .log (chars "Serial send: " ++ line)))
    (hsent : allowed (.sent (line ++ ['\r']))) :
    OnlyAppends allowed (sendLine line) :=
  onlyAppends_ite (onlyAppends_sendRaw hlog hsent) (onlyAppends_raise _)

theorem onlyAppends_runUbootCommand {command : Text}
    (hlog : allowed (.message .log (chars "Serial send: " ++ command)))
    (hsent : allowed (.sent (command ++ ['\r'])))
    (hreceived : forall chunk, allowed (.received chunk))
    (hreturned : forall output, allowed (.returned command output)) :
    OnlyAppends allowed (runUbootCommand command) := by
  refine onlyAppends_bind (onlyAppends_look _) (fun start => ?_)
  refine onlyAppends_bind (onlyAppends_look _) (fun resetWatchStart => ?_)
  refine onlyAppends_bind (onlyAppends_sendLine hlog hsent) (fun _ => ?_)
  refine onlyAppends_forever (fun _ => ?_) ()
  refine onlyAppends_bind (onlyAppends_raiseIfReset _) (fun _ => ?_)
  refine onlyAppends_bind (onlyAppends_look _) (fun haystack => ?_)
  refine onlyAppends_ite ?_ ?_
  · exact onlyAppends_bind (onlyAppends_event (fun _ => rfl) (hreturned haystack))
      (fun _ => onlyAppends_pure _)
  · refine onlyAppends_bind onlyAppends_late (fun expired => ?_)
    refine onlyAppends_ite (onlyAppends_raise _) ?_
    exact onlyAppends_bind (onlyAppends_readOnce hreceived) (fun _ => onlyAppends_pure _)

end Rules

/-!
# Up to the prompt
-/

def IsProgramming (data : Text) : Prop :=
  chars "protect off " <+: data ∨ chars "erase " <+: data ∨ chars "cp.b " <+: data

instance (data : Text) : Decidable (IsProgramming data) :=
  inferInstanceAs (Decidable (_ ∨ _ ∨ _))

def Harmless : Event -> Prop
  | .sent data => ¬ IsProgramming data
  | _ => True

theorem not_isProgramming_of_head {c : Char} {data : Text}
    (h : c ≠ 'p' ∧ c ≠ 'e' ∧ c ≠ 'c') : ¬ IsProgramming (c :: data) := by
  rintro (hstart | hstart | hstart)
  · exact h.left (List.cons_prefix_cons.mp hstart).left.symm
  · exact h.right.left (List.cons_prefix_cons.mp hstart).left.symm
  · exact h.right.right (List.cons_prefix_cons.mp hstart).left.symm

theorem harmless_sent {c : Char} {data : Text} (h : c ≠ 'p' ∧ c ≠ 'e' ∧ c ≠ 'c') :
    Harmless (.sent (c :: data)) :=
  not_isProgramming_of_head h

theorem harmless_log (text : Text) : OnlyAppends Harmless (log text) :=
  onlyAppends_note trivial

theorem harmless_sendLine_head {c : Char} {line : Text}
    (h : c ≠ 'p' ∧ c ≠ 'e' ∧ c ≠ 'c') : OnlyAppends Harmless (sendLine (c :: line)) :=
  onlyAppends_sendLine trivial (harmless_sent h)

/-!
# Messages of a cycle
-/

inductive Kind where
  | other
  /-- The script waits for a reset. -/
  | request
  /-- A marker starts a cycle. -/
  | cycle
  /-- Resets are watched for from here on, if they are not yet. -/
  | acquire
  | sleep
  | boot
  /-- The autoboot or its download is to be stopped. -/
  | stop
  | commands
deriving DecidableEq

/-- The message in front of `sleep_with_reset_watch`. -/
def isSleep (text : Text) : Bool :=
  (chars "Waiting ").isPrefixOf text &&
    (chars "s before starting U-Boot from RAM").isSuffixOf text

def kindOf : Level -> Text -> Kind
  | .message, _ => .request
  | .error, _ => .other
  | .warn, text =>
      if text = nvramWarning then .acquire
      else if text = chars "Trying to interrupt the tftp boot process..." then .stop
      else .other
  | .log, text =>
      if text = chars "Reset marker detected" then .cycle
      else if text = chars "Memory-test prompt detected" then .acquire
      else if text = chars "VxWorks banner detected" then .acquire
      else if text = chars "Waiting for Loading to finish" then .acquire
      else if isSleep text then .sleep
      else if text = chars "Waiting for U-Boot to start" then .boot
      else if text = chars "U-Boot autoboot window detected, sending <Enter>" then .stop
      else if text = promptAcquired then .commands
      else .other

/-- The messages that say something, and the start of the one with a time. -/
def tellingTexts : List Text :=
  [chars "Reset marker detected", chars "Memory-test prompt detected",
    chars "VxWorks banner detected", chars "Waiting for Loading to finish",
    chars "Waiting for U-Boot to start",
    chars "U-Boot autoboot window detected, sending <Enter>", promptAcquired]

theorem kindOf_head {c : Char} {text : Text} (hhead : text.head? = some c) (hw : c ≠ 'W')
    (hc : forall telling, telling ∈ tellingTexts -> telling.head? ≠ some c) :
    kindOf .log text = .other := by
  have hne : forall telling, telling ∈ tellingTexts -> text ≠ telling := by
    intro telling htelling hsame
    rw [hsame] at hhead
    exact hc telling htelling hhead
  have hsleep : isSleep text = false := by
    cases text with
    | nil =>
        cases hhead
    | cons d rest =>
        obtain rfl : d = c := Option.some.inj hhead
        unfold isSleep
        have hchars : chars "Waiting " = 'W' :: chars "aiting " := by decide
        rw [hchars, List.isPrefixOf_cons_cons, beq_false_of_ne (Ne.symm hw), Bool.false_and,
          Bool.false_and]
  simp only [tellingTexts, List.mem_cons, List.not_mem_nil, or_false, forall_eq_or_imp,
    forall_eq] at hne
  rcases hne with ⟨hcycle, hmemory, hbanner, hloading, hboot, hstop, hcommands⟩
  simp only [kindOf, hcycle, hmemory, hbanner, hloading, hsleep, hboot, hstop, hcommands,
    if_false, Bool.false_eq_true]

theorem kindOf_send (description : Text) :
    kindOf .log (chars "Serial send: " ++ description) = .other :=
  kindOf_head (c := 'S') rfl (by decide) (by decide)

/-- A message that can come while the prompt of U-Boot is waited for. -/
def Kind.inPrompt : Kind -> Bool
  | .other => true
  | .acquire => true
  | .stop => true
  | _ => false

/-- A kind of events with all that happens while the prompt of U-Boot is waited for. -/
structure PermitsPrompt (allowed : Event -> Prop) : Prop where
  received : forall chunk, allowed (.received chunk)
  message : forall level text, (kindOf level text).inPrompt = true ->
    allowed (.message level text)
  enter : allowed (.sent ['\r'])
  ctrlC : allowed (.sent ['\x03'])
  answer : allowed (.sent (chars "C\r"))

/-- A kind of events with all that happens in front of the commands. -/
structure Permits (allowed : Event -> Prop) : Prop where
  received : forall chunk, allowed (.received chunk)
  message : forall level text, allowed (.message level text)
  resetLine : forall active, allowed (.resetLine active)
  reopened : allowed .reopened
  enter : allowed (.sent ['\r'])
  ctrlC : allowed (.sent ['\x03'])
  answer : allowed (.sent (chars "C\r"))
  load : allowed (.sent (chars "l\r"))

theorem permits_harmless : Permits Harmless where
  received := fun _ => trivial
  message := fun _ _ => trivial
  resetLine := fun _ => trivial
  reopened := trivial
  enter := harmless_sent (by decide)
  ctrlC := harmless_sent (by decide)
  answer := harmless_sent (by decide)
  load := harmless_sent (by decide)

section Prompt

variable {allowed : Event -> Prop}

theorem Permits.prompt (h : Permits allowed) : PermitsPrompt allowed where
  received := h.received
  message := fun level text _ => h.message level text
  enter := h.enter
  ctrlC := h.ctrlC
  answer := h.answer

theorem permitted_send (h : PermitsPrompt allowed) (description : Text) :
    allowed (.message .log (chars "Serial send: " ++ description)) :=
  h.message _ _ (by rw [kindOf_send]; rfl)

theorem permitted_sendEnter (h : PermitsPrompt allowed) (logSend : Bool) :
    OnlyAppends allowed (sendEnter logSend) :=
  onlyAppends_sendRaw (permitted_send h _) h.enter

theorem permitted_sendCtrlC (h : PermitsPrompt allowed) (logSend : Bool) :
    OnlyAppends allowed (sendCtrlC logSend) :=
  onlyAppends_sendRaw (permitted_send h _) h.ctrlC

theorem permitted_spamAttempts (h : PermitsPrompt allowed) {sendFn : Bool -> Serial Unit}
    (hsend : forall logSend, OnlyAppends allowed (sendFn logSend)) (start : Nat)
    (tftpEscape : Bool) (resetWatchStart : Option Nat) (attempts attempt : Nat) :
    OnlyAppends allowed
      (spamAttempts sendFn start tftpEscape resetWatchStart attempts attempt) := by
  induction attempts generalizing attempt with
  | zero =>
      exact onlyAppends_bind (onlyAppends_look _) (fun _ => onlyAppends_pure _)
  | succ attempts ih =>
      refine onlyAppends_bind (hsend _) (fun _ => ?_)
      refine onlyAppends_bind (onlyAppends_forever (fun _ => ?_) ()) (fun verdict => ?_)
      · refine onlyAppends_bind (onlyAppends_raiseIfReset _) (fun _ => ?_)
        refine onlyAppends_bind (onlyAppends_look _) (fun haystack => ?_)
        refine onlyAppends_ite (onlyAppends_pure _) ?_
        refine onlyAppends_ite (onlyAppends_pure _) ?_
        refine onlyAppends_bind onlyAppends_late (fun expired => ?_)
        refine onlyAppends_ite (onlyAppends_pure _) ?_
        exact onlyAppends_bind (onlyAppends_readOnce h.received) (fun _ => onlyAppends_pure _)
      · cases verdict with
        | some result =>
            exact onlyAppends_pure result
        | none =>
            exact ih (attempt + 1)

theorem permitted_interruptOrGiveUp (h : PermitsPrompt allowed) {σ : Type} (args : Args)
    (start : Nat) :
    OnlyAppends allowed (interruptOrGiveUp args start : Serial (Pass σ Unit)) := by
  refine onlyAppends_bind ?_
    (fun stopped => onlyAppends_ite (onlyAppends_pure _) (onlyAppends_raise _))
  refine onlyAppends_bind (onlyAppends_note (h.message _ _ (by decide))) (fun _ => ?_)
  refine onlyAppends_bind (onlyAppends_note (h.message _ _ (by decide))) (fun _ => ?_)
  refine onlyAppends_bind (onlyAppends_look _) (fun resetWatchStart => ?_)
  exact permitted_spamAttempts h (permitted_sendCtrlC h) _ _ _ _ _

theorem permitted_stopUbootAutoboot (h : PermitsPrompt allowed) (args : Args) (start : Nat) :
    OnlyAppends allowed (stopUbootAutoboot args start) := by
  refine onlyAppends_bind (onlyAppends_note (h.message _ _ (by decide))) (fun _ => ?_)
  refine onlyAppends_bind (onlyAppends_look _) (fun resetWatchStart => ?_)
  refine onlyAppends_bind (permitted_spamAttempts h (permitted_sendEnter h) _ _ _ _ _)
    (fun first => ?_)
  refine onlyAppends_ite (onlyAppends_pure _) ?_
  exact onlyAppends_bind (onlyAppends_note (h.message _ _ (by decide)))
    (fun _ => permitted_spamAttempts h (permitted_sendEnter h) _ _ _ _ _)

theorem permitted_promptPassEnd (h : PermitsPrompt allowed) (args : Args) (haystack : Text)
    (s : PromptState) :
    OnlyAppends allowed (promptPassEnd args haystack s) := by
  refine onlyAppends_bind (onlyAppends_when (onlyAppends_note (h.message _ _ (by decide))))
    (fun _ => ?_)
  refine onlyAppends_bind onlyAppends_late (fun expired => ?_)
  refine onlyAppends_ite (onlyAppends_raise _) ?_
  exact onlyAppends_bind (onlyAppends_readOnce h.received) (fun _ => onlyAppends_pure _)

theorem permitted_promptPass (h : PermitsPrompt allowed) (args : Args) (s : PromptState) :
    OnlyAppends allowed (promptPass args s) := by
  refine onlyAppends_bind (onlyAppends_raiseIfReset none) (fun _ => ?_)
  refine onlyAppends_bind (onlyAppends_look _) (fun haystack => ?_)
  refine onlyAppends_bind (onlyAppends_when (onlyAppends_note (h.message _ _ (by decide))))
    (fun _ => ?_)
  refine onlyAppends_ite ?_ (onlyAppends_ite (onlyAppends_ite ?_ (onlyAppends_pure _))
    (onlyAppends_ite (permitted_interruptOrGiveUp h _ _)
      (onlyAppends_ite ?_ (permitted_promptPassEnd h _ _ _))))
  · refine onlyAppends_bind (onlyAppends_sendLine (permitted_send h _) h.answer) (fun _ => ?_)
    exact onlyAppends_bind (onlyAppends_look _) (fun _ => onlyAppends_pure _)
  · refine onlyAppends_bind (onlyAppends_note (h.message _ _ (by decide))) (fun _ => ?_)
    exact onlyAppends_bind (onlyAppends_look _) (fun _ => onlyAppends_pure _)
  · refine onlyAppends_bind (permitted_stopUbootAutoboot h _ _) (fun stopped => ?_)
    refine onlyAppends_ite (onlyAppends_pure _) ?_
    refine onlyAppends_bind (onlyAppends_look _) (fun later => ?_)
    exact onlyAppends_ite (permitted_interruptOrGiveUp h _ _) (permitted_promptPassEnd h _ _ _)

end Prompt

section Permitted

variable {allowed : Event -> Prop}

theorem permitted_log (h : Permits allowed) (text : Text) : OnlyAppends allowed (log text) :=
  onlyAppends_note (h.message _ _)

theorem permitted_readOnce (h : Permits allowed) : OnlyAppends allowed readOnce :=
  onlyAppends_readOnce h.received

theorem permitted_setResetAsserted (h : Permits allowed) (asserted : Bool) :
    OnlyAppends allowed (setResetAsserted asserted) := by
  refine onlyAppends_bind (onlyAppends_look _) (fun line => ?_)
  cases line with
  | none =>
      exact onlyAppends_pure ()
  | some _ =>
      exact onlyAppends_bind (onlyAppends_look _)
        (fun _ => onlyAppends_event (fun _ => rfl) (h.resetLine _))

theorem permitted_openPort (h : Permits allowed) : OnlyAppends allowed openPort :=
  onlyAppends_bind (permitted_setResetAsserted h false) (fun _ =>
    onlyAppends_bind (onlyAppends_event (fun _ => rfl) h.reopened)
      (fun _ => permitted_setResetAsserted h false))

theorem permitted_pulseReset (h : Permits allowed) (description : Text) :
    OnlyAppends allowed (pulseReset description) := by
  refine onlyAppends_bind (onlyAppends_look _) (fun line => ?_)
  cases line with
  | none =>
      exact onlyAppends_pure ()
  | some _ =>
      exact onlyAppends_bind (permitted_log h _) (fun _ =>
        onlyAppends_bind (permitted_setResetAsserted h true)
          (fun _ => permitted_setResetAsserted h false))

theorem permitted_waitForQuiet (h : Permits allowed) (description : Text)
    (resetWatchStart : Option Nat) :
    OnlyAppends allowed (waitForQuiet description resetWatchStart) := by
  refine onlyAppends_bind (onlyAppends_look _) (fun here => ?_)
  refine onlyAppends_forever (fun _ => ?_) ()
  refine onlyAppends_bind (onlyAppends_raiseIfReset _) (fun _ => ?_)
  refine onlyAppends_bind (permitted_readOnce h) (fun chunk => ?_)
  refine onlyAppends_bind (onlyAppends_ite onlyAppends_late (onlyAppends_pure _))
    (fun quiet => ?_)
  refine onlyAppends_ite (onlyAppends_pure _) ?_
  refine onlyAppends_bind onlyAppends_late (fun expired => ?_)
  exact onlyAppends_ite (onlyAppends_raise _) (onlyAppends_pure _)

theorem permitted_sleepWithResetWatch (h : Permits allowed) :
    OnlyAppends allowed sleepWithResetWatch := by
  refine onlyAppends_bind (onlyAppends_look _) (fun resetWatchStart => ?_)
  refine onlyAppends_forever (fun _ => ?_) ()
  refine onlyAppends_bind (onlyAppends_raiseIfReset _) (fun _ => ?_)
  refine onlyAppends_bind onlyAppends_late (fun expired => ?_)
  refine onlyAppends_ite (onlyAppends_pure _) ?_
  exact onlyAppends_bind (permitted_readOnce h) (fun _ => onlyAppends_pure _)

theorem permitted_waitForResetMarker (h : Permits allowed) :
    OnlyAppends allowed waitForResetMarker := by
  refine onlyAppends_bind (onlyAppends_look _) (fun line => ?_)
  refine onlyAppends_bind (onlyAppends_note (h.message _ _)) (fun _ => ?_)
  refine onlyAppends_bind (onlyAppends_look _) (fun start => ?_)
  refine onlyAppends_forever (fun _ => ?_) ()
  refine onlyAppends_bind (onlyAppends_findResetMarker start) (fun position => ?_)
  cases position with
  | some position =>
      exact onlyAppends_bind (permitted_log h _) (fun _ => onlyAppends_pure _)
  | none =>
      refine onlyAppends_bind onlyAppends_late (fun expired => ?_)
      refine onlyAppends_ite (onlyAppends_raise _) ?_
      exact onlyAppends_bind (permitted_readOnce h) (fun _ => onlyAppends_pure _)

theorem permitted_watchFromHere (s : LoadingState) :
    OnlyAppends allowed (watchFromHere s) := by
  unfold watchFromHere
  cases s.resetWatchStart with
  | some _ =>
      exact onlyAppends_pure s
  | none =>
      exact onlyAppends_bind (onlyAppends_look _) (fun _ => onlyAppends_pure _)

theorem permitted_readOrReconnect (h : Permits allowed) (s : LoadingState) :
    OnlyAppends allowed (readOrReconnect s) := by
  refine onlyAppends_bind (permitted_readOnce h) (fun chunk => ?_)
  refine onlyAppends_ite ?_ (onlyAppends_pure ())
  refine onlyAppends_bind onlyAppends_late (fun halted => ?_)
  refine onlyAppends_when ?_
  refine onlyAppends_bind (onlyAppends_look _) (fun name => ?_)
  refine onlyAppends_bind (onlyAppends_note (h.message _ _)) (fun _ => ?_)
  exact onlyAppends_bind (permitted_setResetAsserted h false) (fun _ => permitted_openPort h)

theorem permitted_bootromPass (h : Permits allowed) (letter : Char -> Bool) (start : Nat)
    (s : LoadingState) :
    OnlyAppends allowed (bootromPass letter start s) := by
  refine onlyAppends_bind (onlyAppends_raiseIfReset _) (fun _ => ?_)
  refine onlyAppends_bind (onlyAppends_look _) (fun haystack => ?_)
  refine onlyAppends_ite ?_ ?_
  · exact onlyAppends_bind (permitted_log h _) (fun _ => onlyAppends_pure _)
  refine onlyAppends_bind (onlyAppends_ite ?_ (onlyAppends_pure _)) (fun s => ?_)
  · exact onlyAppends_bind (permitted_log h _) (fun _ => permitted_watchFromHere _)
  refine onlyAppends_bind (onlyAppends_ite ?_ (onlyAppends_pure _)) (fun s => ?_)
  · exact onlyAppends_bind (onlyAppends_note (h.message _ _))
      (fun _ => permitted_watchFromHere _)
  refine onlyAppends_bind (onlyAppends_ite ?_ (onlyAppends_pure _)) (fun s => ?_)
  · exact onlyAppends_bind (onlyAppends_sendLine (h.message _ _) h.answer)
      (fun _ => onlyAppends_pure _)
  refine onlyAppends_bind (onlyAppends_ite ?_ (onlyAppends_pure _)) (fun s => ?_)
  · exact onlyAppends_bind (permitted_log h _) (fun _ => permitted_watchFromHere _)
  refine onlyAppends_bind (onlyAppends_ite ?_ (onlyAppends_pure _)) (fun s => ?_)
  · exact onlyAppends_bind (permitted_log h _) (fun _ => onlyAppends_pure _)
  refine onlyAppends_bind (onlyAppends_ite ?_ (onlyAppends_pure _)) (fun s => ?_)
  · exact onlyAppends_bind (permitted_log h _) (fun _ =>
      onlyAppends_bind (onlyAppends_sendLine (h.message _ _) h.load)
        (fun _ => onlyAppends_pure _))
  refine onlyAppends_bind (onlyAppends_ite ?_ (onlyAppends_pure _)) (fun s => ?_)
  · exact onlyAppends_bind (onlyAppends_note (h.message _ _)) (fun _ => onlyAppends_pure _)
  refine onlyAppends_bind (onlyAppends_ite ?_ (onlyAppends_pure _)) (fun _ => ?_)
  · exact onlyAppends_bind onlyAppends_late (fun _ =>
      onlyAppends_when (permitted_sendEnter h.prompt true))
  refine onlyAppends_bind onlyAppends_late (fun expired => ?_)
  refine onlyAppends_ite (onlyAppends_raise _) ?_
  exact onlyAppends_bind (permitted_readOrReconnect h _) (fun _ => onlyAppends_pure _)

theorem permitted_waitForBootromLoading (h : Permits allowed) (args : Args) (start : Nat) :
    OnlyAppends allowed (waitForBootromLoading args start) := by
  refine onlyAppends_bind (permitted_log h _) (fun _ => ?_)
  refine onlyAppends_bind (onlyAppends_forever (permitted_bootromPass h _ _) _)
    (fun resetWatchStart => ?_)
  exact onlyAppends_bind (permitted_log h _) (fun _ => permitted_waitForQuiet h _ _)

theorem permitted_waitForUBootPrompt (h : Permits allowed) (args : Args) :
    OnlyAppends allowed (waitForUBootPrompt args) := by
  refine onlyAppends_bind (permitted_log h _) (fun _ => ?_)
  refine onlyAppends_bind (onlyAppends_look _) (fun start => ?_)
  exact onlyAppends_forever (permitted_promptPass h.prompt args) _

theorem permitted_cycleStart (h : Permits allowed) (args : Args) (restartFrom : Option Nat) :
    OnlyAppends allowed (cycleStart args restartFrom) := by
  cases restartFrom with
  | none =>
      exact onlyAppends_bind (onlyAppends_when (permitted_pulseReset h _))
        (fun _ => permitted_waitForResetMarker h)
  | some position =>
      exact onlyAppends_bind (permitted_log h _) (fun _ => onlyAppends_pure _)

theorem onlyAppends_attempt {α γ : Type} {caught : Failure -> Option γ} {script : Serial α}
    (hscript : OnlyAppends allowed script) : OnlyAppends allowed (attempt caught script) :=
  fun holds hstep => keeps_attempt (hscript holds hstep)

/-- A kind of events with all that happens in a run. -/
structure PermitsAll (allowed : Event -> Prop) : Prop extends Permits allowed where
  line : forall line, allowed (.sent (line ++ ['\r']))
  returned : forall command output, allowed (.returned command output)

theorem permitted_runUbootCommand (h : PermitsAll allowed) (command : Text) :
    OnlyAppends allowed (runUbootCommand command) :=
  onlyAppends_runUbootCommand (h.message _ _) (h.line _) h.received (h.returned _)

theorem permitted_parseTftpSizeHex (h : PermitsAll allowed) (output : Text) (size : Nat) :
    OnlyAppends allowed (parseTftpSizeHex output size) := by
  unfold parseTftpSizeHex
  cases (tftpSizes output).getLast? with
  | some hex =>
      exact onlyAppends_pure _
  | none =>
      exact onlyAppends_bind (permitted_log h.toPermits _) (fun _ => onlyAppends_pure _)

theorem permitted_flashCommands (h : PermitsAll allowed) (args : Args) :
    OnlyAppends allowed (flashCommands args) := by
  have hcommand := permitted_runUbootCommand h
  refine onlyAppends_bind (hcommand _) (fun _ => ?_)
  refine onlyAppends_bind (hcommand _) (fun _ => ?_)
  refine onlyAppends_bind (hcommand _) (fun output => ?_)
  refine onlyAppends_bind (permitted_parseTftpSizeHex h _ _) (fun sizeHex => ?_)
  refine onlyAppends_bind (hcommand _) (fun protectOutput => ?_)
  refine onlyAppends_bind (hcommand _) (fun eraseOutput => ?_)
  refine onlyAppends_bind (hcommand _) (fun copyOutput => ?_)
  refine onlyAppends_bind (onlyAppends_when (onlyAppends_note (h.message _ _)))
    (fun _ => ?_)
  refine onlyAppends_ite ?_ (onlyAppends_ite (onlyAppends_raise _) (onlyAppends_pure _))
  exact onlyAppends_bind (onlyAppends_note (h.message _ _)) (fun _ => onlyAppends_raise _)

theorem permitted_cycle (h : PermitsAll allowed) (args : Args) (restartFrom : Option Nat) :
    OnlyAppends allowed (cycle args restartFrom) := by
  have hpermits := h.toPermits
  refine onlyAppends_bind (permitted_cycleStart hpermits args restartFrom) (fun start => ?_)
  refine onlyAppends_bind (permitted_waitForBootromLoading hpermits args start)
    (fun _ => ?_)
  refine onlyAppends_bind (permitted_log hpermits _) (fun _ => ?_)
  refine onlyAppends_bind (permitted_sleepWithResetWatch hpermits) (fun _ => ?_)
  refine onlyAppends_bind (onlyAppends_sendLine (h.message _ _) (h.line _)) (fun _ => ?_)
  refine onlyAppends_bind (permitted_waitForUBootPrompt hpermits args) (fun _ => ?_)
  refine onlyAppends_bind (permitted_log hpermits _) (fun _ => ?_)
  exact permitted_flashCommands h args

theorem permitted_main (h : PermitsAll allowed) (args : Args) :
    OnlyAppends allowed (main args) := by
  have hpermits := h.toPermits
  refine onlyAppends_ite (onlyAppends_raise _) ?_
  refine onlyAppends_bind (permitted_openPort hpermits) (fun _ => ?_)
  refine onlyAppends_bind (permitted_log hpermits _) (fun _ => ?_)
  refine onlyAppends_bind (onlyAppends_when (permitted_log hpermits _)) (fun _ => ?_)
  refine onlyAppends_bind (onlyAppends_forever (fun restartFrom => ?_) none) (fun _ => ?_)
  · refine onlyAppends_bind (onlyAppends_attempt (permitted_cycle h args restartFrom))
      (fun result => ?_)
    cases result with
    | ok value =>
        exact onlyAppends_pure _
    | error position =>
        exact onlyAppends_bind (onlyAppends_note (h.message _ _))
          (fun _ => onlyAppends_pure _)
  refine onlyAppends_bind (permitted_log hpermits _) (fun _ => ?_)
  exact onlyAppends_bind (onlyAppends_note (h.message _ _)) (fun _ => onlyAppends_pure _)

end Permitted

end Console
end Bab750
