import Bab750.Console.Download
import Bab750.Console.LinuxScript

/-!
# Commands in front of the boot command

The Linux boot script sends its last command only behind all the others, and only
when each of them has ended: at a prompt, or, for a download, with the report of a
transfer.  What a command printed about errors has been reported by then; it does
not stop the script.
-/

namespace Bab750
namespace Console
namespace Linux

open Foundation
open Script

/-!
# Reported lines
-/

/-- The lines of a text that `report_serial_errors` is to report. -/
def reportable (haystack : Text) : List Text :=
  ((serialErrorLines haystack).map strip).filter
    (fun line => !line.isEmpty && !envOverflowRe.found line)

def errorMessages (lines : List Text) : List Event :=
  lines.map (fun line => .message .error line)

def withEvents (w : SerialConsole) (events : List Event) : SerialConsole :=
  { w with trace := w.trace ++ events }

theorem reportLines_eq (groups emitted : List Text) (w : SerialConsole) :
    exists lines, reportLines groups emitted w =
        (.ok (emitted ++ lines), withEvents w (errorMessages lines)) ∧
      forall group, group ∈ groups -> (strip group).isEmpty = false ->
        envOverflowRe.found (strip group) = false -> strip group ∈ emitted ++ lines := by
  induction groups generalizing emitted w with
  | nil =>
      refine ⟨[], ?_, fun group hgroup => absurd hgroup List.not_mem_nil⟩
      unfold withEvents errorMessages
      rw [List.map_nil, List.append_nil, List.append_nil]
      rfl
  | cons group rest ih =>
      unfold reportLines
      dsimp only
      split
      case isTrue hknown =>
          rcases ih emitted w with ⟨lines, hrun, hall⟩
          refine ⟨lines, hrun, ?_⟩
          intro other hother hempty hoverflow
          rcases List.mem_cons.mp hother with rfl | hrest
          · rw [hempty, Bool.false_or, List.contains_iff_mem] at hknown
            exact List.mem_append_left _ hknown
          · exact hall other hrest hempty hoverflow
      case isFalse hnew =>
          split
          case isTrue hskip =>
              rcases ih emitted w with ⟨lines, hrun, hall⟩
              refine ⟨lines, hrun, ?_⟩
              intro other hother hempty hoverflow
              rcases List.mem_cons.mp hother with rfl | hrest
              · rw [hoverflow] at hskip
                cases hskip
              · exact hall other hrest hempty hoverflow
          case isFalse hreport =>
              rcases ih (emitted ++ [strip group])
                (withEvents w [Event.message .error (strip group)]) with ⟨lines, hrun, hall⟩
              refine ⟨strip group :: lines, ?_, ?_⟩
              · show reportLines rest _ (withEvents w _) = _
                rw [hrun]
                unfold withEvents errorMessages
                rw [List.append_assoc, List.append_assoc, List.map_cons]
                rfl
              · intro other hother hempty hoverflow
                rw [List.append_cons]
                rcases List.mem_cons.mp hother with rfl | hrest
                · exact List.mem_append_left _
                    (List.mem_append_right _ (List.mem_singleton_self _))
                · exact hall other hrest hempty hoverflow

theorem reportSerialErrors_eq (haystack : Text) (emitted : List Text) (w : SerialConsole) :
    exists lines, reportSerialErrors haystack emitted w =
        (.ok (emitted ++ lines), withEvents w (errorMessages lines)) ∧
      forall line, line ∈ reportable haystack -> line ∈ emitted ++ lines := by
  rcases reportLines_eq (serialErrorLines haystack) emitted w with ⟨lines, hrun, hall⟩
  refine ⟨lines, hrun, ?_⟩
  intro line hline
  rcases List.mem_filter.mp hline with ⟨hmem, hkeep⟩
  rcases List.mem_map.mp hmem with ⟨group, hgroup, rfl⟩
  rw [Bool.and_eq_true, Bool.not_eq_true', Bool.not_eq_true'] at hkeep
  exact hall group hgroup hkeep.left hkeep.right

/-!
# One command
-/

def WhileWaiting : Event -> Prop
  | .received _ => True
  | .message .error _ => True
  | .message .log text => text = nudgeLog
  | .message .warn text => text = acceptWarning
  | .sent data => data = ['\r']
  | _ => False

def Transferred (command : Text) (middle : List Event) : Prop :=
  isTftpCommand command = true ∧
    exists part, part <:+: receivedText middle ∧ tftpTransferredRe.found part = true

structure Ended (command output : Text) (middle : List Event) : Prop where
  waiting : forall event, event ∈ middle -> WhileWaiting event
  text : output <:+: receivedText middle
  ended : promptRe.found output = true ∨ Transferred command middle
  noReset : resetMarkerRe.found output = false
  reported : forall line, line ∈ reportable output -> .message .error line ∈ middle

/-- The events of `send_line`. -/
def sendEvents (command : Text) : List Event :=
  [Event.message .log (chars "Serial send: " ++ command), .sent (command ++ ['\r'])]

/-- The commands have run one after the other, with the given events. -/
inductive Ran : List Text -> List Event -> Prop where
  | nil : Ran [] []
  | command {command output : Text} {rest : List Text} {middle tail after : List Event}
      (ended : Ended command output middle)
      (warned : tail = [] ∨ tail = [Event.message .warn overflowWarning])
      (later : Ran rest after) :
      Ran (command :: rest)
        (sendEvents command ++ middle ++ Event.returned command output :: tail ++ after)

/-- `run_uboot_command` behind the sending of its command. -/
structure Waiting (front : List Event) (command : Text) (start : Nat) (s : CommandState)
    (middle : List Event) (w : SerialConsole) : Prop where
  trace : w.trace = front ++ sendEvents command ++ middle
  waiting : forall event, event ∈ middle -> WhileWaiting event
  text : w.buffer.drop start <:+ receivedText middle
  emitted : forall line, line ∈ s.emittedErrors -> .message .error line ∈ middle
  completed : s.sawTftpCompletion = true -> Transferred command middle

theorem Transferred.append {command : Text} {middle : List Event}
    (h : Transferred command middle) (events : List Event) :
    Transferred command (middle ++ events) := by
  rcases h with ⟨htftp, part, hpart, hfound⟩
  refine ⟨htftp, part, ?_, hfound⟩
  rw [receivedText_append]
  exact hpart.trans (List.prefix_append _ _).isInfix

/-- More events behind the ones so far; `chunk` is what they add to the buffer. -/
theorem Waiting.more {front : List Event} {command : Text} {start : Nat}
    {s : CommandState} {middle : List Event} {w u : SerialConsole}
    (h : Waiting front command start s middle w) {events : List Event}
    (htrace : u.trace = w.trace ++ events)
    (hevents : forall event, event ∈ events -> WhileWaiting event)
    (htext : u.buffer.drop start <:+ receivedText (middle ++ events)) :
    Waiting front command start s (middle ++ events) u := by
  refine ⟨?_, ?_, htext, ?_, ?_⟩
  · rw [htrace, h.trace, List.append_assoc]
  · intro event hevent
    rcases List.mem_append.mp hevent with hold | hnew
    · exact h.waiting event hold
    · exact hevents event hnew
  · exact fun line hline => List.mem_append_left _ (h.emitted line hline)
  · exact fun hsaw => (h.completed hsaw).append events

theorem Waiting.quiet {front : List Event} {command : Text} {start : Nat}
    {s : CommandState} {middle : List Event} {w u : SerialConsole}
    (h : Waiting front command start s middle w) {events : List Event}
    (htrace : u.trace = w.trace ++ events) (hbuffer : u.buffer = w.buffer)
    (hevents : forall event, event ∈ events -> WhileWaiting event)
    (hsilent : receivedText events = []) :
    Waiting front command start s (middle ++ events) u := by
  refine h.more htrace hevents ?_
  rw [hbuffer, receivedText_append, hsilent, List.append_nil]
  exact h.text

theorem receivedText_errorMessages (lines : List Text) :
    receivedText (errorMessages lines) = [] := by
  induction lines with
  | nil =>
      rfl
  | cons line rest ih =>
      exact ih

theorem whileWaiting_errorMessages {lines : List Text} {event : Event}
    (h : event ∈ errorMessages lines) : WhileWaiting event := by
  rcases List.mem_map.mp h with ⟨line, _, rfl⟩
  exact trivial

/-- The part of a pass in front of the prompt: what is known of the haystack. -/
theorem waiting_reported {front : List Event} {command : Text} {start : Nat}
    {s : CommandState} {middle : List Event} {w : SerialConsole} {lines : List Text}
    (h : Waiting front command start s middle w)
    (hall : forall line, line ∈ reportable (w.buffer.drop start) ->
      line ∈ s.emittedErrors ++ lines) :
    Waiting front command start
        { s with
          emittedErrors := s.emittedErrors ++ lines
          sawTftpCompletion := s.sawTftpCompletion ||
            (isTftpCommand command && tftpTransferredRe.found (w.buffer.drop start)) }
        (middle ++ errorMessages lines) (withEvents w (errorMessages lines)) ∧
      forall line, line ∈ reportable (w.buffer.drop start) ->
        .message .error line ∈ middle ++ errorMessages lines := by
  have hquiet : Waiting front command start s (middle ++ errorMessages lines)
      (withEvents w (errorMessages lines)) :=
    h.quiet rfl rfl (fun _ => whileWaiting_errorMessages) (receivedText_errorMessages lines)
  have hemitted : forall line, line ∈ s.emittedErrors ++ lines ->
      .message .error line ∈ middle ++ errorMessages lines := by
    intro line hline
    rcases List.mem_append.mp hline with hold | hnew
    · exact List.mem_append_left _ (h.emitted line hold)
    · exact List.mem_append_right _ (List.mem_map_of_mem hnew)
  refine ⟨⟨hquiet.trace, hquiet.waiting, hquiet.text, hemitted, ?_⟩, ?_⟩
  · intro hsaw
    rcases Bool.or_eq_true_iff.mp hsaw with hbefore | hnow
    · exact hquiet.completed hbefore
    · rcases Bool.and_eq_true_iff.mp hnow with ⟨htftp, hfound⟩
      exact ⟨htftp, w.buffer.drop start, hquiet.text.isInfix, hfound⟩
  · exact fun line hline => hemitted line (hall line hline)

theorem readOnce_cases (w : SerialConsole) :
    exists u, readOnce w = (.ok (w.answers w.asked).chunk, u) ∧
      (((w.answers w.asked).chunk = [] ∧ u.buffer = w.buffer ∧ u.trace = w.trace) ∨
        (u.buffer = appendBuffer w.buffer (w.answers w.asked).chunk ∧
          u.trace = w.trace ++ [Event.received (w.answers w.asked).chunk])) := by
  show exists u, (if (w.answers w.asked).chunk.isEmpty then (pure [] : Serial Text)
    else _) { w with asked := w.asked + 1 } = _ ∧ _
  split
  case isTrue hempty =>
      rw [List.isEmpty_iff] at hempty
      refine ⟨{ w with asked := w.asked + 1 }, ?_, Or.inl ⟨hempty, rfl, rfl⟩⟩
      rw [hempty]
      rfl
  case isFalse =>
      exact ⟨_, rfl, Or.inr ⟨rfl, rfl⟩⟩

/-- A pass has looked at a haystack: what is known of it from then on. -/
def Looked (front : List Event) (command haystack : Text) (start : Nat)
    (s : CommandState) (w : SerialConsole) : Prop :=
  exists middle, Waiting front command start s middle w ∧
    haystack <:+: receivedText middle ∧ resetMarkerRe.found haystack = false ∧
      forall line, line ∈ reportable haystack -> .message .error line ∈ middle

theorem Looked.more {front : List Event} {command haystack : Text} {start : Nat}
    {s : CommandState} {middle events : List Event} {u : SerialConsole}
    (hwaiting : Waiting front command start s (middle ++ events) u)
    (htext : haystack <:+: receivedText middle)
    (hreset : resetMarkerRe.found haystack = false)
    (hreported : forall line, line ∈ reportable haystack -> .message .error line ∈ middle) :
    Looked front command haystack start s u := by
  refine ⟨middle ++ events, hwaiting, ?_, hreset, ?_⟩
  · rw [receivedText_append]
    exact htext.trans (List.prefix_append _ _).isInfix
  · exact fun line hline => List.mem_append_left _ (hreported line hline)

theorem looked_readOnce {front : List Event} {command haystack : Text} {start : Nat}
    {s : CommandState} : Keeps (Looked front command haystack start s) readOnce := by
  rintro w ⟨middle, hwaiting, htext, hreset, hreported⟩
  rcases readOnce_cases w with ⟨u, hrun, ⟨_, hbuffer, htrace⟩ | ⟨hbuffer, htrace⟩⟩
  · rw [hrun]
    have hquiet := hwaiting.quiet (u := u) (by rw [htrace, List.append_nil]) hbuffer
      (fun event hevent => absurd hevent List.not_mem_nil) rfl
    exact Looked.more hquiet htext hreset hreported
  · rw [hrun]
    refine Looked.more (hwaiting.more htrace ?_ ?_) htext hreset hreported
    · intro event hevent
      rw [List.mem_singleton.mp hevent]
      exact trivial
    · have hchunk : receivedText [Event.received (w.answers w.asked).chunk] =
          (w.answers w.asked).chunk := List.append_nil _
      rw [hbuffer, receivedText_append, hchunk]
      exact drop_appendBuffer_suffix hwaiting.text

theorem looked_late {front : List Event} {command haystack : Text} {start : Nat}
    {s : CommandState} : Keeps (Looked front command haystack start s) late := by
  rintro w ⟨middle, hwaiting, hrest⟩
  exact ⟨middle, ⟨hwaiting.trace, hwaiting.waiting, hwaiting.text, hwaiting.emitted,
    hwaiting.completed⟩, hrest⟩

/-- The trace of a command that has ended, behind the given events. -/
def EndedBehind (front : List Event) (command output : Text) (w : SerialConsole) : Prop :=
  exists middle, w.trace = front ++ sendEvents command ++ middle ++
    [Event.returned command output] ∧ Ended command output middle

abbrev CommandHolds (front : List Event) (command : Text) (start : Nat) :
    Pass CommandState Text -> SerialConsole -> Prop :=
  passHolds (fun next w => exists middle, Waiting front command start next middle w)
    (EndedBehind front command)

theorem idlePass_returns {front : List Event} {args : Args} {command haystack : Text}
    {start : Nat} {s : CommandState} :
    Returns (Looked front command haystack start s) (idlePass args command haystack s)
      (CommandHolds front command start) := by
  rintro w pass u ⟨middle, hwaiting, htext, hreset, hreported⟩ hrun
  unfold idlePass at hrun
  split at hrun
  · -- the nudge
    rcases Prod.mk.inj hrun with ⟨hpass, rfl⟩
    rw [← Outcome.ok.inj hpass]
    have hevents : forall event, event ∈ [Event.message .log nudgeLog, .sent ['\r']] ->
        WhileWaiting event := by
      simp [WhileWaiting]
    have hnext := hwaiting.quiet (u := withEvents w _) rfl rfl hevents rfl
    refine ⟨_, ⟨?_, hnext.waiting, hnext.text, hnext.emitted, hnext.completed⟩⟩
    rw [← hnext.trace]
    show (w.trace ++ [_]) ++ [_] = w.trace ++ [_, _]
    rw [List.append_assoc]
    rfl
  · split at hrun
    case isTrue hsaw =>
        rcases Prod.mk.inj hrun with ⟨hpass, rfl⟩
        rw [← Outcome.ok.inj hpass]
        refine ⟨middle ++ [Event.message .warn acceptWarning], ?_, ?_⟩
        · show (w.trace ++ [_]) ++ [_] = _
          rw [hwaiting.trace, List.append_assoc (front ++ _)]
        · refine ⟨?_, ?_, Or.inr ((hwaiting.completed hsaw).append _), hreset, ?_⟩
          · intro event hevent
            rcases List.mem_append.mp hevent with hold | hnew
            · exact hwaiting.waiting event hold
            · rw [List.mem_singleton.mp hnew]
              exact rfl
          · rw [receivedText_append]
            exact htext.trans (List.prefix_append _ _).isInfix
          · exact fun line hline => List.mem_append_left _ (hreported line hline)
    case isFalse =>
        cases (Prod.mk.inj hrun).left

theorem commandPassRead_returns {front : List Event} {args : Args}
    {command haystack : Text} {start : Nat} {s : CommandState} :
    Returns (Looked front command haystack start s)
      (commandPassRead args command haystack s) (CommandHolds front command start) := by
  refine returns_bind looked_late.returns (fun expired => ?_)
  split
  · exact returns_raise
  · refine returns_bind looked_readOnce.returns (fun chunk => ?_)
    have hidle : Keeps (Looked front command haystack start s) (idleFor command chunk) := by
      unfold idleFor
      split
      · exact looked_late
      · exact keeps_pure false
    refine returns_bind hidle.returns (fun idle => ?_)
    split
    · exact idlePass_returns
    · exact returns_pure (fun w hw => ⟨hw.choose, hw.choose_spec.left⟩)

theorem commandPass_ended {front : List Event} (args : Args) (command : Text)
    (start : Nat) (s : CommandState) :
    Returns (fun w => exists middle, Waiting front command start s middle w)
      (commandPass args command start start s) (CommandHolds front command start) := by
  refine returns_bind (raiseIfReset_returns start) (fun _ => ?_)
  rintro w pass u ⟨⟨middle, hwaiting⟩, hreset⟩ hrun
  rcases bind_eq_ok hrun with ⟨haystack, v, hlook, hrun⟩
  rcases Prod.mk.inj hlook with ⟨hhaystack, rfl⟩
  rw [← Outcome.ok.inj hhaystack] at hrun
  rcases reportSerialErrors_eq (w.buffer.drop start) s.emittedErrors w with
    ⟨lines, hreport, hall⟩
  rcases bind_eq_ok hrun with ⟨emitted, v, hreports, hrun⟩
  rw [hreport] at hreports
  rcases Prod.mk.inj hreports with ⟨hemitted, rfl⟩
  rw [← Outcome.ok.inj hemitted] at hrun
  rcases waiting_reported hwaiting hall with ⟨hnext, hreported⟩
  have htext : w.buffer.drop start <:+: receivedText (middle ++ errorMessages lines) :=
    hnext.text.isInfix
  dsimp only at hrun
  split at hrun
  case isTrue hprompt =>
      rcases Prod.mk.inj hrun with ⟨hpass, rfl⟩
      rw [← Outcome.ok.inj hpass]
      refine ⟨middle ++ errorMessages lines, ?_, hnext.waiting, htext, Or.inl hprompt,
        hreset, hreported⟩
      show (withEvents w _).trace ++ [_] = _
      rw [hnext.trace]
  case isFalse hprompt =>
      exact commandPassRead_returns _ pass u ⟨_, hnext, htext, hreset, hreported⟩ hrun

theorem runUbootCommand_ended {front : List Event} (args : Args) (command : Text) :
    Returns (fun w => w.trace = front) (runUbootCommand args command)
      (EndedBehind front command) := by
  intro w output u hfront hrun
  rcases bind_eq_ok hrun with ⟨start, v, hmark, hrun⟩
  rcases Prod.mk.inj hmark with ⟨hstart, rfl⟩
  rcases bind_eq_ok hrun with ⟨watch, v, hmark, hrun⟩
  rcases Prod.mk.inj hmark with ⟨hwatch, rfl⟩
  have hsame : watch = start := Outcome.ok.inj (hwatch.symm.trans hstart)
  subst hsame
  rcases bind_eq_ok hrun with ⟨_, v, hsend, hloop⟩
  have hwaiting : Waiting front command watch
      { emittedErrors := [], sawTftpCompletion := false, promptNudgeSent := false } [] v := by
    unfold sendLine at hsend
    split at hsend
    case isTrue hascii =>
        rcases Prod.mk.inj hsend with ⟨_, rfl⟩
        refine ⟨?_, ?_, ?_, ?_, fun hsaw => Bool.noConfusion hsaw⟩
        · show (w.trace ++ [_]) ++ [_] = _
          rw [hfront, List.append_assoc, List.append_nil]
          rfl
        · exact fun event hevent => absurd hevent List.not_mem_nil
        · have hnone : w.buffer.drop watch = [] := by
            rw [← Outcome.ok.inj hstart, List.drop_length]
          show w.buffer.drop watch <:+ []
          exact hnone ▸ List.suffix_refl _
        · exact fun line hline => absurd hline List.not_mem_nil
    case isFalse hascii =>
        cases (Prod.mk.inj hsend).left
  exact returns_loop (fun next w => exists middle, Waiting front command watch next middle w)
    (commandPass_ended args command watch) _ v output u ⟨[], hwaiting⟩ hloop

/-!
# All commands in front of the last one
-/

theorem Ran.append {done : List Text} {ran : List Event} (h : Ran done ran)
    {command output : Text} {middle tail : List Event} (ended : Ended command output middle)
    (warned : tail = [] ∨ tail = [Event.message .warn overflowWarning]) :
    Ran (done ++ [command])
      (ran ++ (sendEvents command ++ middle ++ Event.returned command output :: tail)) := by
  induction h with
  | nil =>
      rw [List.nil_append, ← List.append_nil (sendEvents command ++ _ ++ _)]
      exact .command ended warned .nil
  | command first firstWarned _ ih =>
      rw [List.append_assoc]
      exact .command first firstWarned ih

/-- The event at the start of the commands of a cycle. -/
def acquired : Event := .message .log promptAcquired

/-- The commands have run in this cycle, and nothing has happened since. -/
def Behind (done : List Text) (trace : List Event) : Prop :=
  exists earlier ran, trace = earlier ++ acquired :: ran ∧ Ran done ran

/-- The commands have run, the last one up to the warning about its output. -/
def BehindWarning (done : List Text) (trace : List Event) : Prop :=
  forall tail, tail = [] ∨ tail = [Event.message .warn overflowWarning] ->
    Behind done (trace ++ tail)

theorem runUbootCommand_behind {done : List Text} (args : Args) (command : Text) :
    Returns (fun w => Behind done w.trace) (runUbootCommand args command)
      (fun _ w => BehindWarning (done ++ [command]) w.trace) := by
  rintro w output u ⟨earlier, ran, htrace, hran⟩ hrun
  rcases runUbootCommand_ended args command w output u htrace hrun with
    ⟨middle, hlast, hended⟩
  intro tail hwarned
  refine ⟨earlier, _, ?_, hran.append hended hwarned⟩
  rw [hlast]
  simp only [List.append_assoc, List.cons_append, List.nil_append]

theorem overflowWarning_behind {done : List Text} (output : Text) :
    Returns (fun w => BehindWarning done w.trace)
      (Script.when (envOverflowRe.found output) (warn overflowWarning))
      (fun _ w => Behind done w.trace) := by
  unfold Script.when
  split
  · exact returns_change (fun w h => h _ (Or.inr rfl))
  · refine returns_pure (fun w h => ?_)
    have hnone := h [] (Or.inl rfl)
    rw [List.append_nil] at hnone
    exact hnone

/-!
# What the script appends
-/

/-- `Starting Linux with: ...`. -/
def announcesLinux : Event -> Bool
  | .message .log text => (chars "Starting Linux with: ").isPrefixOf text
  | _ => false

/-- An `<Enter>`, a `^C`, or the answer to the prompt for a TFTP server. -/
def NoCommand (data : Text) : Prop := data = ['\r'] ∨ data = ['\x03'] ∨ data = chars "C\r"

def UpToPrompt : Event -> Prop
  | .sent data => NoCommand data
  | .returned _ _ => False
  | event => announcesLinux event = false

def Idle : Event -> Prop
  | .sent data => NoCommand data
  | event => announcesLinux event = false

theorem idle_of_upToPrompt {event : Event} (h : UpToPrompt event) : Idle event := by
  cases event with
  | sent data =>
      exact h
  | received chunk =>
      exact rfl
  | message level text =>
      exact h
  | resetLine active =>
      exact rfl
  | reopened =>
      exact rfl
  | returned command output =>
      exact absurd h id

section Appends

variable {allowed : Event -> Prop}

theorem onlyAppends_reportLines (herror : forall line, allowed (.message .error line))
    (groups emitted : List Text) : OnlyAppends allowed (reportLines groups emitted) := by
  induction groups generalizing emitted with
  | nil =>
      exact onlyAppends_pure emitted
  | cons group rest ih =>
      refine onlyAppends_ite (ih emitted) (onlyAppends_ite (ih emitted) ?_)
      exact onlyAppends_bind (onlyAppends_note (herror _)) (fun _ => ih _)

theorem onlyAppends_spamAttempts {sendFn : Bool -> Serial Unit}
    (hsend : forall logSend, OnlyAppends allowed (sendFn logSend))
    (hreceived : forall chunk, allowed (.received chunk)) (start : Nat)
    (tftpEscape : Bool) (resetWatchStart : Option Nat) (attempts attempt : Nat) :
    OnlyAppends allowed
      (spamAttempts sendFn start tftpEscape resetWatchStart attempts attempt) := by
  induction attempts generalizing attempt with
  | zero =>
      exact onlyAppends_bind (onlyAppends_look _) (fun _ => onlyAppends_pure _)
  | succ attempts ih =>
      refine onlyAppends_bind (hsend _) (fun _ => ?_)
      refine onlyAppends_bind (onlyAppends_forever (fun _ => ?_) ()) (fun verdict => ?_)
      · refine onlyAppends_bind (onlyAppends_raiseIfReset _) (fun _ => ?_)
        refine onlyAppends_bind (onlyAppends_look _) (fun haystack => ?_)
        refine onlyAppends_ite (onlyAppends_pure _) ?_
        refine onlyAppends_ite (onlyAppends_pure _) ?_
        refine onlyAppends_bind onlyAppends_late (fun expired => ?_)
        refine onlyAppends_ite (onlyAppends_pure _) ?_
        exact onlyAppends_bind (onlyAppends_readOnce hreceived) (fun _ => onlyAppends_pure _)
      · cases verdict with
        | some result =>
            exact onlyAppends_pure result
        | none =>
            exact ih _

end Appends

theorem upToPrompt_received (chunk : Text) : UpToPrompt (.received chunk) := rfl

theorem upToPrompt_sendEnter (logSend : Bool) :
    OnlyAppends UpToPrompt (sendEnter logSend) :=
  onlyAppends_sendRaw rfl (Or.inl rfl)

theorem upToPrompt_sendCtrlC (logSend : Bool) :
    OnlyAppends UpToPrompt (sendCtrlC logSend) :=
  onlyAppends_sendRaw rfl (Or.inr (Or.inl rfl))

theorem upToPrompt_setResetAsserted (asserted : Bool) :
    OnlyAppends UpToPrompt (setResetAsserted asserted) := by
  refine onlyAppends_bind (onlyAppends_look _) (fun line => ?_)
  cases line with
  | none =>
      exact onlyAppends_pure ()
  | some _ =>
      exact onlyAppends_bind (onlyAppends_look _) (fun _ => onlyAppends_event (fun _ => rfl) rfl)

theorem upToPrompt_openPort : OnlyAppends UpToPrompt openPort :=
  onlyAppends_bind (upToPrompt_setResetAsserted false) (fun _ =>
    onlyAppends_bind (onlyAppends_event (fun _ => rfl) rfl)
      (fun _ => upToPrompt_setResetAsserted false))

theorem upToPrompt_pulseReset (description : Text) :
    OnlyAppends UpToPrompt (pulseReset description) := by
  refine onlyAppends_bind (onlyAppends_look _) (fun line => ?_)
  cases line with
  | none =>
      exact onlyAppends_pure ()
  | some _ =>
      exact onlyAppends_bind (onlyAppends_note rfl) (fun _ =>
        onlyAppends_bind (upToPrompt_setResetAsserted true)
          (fun _ => upToPrompt_setResetAsserted false))

theorem upToPrompt_waitForResetMarker : OnlyAppends UpToPrompt waitForResetMarker := by
  refine onlyAppends_bind (onlyAppends_look _) (fun line => ?_)
  refine onlyAppends_bind (onlyAppends_note rfl) (fun _ => ?_)
  refine onlyAppends_bind (onlyAppends_look _) (fun start => ?_)
  refine onlyAppends_forever (fun _ => ?_) ()
  refine onlyAppends_bind (onlyAppends_findResetMarker start) (fun position => ?_)
  cases position with
  | some position =>
      exact onlyAppends_bind (onlyAppends_note rfl) (fun _ => onlyAppends_pure _)
  | none =>
      refine onlyAppends_bind onlyAppends_late (fun expired => ?_)
      refine onlyAppends_ite (onlyAppends_raise _) ?_
      exact onlyAppends_bind (onlyAppends_readOnce upToPrompt_received)
        (fun _ => onlyAppends_pure _)

theorem upToPrompt_cycleStart (args : Args) (restartFrom : Option Nat) :
    OnlyAppends UpToPrompt (cycleStart args restartFrom) := by
  cases restartFrom with
  | none =>
      exact onlyAppends_bind (onlyAppends_when (upToPrompt_pulseReset _))
        (fun _ => upToPrompt_waitForResetMarker)
  | some position =>
      exact onlyAppends_bind (onlyAppends_note rfl) (fun _ => onlyAppends_pure _)

theorem upToPrompt_stopUbootAutoboot (args : Args) (start : Nat) :
    OnlyAppends UpToPrompt (stopUbootAutoboot args start) := by
  have hspam := fun attempts watch => onlyAppends_spamAttempts upToPrompt_sendEnter
    upToPrompt_received start true watch attempts 0
  refine onlyAppends_bind (onlyAppends_note rfl) (fun _ => ?_)
  refine onlyAppends_bind (onlyAppends_look _) (fun watch => ?_)
  refine onlyAppends_bind (hspam 1 (some watch)) (fun first => ?_)
  refine onlyAppends_ite (onlyAppends_pure _) ?_
  exact onlyAppends_bind (onlyAppends_note rfl) (fun _ => hspam _ _)

theorem upToPrompt_interruptOrGiveUp {σ : Type} (args : Args) (start : Nat) :
    OnlyAppends UpToPrompt (interruptOrGiveUp args start : Serial (Pass σ Unit)) := by
  have hspam := fun watch => onlyAppends_spamAttempts upToPrompt_sendCtrlC
    upToPrompt_received start false watch args.ubootCtrlCAttempts 0
  refine onlyAppends_bind ?_ (fun stopped => onlyAppends_ite (onlyAppends_pure _)
    (onlyAppends_raise _))
  refine onlyAppends_bind (onlyAppends_note rfl) (fun _ => ?_)
  refine onlyAppends_bind (onlyAppends_note rfl) (fun _ => ?_)
  exact onlyAppends_bind (onlyAppends_look _) (fun watch => hspam (some watch))

theorem upToPrompt_promptPassEnd (args : Args) (haystack : Text) (s : PromptState) :
    OnlyAppends UpToPrompt (promptPassEnd args haystack s) := by
  refine onlyAppends_bind (onlyAppends_when (onlyAppends_note rfl)) (fun _ => ?_)
  refine onlyAppends_bind onlyAppends_late (fun expired => ?_)
  refine onlyAppends_ite (onlyAppends_raise _) ?_
  exact onlyAppends_bind (onlyAppends_readOnce upToPrompt_received)
    (fun _ => onlyAppends_pure _)

theorem upToPrompt_promptPassPrompt (args : Args) (haystack : Text) (s : PromptState) :
    OnlyAppends UpToPrompt (promptPassPrompt args haystack s) := by
  refine onlyAppends_ite (onlyAppends_ite ?_ (onlyAppends_pure _)) ?_
  · exact onlyAppends_bind (onlyAppends_note rfl) (fun _ =>
      onlyAppends_bind (onlyAppends_look _) (fun _ => onlyAppends_pure _))
  refine onlyAppends_ite (upToPrompt_interruptOrGiveUp _ _) (onlyAppends_ite ?_ ?_)
  · refine onlyAppends_bind (upToPrompt_stopUbootAutoboot _ _) (fun stopped => ?_)
    refine onlyAppends_ite (onlyAppends_pure _) ?_
    refine onlyAppends_bind (onlyAppends_look _) (fun later => ?_)
    exact onlyAppends_ite (upToPrompt_interruptOrGiveUp _ _) (upToPrompt_promptPassEnd _ _ _)
  · exact upToPrompt_promptPassEnd _ _ _

theorem upToPrompt_waitForUBootPrompt (args : Args) (start : Nat) :
    OnlyAppends UpToPrompt (waitForUBootPrompt args start) := by
  refine onlyAppends_bind (onlyAppends_note rfl) (fun _ => ?_)
  refine onlyAppends_forever (fun s => ?_) _
  refine onlyAppends_bind (onlyAppends_look _) (fun haystack => ?_)
  refine onlyAppends_bind (onlyAppends_reportLines (fun _ => rfl) _ _) (fun emitted => ?_)
  refine onlyAppends_bind (onlyAppends_when (onlyAppends_note rfl)) (fun _ => ?_)
  refine onlyAppends_ite ?_ (upToPrompt_promptPassPrompt _ _ _)
  refine onlyAppends_bind (onlyAppends_sendLine rfl (Or.inr (Or.inr rfl))) (fun _ => ?_)
  exact onlyAppends_bind (onlyAppends_look _) (fun _ => onlyAppends_pure _)

/-- A kind of events with all that happens while a command is waited for. -/
structure AllowsReplies (allowed : Event -> Prop) : Prop where
  quiet : forall event, UpToPrompt event -> allowed event
  sendLog : forall command, allowed (.message .log (chars "Serial send: " ++ command))
  returned : forall command output, allowed (.returned command output)

structure AllowsCommands (allowed : Event -> Prop) : Prop extends AllowsReplies allowed where
  line : forall command, allowed (.sent (command ++ ['\r']))

theorem allows_idle : AllowsReplies Idle where
  quiet := fun _ => idle_of_upToPrompt
  sendLog := fun _ => rfl
  returned := fun _ _ => rfl

section Replies

variable {allowed : Event -> Prop}

theorem allowed_commandPass (h : AllowsReplies allowed) (args : Args) (command : Text)
    (start watch : Nat) (s : CommandState) :
    OnlyAppends allowed (commandPass args command start watch s) := by
  refine onlyAppends_bind (onlyAppends_raiseIfReset _) (fun _ => ?_)
  refine onlyAppends_bind (onlyAppends_look _) (fun haystack => ?_)
  refine onlyAppends_bind (onlyAppends_reportLines (fun _ => h.quiet _ rfl) _ _)
    (fun emitted => ?_)
  refine onlyAppends_ite ?_ ?_
  · exact onlyAppends_bind (onlyAppends_event (fun _ => rfl) (h.returned _ _))
      (fun _ => onlyAppends_pure _)
  refine onlyAppends_bind onlyAppends_late (fun expired => ?_)
  refine onlyAppends_ite (onlyAppends_raise _) ?_
  refine onlyAppends_bind (onlyAppends_readOnce (fun _ => h.quiet _ rfl)) (fun chunk => ?_)
  refine onlyAppends_bind (onlyAppends_ite onlyAppends_late (onlyAppends_pure _))
    (fun idle => ?_)
  refine onlyAppends_ite (onlyAppends_ite ?_ (onlyAppends_ite ?_ (onlyAppends_raise _)))
    (onlyAppends_pure _)
  · refine onlyAppends_bind (onlyAppends_note (h.quiet _ rfl)) (fun _ => ?_)
    exact onlyAppends_bind (onlyAppends_sendRaw (h.sendLog _) (h.quiet _ (Or.inl rfl)))
      (fun _ => onlyAppends_pure _)
  · exact onlyAppends_bind (onlyAppends_note (h.quiet _ rfl)) (fun _ =>
      onlyAppends_bind (onlyAppends_event (fun _ => rfl) (h.returned _ _))
        (fun _ => onlyAppends_pure _))

theorem allowed_bootPass (h : AllowsReplies allowed) (args : Args) (start watch : Nat)
    (s : BootState) : OnlyAppends allowed (bootPass args start watch s) := by
  refine onlyAppends_bind (onlyAppends_raiseIfReset _) (fun _ => ?_)
  refine onlyAppends_bind (onlyAppends_look _) (fun haystack => ?_)
  refine onlyAppends_bind (onlyAppends_reportLines (fun _ => h.quiet _ rfl) _ _)
    (fun emitted => ?_)
  refine onlyAppends_ite (onlyAppends_raise _) (onlyAppends_ite (onlyAppends_raise _)
    (onlyAppends_ite ?_ ?_))
  · exact onlyAppends_bind (onlyAppends_note (h.quiet _ rfl)) (fun _ => onlyAppends_pure _)
  refine onlyAppends_bind (onlyAppends_readOnce (fun _ => h.quiet _ rfl)) (fun chunk => ?_)
  refine onlyAppends_bind (onlyAppends_ite onlyAppends_late (onlyAppends_pure _))
    (fun silent => ?_)
  exact onlyAppends_ite (onlyAppends_raise _) (onlyAppends_pure _)

end Replies

section Commands

variable {allowed : Event -> Prop}

theorem allowed_runUbootCommand (h : AllowsCommands allowed) (args : Args)
    (command : Text) : OnlyAppends allowed (runUbootCommand args command) := by
  refine onlyAppends_bind (onlyAppends_look _) (fun start => ?_)
  refine onlyAppends_bind (onlyAppends_look _) (fun watch => ?_)
  refine onlyAppends_bind (onlyAppends_sendLine (h.sendLog _) (h.line _)) (fun _ => ?_)
  exact onlyAppends_forever
    (allowed_commandPass h.toAllowsReplies args command start watch) _

theorem allowed_runCommands (h : AllowsCommands allowed) (args : Args)
    (commands : List Text) : OnlyAppends allowed (runCommands args commands) := by
  induction commands with
  | nil =>
      exact onlyAppends_pure ()
  | cons command rest ih =>
      refine onlyAppends_bind (allowed_runUbootCommand h args command) (fun output => ?_)
      exact onlyAppends_bind (onlyAppends_when (onlyAppends_note (h.quiet _ rfl)))
        (fun _ => ih)

theorem upToPrompt_logResetControl (args : Args) :
    OnlyAppends UpToPrompt (logResetControl args) := by
  unfold logResetControl
  cases args.resetLine with
  | none =>
      exact onlyAppends_pure ()
  | some line =>
      cases line with
      | rts =>
          exact onlyAppends_note rfl
      | dtr =>
          exact onlyAppends_note rfl

theorem allowed_main (h : AllowsCommands allowed)
    (hstart : forall boot, allowed (.message .log (startingLinux boot))) (args : Args) :
    OnlyAppends allowed (main args) := by
  have hquiet : forall {α : Type} {script : Serial α}, OnlyAppends UpToPrompt script ->
      OnlyAppends allowed script := fun hscript => hscript.weaken h.quiet
  refine onlyAppends_ite (onlyAppends_raise _) ?_
  cases loadCommandsFile args.commandsFile args.commandsText with
  | error text =>
      exact onlyAppends_raise _
  | ok commands =>
      refine onlyAppends_bind (hquiet upToPrompt_openPort) (fun _ => ?_)
      refine onlyAppends_bind (onlyAppends_note (h.quiet _ rfl)) (fun _ => ?_)
      refine onlyAppends_bind (onlyAppends_note (h.quiet _ rfl)) (fun _ => ?_)
      refine onlyAppends_bind (hquiet (upToPrompt_logResetControl args)) (fun _ => ?_)
      refine onlyAppends_bind (onlyAppends_forever (fun restartFrom => ?_) none)
        (fun _ => onlyAppends_pure 0)
      refine onlyAppends_bind (onlyAppends_attempt ?_) (fun result => ?_)
      · refine onlyAppends_bind (hquiet (upToPrompt_cycleStart args restartFrom))
          (fun start => ?_)
        refine onlyAppends_bind (hquiet (upToPrompt_waitForUBootPrompt args start))
          (fun _ => ?_)
        refine onlyAppends_bind (onlyAppends_note (h.quiet _ rfl)) (fun _ => ?_)
        refine onlyAppends_bind (allowed_runCommands h args commands.dropLast) (fun _ => ?_)
        refine onlyAppends_bind (onlyAppends_look _) (fun begin => ?_)
        refine onlyAppends_bind (onlyAppends_look _) (fun watch => ?_)
        refine onlyAppends_bind (onlyAppends_sendLine (h.sendLog _) (h.line _)) (fun _ => ?_)
        refine onlyAppends_bind (onlyAppends_note (hstart _)) (fun _ => ?_)
        exact onlyAppends_forever (allowed_bootPass h.toAllowsReplies args begin watch) _
      · cases result with
        | ok value =>
            exact onlyAppends_pure _
        | error position =>
            exact onlyAppends_bind (onlyAppends_note (h.quiet _ rfl))
              (fun _ => onlyAppends_pure _)

end Commands

/-!
# The whole run
-/

def FollowsCommands (commands : List Text) (before : List Event) (boot : Text) : Prop :=
  boot = commands.getLastD [] ∧
    exists earlier ran, before = earlier ++ acquired :: ran ++ sendEvents boot ∧
      Ran commands.dropLast ran

/-- A command of the list is sent, behind all those in front of it in its cycle. -/
def SentInTurn (commands : List Text) (before : List Event) (data : Text) : Prop :=
  exists done command rest earlier ran, commands = done ++ command :: rest ∧
    data = command ++ ['\r'] ∧
    before = earlier ++ acquired :: ran ++
      [Event.message .log (chars "Serial send: " ++ command)] ∧ Ran done ran

/-- What is sent, and every start of Linux, has its place among the commands of a cycle. -/
structure Covered (commands : List Text) (trace : List Event) : Prop where
  lines : forall before data after, trace = before ++ Event.sent data :: after ->
    NoCommand data ∨ SentInTurn commands before data
  starts : forall before boot after,
    trace = before ++ Event.message .log (startingLinux boot) :: after ->
      FollowsCommands commands before boot

theorem announcesLinux_startingLinux (boot : Text) :
    announcesLinux (.message .log (startingLinux boot)) = true := by
  show (chars "Starting Linux with: ").isPrefixOf (startingLinux boot) = true
  rw [List.isPrefixOf_iff_prefix]
  exact List.prefix_append _ _

theorem covered_append {commands : List Text} {trace : List Event} {event : Event}
    (h : Covered commands trace)
    (hline : forall data, event = .sent data -> NoCommand data ∨ SentInTurn commands trace data)
    (hstart : forall boot, event = .message .log (startingLinux boot) ->
      FollowsCommands commands trace boot) :
    Covered commands (trace ++ [event]) := by
  constructor
  · intro before data after hsplit
    rcases append_singleton_split hsplit with ⟨rest, _, htrace⟩ | ⟨_, htrace, hsame⟩
    · exact h.lines before data rest htrace
    · rw [← htrace]
      exact hline data hsame
  · intro before boot after hsplit
    rcases append_singleton_split hsplit with ⟨rest, _, htrace⟩ | ⟨_, htrace, hsame⟩
    · exact h.starts before boot rest htrace
    · rw [← htrace]
      exact hstart boot hsame

theorem covered_idle {commands : List Text} {trace : List Event} {event : Event}
    (h : Covered commands trace) (hevent : Idle event) :
    Covered commands (trace ++ [event]) := by
  refine covered_append h ?_ ?_
  · rintro data rfl
    exact Or.inl hevent
  · rintro boot rfl
    have hannounces : announcesLinux (.message .log (startingLinux boot)) = false := hevent
    rw [announcesLinux_startingLinux] at hannounces
    cases hannounces

theorem idle_covered {α : Type} {commands : List Text} {script : Serial α}
    (h : OnlyAppends Idle script) : Keeps (fun w => Covered commands w.trace) script :=
  h.keeps (Covered commands) (fun _ _ hevent hcovered => covered_idle hcovered hevent)

theorem upToPrompt_covered {α : Type} {commands : List Text} {script : Serial α}
    (h : OnlyAppends UpToPrompt script) :
    Keeps (fun w => Covered commands w.trace) script :=
  idle_covered (h.weaken (fun _ => idle_of_upToPrompt))

def RanSoFar (commands done : List Text) (w : SerialConsole) : Prop :=
  Covered commands w.trace ∧ Behind done w.trace

theorem keeps_mark {holds : SerialConsole -> Prop} : Keeps holds mark := keeps_look _

theorem sendLine_covered {commands done : List Text} {command : Text}
    (hnext : NoCommand (command ++ ['\r']) ∨ exists rest, commands = done ++ command :: rest) :
    Ensures (RanSoFar commands done) (sendLine command)
      (fun w => Covered commands w.trace) := by
  rintro w ⟨hcovered, earlier, ran, htrace, hran⟩
  have hlogged : Covered commands
      (w.trace ++ [Event.message .log (chars "Serial send: " ++ command)]) :=
    covered_idle hcovered rfl
  unfold sendLine
  split
  case isTrue =>
      refine covered_append hlogged ?_ (fun _ hevent => by cases hevent)
      intro data hdata
      rw [← Event.sent.inj hdata]
      rcases hnext with hnone | ⟨rest, hcommands⟩
      · exact Or.inl hnone
      · refine Or.inr ⟨done, command, rest, earlier, ran, hcommands, rfl, ?_, hran⟩
        rw [← htrace]
  case isFalse =>
      exact hcovered

theorem runUbootCommand_covered {commands done rest : List Text} {command : Text}
    (args : Args) (hcommands : commands = done ++ command :: rest) :
    Ensures (RanSoFar commands done) (runUbootCommand args command)
      (fun w => Covered commands w.trace) := by
  have hline : Ensures (RanSoFar commands done) (sendLine command)
      (fun w => Covered commands w.trace) := sendLine_covered (Or.inr ⟨rest, hcommands⟩)
  refine ensures_bind_keeps keeps_mark (fun _ h => h.left) (fun start => ?_)
  refine ensures_bind_keeps keeps_mark (fun _ h => h.left) (fun watch => ?_)
  refine ensures_bind hline hline.returns (fun _ => ?_)
  exact idle_covered (onlyAppends_forever
    (allowed_commandPass allows_idle args command start watch) _)

theorem overflowWarning_covered {commands done : List Text} (output : Text) :
    Meets (fun w => Covered commands w.trace)
      (fun w => Covered commands w.trace ∧ BehindWarning done w.trace)
      (Script.when (envOverflowRe.found output) (warn overflowWarning))
      (fun _ => RanSoFar commands done) := by
  have hwarned : Keeps (fun w => Covered commands w.trace)
      (Script.when (envOverflowRe.found output) (warn overflowWarning)) :=
    idle_covered (onlyAppends_when (onlyAppends_note rfl))
  refine Ensures.meets (ensures_weaken hwarned (fun _ h => h.left) (fun _ h => h)) ?_
  exact returns_weaken (overflowWarning_behind output) (fun _ h => h.right) (fun _ _ h => h)

theorem runCommands_covered {commands : List Text} (args : Args) (todo : List Text)
    {done rest : List Text} (hcommands : commands = done ++ (todo ++ rest)) :
    Meets (fun w => Covered commands w.trace) (RanSoFar commands done)
      (runCommands args todo) (fun _ => RanSoFar commands (done ++ todo)) := by
  induction todo generalizing done with
  | nil =>
      rw [List.append_nil]
      exact meets_pure (fun _ h => h.left) (fun _ h => h)
  | cons command todo ih =>
      have hrest : commands = (done ++ [command]) ++ (todo ++ rest) := by
        rw [hcommands, List.append_assoc]
        rfl
      rw [List.append_cons done command todo]
      refine meets_bind (Ensures.meets (runUbootCommand_covered args hcommands) ?_)
        (fun output => meets_bind (overflowWarning_covered output) (fun _ => ih hrest))
      exact returns_weaken (runUbootCommand_behind args command) (fun _ h => h.right)
        (fun _ _ h => h)

theorem monitorLinuxBoot_covered (args : Args) (commands : List Text) :
    Ensures (RanSoFar commands commands.dropLast)
      (monitorLinuxBoot args (commands.getLastD [])) (fun w => Covered commands w.trace) := by
  have hnext : NoCommand (commands.getLastD [] ++ ['\r']) ∨
      exists rest, commands = commands.dropLast ++ commands.getLastD [] :: rest := by
    rcases List.eq_nil_or_concat commands with rfl | ⟨front, last, rfl⟩
    · exact Or.inl (Or.inl rfl)
    · rw [List.concat_eq_append, List.dropLast_concat, List.getLastD_concat]
      exact Or.inr ⟨[], rfl⟩
  have hline : Ensures (RanSoFar commands commands.dropLast)
      (sendLine (commands.getLastD [])) (fun w => Covered commands w.trace) :=
    sendLine_covered hnext
  have hsent : Returns (RanSoFar commands commands.dropLast)
      (sendLine (commands.getLastD []))
      (fun _ w => exists earlier ran, w.trace = earlier ++ acquired :: ran ++
        sendEvents (commands.getLastD []) ∧ Ran commands.dropLast ran) := by
    rintro w value u ⟨_, earlier, ran, htrace, hran⟩ hrun
    refine ⟨earlier, ran, ?_, hran⟩
    unfold sendLine at hrun
    split at hrun
    case isTrue =>
        rw [← (Prod.mk.inj hrun).right]
        show (w.trace ++ [_]) ++ [_] = _
        rw [htrace, List.append_assoc]
        rfl
    case isFalse =>
        cases (Prod.mk.inj hrun).left
  refine ensures_bind_keeps keeps_mark (fun _ h => h.left) (fun start => ?_)
  refine ensures_bind_keeps keeps_mark (fun _ h => h.left) (fun watch => ?_)
  refine ensures_bind hline (Ensures.meets hline hsent).returns (fun _ => ?_)
  rintro w ⟨hcovered, earlier, ran, htrace, hran⟩
  have hloop : Keeps (fun w => Covered commands w.trace)
      (forever (bootPass args start watch) { emittedErrors := [], sawLinuxOutput := false }) :=
    idle_covered (onlyAppends_forever (allowed_bootPass allows_idle args start watch) _)
  refine hloop _ ?_
  show Covered commands (w.trace ++ [_])
  refine covered_append hcovered (fun _ hevent => by cases hevent) ?_
  intro boot hboot
  have hsame : commands.getLastD [] = boot :=
    List.append_cancel_left (Event.message.inj hboot).right
  refine ⟨hsame.symm, earlier, ran, ?_, hran⟩
  rw [htrace, hsame]

theorem netboot_covered (args : Args) (commands : List Text) :
    Keeps (fun w => Covered commands w.trace) (netboot args commands) := by
  intro w hcovered
  have hnext : RanSoFar commands [] (withEvents w [acquired]) :=
    ⟨covered_idle hcovered rfl, w.trace, [], rfl, .nil⟩
  rcases List.dropLast_prefix commands with ⟨last, hlast⟩
  have hcommands := runCommands_covered args commands.dropLast
    (show commands = [] ++ (commands.dropLast ++ last) from hlast.symm)
  exact ensures_bind hcommands.ensures hcommands.returns
    (fun _ => monitorLinuxBoot_covered args commands) _ hnext

theorem main_covered (args : Args) {commands : List Text}
    (hload : loadCommandsFile args.commandsFile args.commandsText = .ok commands) :
    Keeps (fun w => Covered commands w.trace) (main args) := by
  unfold main
  rw [hload]
  dsimp only
  split
  · exact keeps_raise _
  refine keeps_bind (upToPrompt_covered upToPrompt_openPort) (fun _ => ?_)
  refine keeps_bind (upToPrompt_covered (onlyAppends_note rfl)) (fun _ => ?_)
  refine keeps_bind (upToPrompt_covered (onlyAppends_note rfl)) (fun _ => ?_)
  refine keeps_bind (upToPrompt_covered (upToPrompt_logResetControl args)) (fun _ => ?_)
  refine keeps_bind (keeps_loop (fun restartFrom => ?_) none) (fun _ => keeps_pure 0)
  refine keeps_bind (keeps_attempt ?_) (fun result => ?_)
  · refine keeps_bind (upToPrompt_covered (upToPrompt_cycleStart args restartFrom))
      (fun start => ?_)
    refine keeps_bind (upToPrompt_covered (upToPrompt_waitForUBootPrompt args start))
      (fun _ => ?_)
    exact netboot_covered args commands
  · cases result with
    | ok value =>
        exact keeps_pure _
    | error position =>
        exact keeps_bind (upToPrompt_covered (onlyAppends_note rfl)) (fun _ => keeps_pure _)

/--
In every run, a command of the file is sent only behind those in front of it, each of
which was sent once in the same cycle, in order, and has ended; so the last one is sent,
and Linux starts, only behind all the others.
-/
theorem bootm_follows_commands {args : Args} {answers : Nat -> Answer} {limit : Nat}
    {commands : List Text}
    (hload : loadCommandsFile args.commandsFile args.commandsText = .ok commands) :
    (forall before data after,
      mainTrace args answers limit = before ++ Event.sent data :: after ->
        NoCommand data ∨ SentInTurn commands before data) ∧
      forall before boot after, mainTrace args answers limit =
          before ++ Event.message .log (startingLinux boot) :: after ->
        FollowsCommands commands before boot := by
  have hstart : Covered commands (startConsole args answers limit).trace := by
    constructor
    · intro before data after hsplit
      cases before with
      | nil =>
          cases hsplit
      | cons event before =>
          cases hsplit
    · intro before boot after hsplit
      cases before with
      | nil =>
          cases hsplit
      | cons event before =>
          cases hsplit
  have hmain := main_covered args hload _ hstart
  exact ⟨hmain.lines, hmain.starts⟩

def bootArgs : Args where
  autoReset := false
  resetLine := none
  resetActiveState := true
  displayName := chars "ttyUSB0"
  ubootEnterAttempts := 10
  ubootCtrlCAttempts := 10
  commandsFile := chars "uboot-netboot.txt"
  commandsText := some (chars "# netboot\ntftpboot 100000 uImage\nbootm 100000\n")
  portText := chars "/dev/ttyUSB0 at 9600 baud"
  pulseText := []
  hangText := chars "10"
  letter := fun _ => false

/-- A board that comes to its prompt, and answers `tftpboot` with the given text. -/
def bootAnswers (download : String) (n : Nat) : Answer :=
  (readAnswers "Init MPU/MSR/FPU/Segment registers.\r\n" ++ readAnswers "=> " ++
    readAnswers download).getD n lateAnswer

def bootTrace (download : String) : List Event :=
  mainTrace bootArgs (bootAnswers download) 4

theorem bootm_follows_commands_sample :
    SentInTurn [chars "tftpboot 100000 uImage", chars "bootm 100000"]
        ((bootTrace "\r\nBytes transferred = 4 (4 hex)\r\n=> ").take 14)
        (chars "bootm 100000\r") ∧
      FollowsCommands [chars "tftpboot 100000 uImage", chars "bootm 100000"]
        ((bootTrace "\r\nBytes transferred = 4 (4 hex)\r\n=> ").take 15)
        (chars "bootm 100000") := by
  have hload : loadCommandsFile bootArgs.commandsFile bootArgs.commandsText =
      .ok [chars "tftpboot 100000 uImage", chars "bootm 100000"] := by
    decide +kernel
  have hsent : (bootTrace "\r\nBytes transferred = 4 (4 hex)\r\n=> ")[14]? =
      some (Event.sent (chars "bootm 100000\r")) := by
    decide +kernel
  have hboot : (bootTrace "\r\nBytes transferred = 4 (4 hex)\r\n=> ")[15]? =
      some (Event.message .log (startingLinux (chars "bootm 100000"))) := by
    decide +kernel
  constructor
  · rcases (bootm_follows_commands hload).left _ _ _ (split_at hsent) with hnone | hturn
    · rcases hnone with hnone | hnone | hnone <;> cases hnone
    · exact hturn
  · exact (bootm_follows_commands hload).right _ _ _ (split_at hboot)

def noTransfer (events : List Event) : Bool :=
  events.all (fun
    | .returned _ output => !tftpTransferredRe.found output
    | _ => true)

/-- A failed download does not keep the script from booting. -/
theorem bootm_without_download :
    ¬ (forall (args : Args) (answers : Nat -> Answer) (limit : Nat) (commands : List Text)
        (before after : List Event) (boot : Text),
      loadCommandsFile args.commandsFile args.commandsText = .ok commands ->
      mainTrace args answers limit =
          before ++ Event.message .log (startingLinux boot) :: after ->
        forall command, command ∈ commands.dropLast ->
          exists output, .returned command output ∈ before ∧
            (chars "setenv " <+: command -> ¬ chars "## Error" <:+: output) ∧
              (isTftpCommand command = true -> tftpTransferredRe.found output = true)) := by
  intro hclaim
  have hload : loadCommandsFile bootArgs.commandsFile bootArgs.commandsText =
      .ok [chars "tftpboot 100000 uImage", chars "bootm 100000"] := by
    decide +kernel
  have hboot : (bootTrace
      "\r\nTFTP error: 'File not found' (1)\r\nNot retrying...\r\n=> ")[16]? =
      some (Event.message .log (startingLinux (chars "bootm 100000"))) := by
    decide +kernel
  have hnone : noTransfer (bootTrace
      "\r\nTFTP error: 'File not found' (1)\r\nNot retrying...\r\n=> ") = true := by
    decide +kernel
  rcases hclaim _ _ _ _ _ _ _ hload (split_at hboot) (chars "tftpboot 100000 uImage")
    (List.mem_singleton_self _) with ⟨output, hreturned, _, htransfer⟩
  have hfound := htransfer (by decide)
  have hfree := List.all_eq_true.mp hnone _ (List.mem_of_mem_take hreturned)
  dsimp only at hfree
  rw [hfound] at hfree
  cases hfree

end Linux
end Console
end Bab750
