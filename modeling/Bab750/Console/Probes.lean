import Bab750.Command.Run
import Bab750.Console.LinuxBoot

/-!
# A bare `<Enter>` at the prompt

Both scripts send `<Enter>` on its own: to stop the autoboot, and to get a prompt
behind a download.  `main_loop` takes an empty line for a repetition of the command it
remembers.  What is remembered, and which line a key belongs to, is followed through
every run of a script against a board that may be reset at any time.
-/

namespace Bab750
namespace Console

open Foundation
open Script
open Command

variable {S : Type}

/-!
# Calls of commands
-/

abbrev Calls := List (List (List Byte))

def recordedEntry (entry : Entry S) : Entry (S × Calls) where
  toManual := entry.toManual
  maxargs := entry.maxargs
  repeatable := entry.repeatable
  isBootd := entry.isBootd
  cmd := fun s flags argv =>
    let result := entry.cmd s.1 flags argv
    { output := result.output
      state := (result.state, s.2 ++ [argv])
      rc := result.rc
      interrupted := result.interrupted }

def recordedSet (set : CommandSet S) : CommandSet (S × Calls) where
  table := set.table.map recordedEntry
  getenv := fun s => set.getenv s.1
  front := set.front

/-- `main_loop` over a set of commands. -/
def recordedShell (set : CommandSet S) : Shell (S × Calls) :=
  commandShell (recordedSet set)

/-!
# Keys on their way
-/

/-- A key, and whether it is an `<Enter>` that was sent on its own. -/
structure Key where
  char : Char
  probe : Bool

def keysOf (data : Text) : List Key := data.map (fun c => ⟨c, data == ['\r']⟩)

/-- The board with the keys on their way to it, and the text on its way to the script. -/
structure Wire (S : Type) where
  board : Board S
  keys : List Key
  outgoing : Text

/--
The events of a script against the board, with the states of `main_loop` in which it
has read a probe.  A reset takes the board back to its start; keys may get lost there.
-/
inductive Probing (shell : Shell S) :
    List Event -> List (Monitor S) -> Wire S -> Prop where
  | start : Probing shell [] [] ⟨.starting, [], []⟩
  | print {events : List Event} {probes : List (Monitor S)} {keys : List Key}
      {outgoing : Text} (text : Text)
      (before : Probing shell events probes ⟨.starting, keys, outgoing⟩) :
      Probing shell events probes ⟨.starting, keys, outgoing ++ text⟩
  | takeKey {events : List Event} {probes : List (Monitor S)} {keys : List Key}
      {outgoing : Text} (key : Key)
      (before : Probing shell events probes ⟨.starting, key :: keys, outgoing⟩) :
      Probing shell events probes ⟨.starting, keys, outgoing⟩
  | enter {events : List Event} {probes : List (Monitor S)} {keys : List Key}
      {outgoing : Text} (s : S)
      (before : Probing shell events probes ⟨.starting, keys, outgoing⟩) :
      Probing shell events probes
        ⟨.monitor (firstMonitor s), keys, outgoing ++ puts prompt⟩
  | read {events : List Event} {probes : List (Monitor S)} {keys : List Key}
      {outgoing : Text} (m : Monitor S) (key : Key)
      (before : Probing shell events probes ⟨.monitor m, key :: keys, outgoing⟩) :
      Probing shell events (if key.probe then probes ++ [m] else probes)
        ⟨.monitor (mainLoopChar shell m key.char).2, keys,
          outgoing ++ (mainLoopChar shell m key.char).1⟩
  | reset {events : List Event} {probes : List (Monitor S)} {keys : List Key}
      {outgoing : Text} (m : Monitor S)
      (before : Probing shell events probes ⟨.monitor m, keys, outgoing⟩) :
      Probing shell events probes ⟨.starting, keys, outgoing⟩
  | sent {events : List Event} {probes : List (Monitor S)} {wire : Wire S} (data : Text)
      (before : Probing shell events probes wire) :
      Probing shell (events ++ [Event.sent data]) probes
        { wire with keys := wire.keys ++ keysOf data }
  | received {events : List Event} {probes : List (Monitor S)} {board : Board S}
      {keys : List Key} {outgoing : Text} (chunk : Text)
      (before : Probing shell events probes ⟨board, keys, chunk ++ outgoing⟩) :
      Probing shell (events ++ [Event.received chunk]) probes ⟨board, keys, outgoing⟩
  | other {events : List Event} {probes : List (Monitor S)} {wire : Wire S} (event : Event)
      (notSent : forall data, event ≠ .sent data)
      (notReceived : forall chunk, event ≠ .received chunk)
      (before : Probing shell events probes wire) :
      Probing shell (events ++ [event]) probes wire

/-!
# Every send ends its line
-/

/-- The keys that end a line of `readline`, one way or the other. -/
def endsLine (c : Char) : Bool := c == '\r' || c == '\x03'

def ClosesLine : Event -> Prop
  | .sent data => exists front c, data = front ++ [c] ∧ endsLine c = true
  | _ => True

theorem closesLine_enter (line : Text) : ClosesLine (.sent (line ++ ['\r'])) :=
  ⟨line, '\r', rfl, rfl⟩

theorem permits_closesLine : PermitsAll ClosesLine where
  received := fun _ => trivial
  message := fun _ _ => trivial
  resetLine := fun _ => trivial
  reopened := trivial
  enter := closesLine_enter []
  ctrlC := ⟨[], '\x03', rfl, rfl⟩
  answer := closesLine_enter ['C']
  load := closesLine_enter ['l']
  line := closesLine_enter
  returned := fun _ _ => trivial

theorem closesLine_of_upToPrompt {event : Event} (h : Linux.UpToPrompt event) :
    ClosesLine event := by
  cases event with
  | sent data =>
      rcases h with rfl | rfl | rfl
      · exact permits_closesLine.enter
      · exact permits_closesLine.ctrlC
      · exact permits_closesLine.answer
  | received chunk =>
      exact trivial
  | message level text =>
      exact trivial
  | resetLine active =>
      exact trivial
  | reopened =>
      exact trivial
  | returned command output =>
      exact trivial

theorem allows_closesLine : Linux.AllowsCommands ClosesLine where
  quiet := fun _ => closesLine_of_upToPrompt
  sendLog := fun _ => trivial
  line := closesLine_enter
  returned := fun _ _ => trivial

def ScriptEvents (events : List Event) : Prop :=
  (exists args answers limit, events <+: mainTrace args answers limit) ∨
    exists args answers limit, events <+: Linux.mainTrace args answers limit

theorem closesLine_all {α : Type} {script : Serial α} (h : OnlyAppends ClosesLine script)
    {w : SerialConsole} (hw : w.trace = []) :
    forall event, event ∈ (script w).2.trace -> ClosesLine event := by
  have hkeeps := h.keeps (fun trace => forall event, event ∈ trace -> ClosesLine event) (by
    intro trace event hevent htrace other hother
    rcases List.mem_append.mp hother with hold | hnew
    · exact htrace other hold
    · rw [List.mem_singleton.mp hnew]
      exact hevent)
  refine hkeeps w ?_
  intro event hevent
  rw [hw] at hevent
  exact absurd hevent List.not_mem_nil

theorem ScriptEvents.closesLine {events : List Event} (h : ScriptEvents events) :
    forall event, event ∈ events -> ClosesLine event := by
  intro event hevent
  rcases h with ⟨args, answers, limit, hstart⟩ | ⟨args, answers, limit, hstart⟩
  · exact closesLine_all (permitted_main permits_closesLine args) rfl event
      (hstart.subset hevent)
  · exact closesLine_all (Linux.allowed_main allows_closesLine (fun _ => trivial) args) rfl
      event (hstart.subset hevent)

/-!
# Probes meet an empty line
-/

/-- Every probe follows the end of a line; `fresh` says that the line is empty now. -/
def Settles : Bool -> List Key -> Prop
  | fresh, [] => fresh = true
  | fresh, key :: keys => (key.probe = true -> fresh = true) ∧
      Settles (endsLine key.char) keys

theorem Settles.fresh {fresh : Bool} {keys : List Key} (h : Settles fresh keys) :
    Settles true keys := by
  cases keys with
  | nil =>
      rfl
  | cons key keys =>
      exact ⟨fun _ => rfl, h.right⟩

theorem settles_unprobed {fresh : Bool} (front : Text) {c : Char} (hc : endsLine c = true) :
    Settles fresh ((front ++ [c]).map (fun d => ⟨d, false⟩)) := by
  induction front generalizing fresh with
  | nil =>
      refine ⟨fun h => Bool.noConfusion h, hc⟩
  | cons d front ih =>
      exact ⟨fun h => Bool.noConfusion h, ih⟩

theorem settles_keysOf {data : Text} (h : ClosesLine (.sent data)) :
    Settles true (keysOf data) := by
  rcases h with ⟨front, c, rfl, hc⟩
  unfold keysOf
  cases hprobe : front ++ [c] == ['\r'] with
  | true =>
      rw [eq_of_beq hprobe]
      exact ⟨fun _ => rfl, rfl⟩
  | false =>
      exact settles_unprobed front hc

theorem Settles.append {fresh : Bool} {keys more : List Key} (h : Settles fresh keys)
    (hmore : Settles true more) : Settles fresh (keys ++ more) := by
  induction keys generalizing fresh with
  | nil =>
      rw [show fresh = true from h]
      exact hmore
  | cons key keys ih =>
      exact ⟨h.left, ih h.right⟩

/-- The line of the board, as far as it is known to be empty. -/
def LineFresh (fresh : Bool) : Board S -> Prop
  | .starting => True
  | .monitor m => fresh = true -> m.line = []

/-- The keys on their way fit the line that the board is reading. -/
def Aligned (wire : Wire S) : Prop :=
  exists fresh, LineFresh fresh wire.board ∧ Settles fresh wire.keys

theorem mainLoopChar_endsLine (shell : Shell S) (m : Monitor S) {c : Char}
    (h : endsLine c = true) : (mainLoopChar shell m c).2.line = [] := by
  have hc : c = '\r' ∨ c = '\x03' := by
    simpa [endsLine] using h
  rcases hc with rfl | rfl
  · rfl
  · rfl

/-!
# What is remembered
-/

/-- Only a line that has run with success and may be repeated is remembered. -/
def Remembers (m : Monitor S) : Prop :=
  m.lastcommand = [] ∨ (m.ran ≠ [] ∧ 0 < m.rc)

theorem remembers_keepCommand {m : Monitor S} (hran : m.ran ≠ []) (line : Text)
    (h : m.lastcommand = keepCommand m.rc line) : Remembers m := by
  unfold keepCommand at h
  split at h
  case isTrue =>
      exact Or.inl h
  case isFalse hrc =>
      exact Or.inr ⟨hran, by omega⟩

theorem remembers_mainLoopChar (shell : Shell S) {m : Monitor S} (h : Remembers m)
    (c : Char) : Remembers (mainLoopChar shell m c).2 := by
  unfold mainLoopChar
  split
  · exact h
  · unfold Remembers keepCommand
    dsimp only
    split
    · exact Or.inl rfl
    · exact h
  · refine remembers_keepCommand ?_ _ rfl
    exact List.append_ne_nil_of_right_ne_nil _ (List.cons_ne_nil _ _)

/--
Nothing is to be repeated: no line has run since the start of `main_loop`, or the last
one failed, was interrupted, or may not be repeated.
-/
def Forgotten (m : Monitor S) : Prop := m.ran = [] ∨ m.rc <= 0

theorem Remembers.lastcommand {m : Monitor S} (h : Remembers m) (hforgotten : Forgotten m) :
    m.lastcommand = [] := by
  rcases h with hempty | ⟨hran, hrc⟩
  · exact hempty
  · rcases hforgotten with hnone | hfailed
    · exact absurd hnone hran
    · omega

/-!
# Every run
-/

/-- What is known of a state of `main_loop` that reads a probe. -/
def ProbeState (m : Monitor S) : Prop := m.line = [] ∧ Remembers m

structure ProbeInvariant (probes : List (Monitor S)) (wire : Wire S) : Prop where
  aligned : Aligned wire
  remembers : forall m, wire.board = .monitor m -> Remembers m
  probed : forall m, m ∈ probes -> ProbeState m

theorem probing_invariant {shell : Shell S} {events : List Event}
    {probes : List (Monitor S)} {wire : Wire S}
    (hrun : Probing shell events probes wire)
    (hevents : forall event, event ∈ events -> ClosesLine event) :
    ProbeInvariant probes wire := by
  induction hrun with
  | start =>
      exact ⟨⟨true, trivial, rfl⟩, nofun, fun m h => absurd h List.not_mem_nil⟩
  | print text before ih =>
      have h := ih hevents
      exact ⟨h.aligned, nofun, h.probed⟩
  | takeKey key before ih =>
      have h := ih hevents
      rcases h.aligned with ⟨fresh, _, hsettles⟩
      exact ⟨⟨_, trivial, hsettles.right⟩, nofun, h.probed⟩
  | enter s before ih =>
      have h := ih hevents
      rcases h.aligned with ⟨fresh, _, hsettles⟩
      refine ⟨⟨true, fun _ => rfl, hsettles.fresh⟩, ?_, h.probed⟩
      intro m hm
      cases hm
      exact Or.inl rfl
  | read m key before ih =>
      have h := ih hevents
      rcases h.aligned with ⟨fresh, hline, hsettles⟩
      have hremembers := h.remembers m rfl
      refine ⟨⟨_, fun hends => mainLoopChar_endsLine _ m hends, hsettles.right⟩, ?_, ?_⟩
      · intro other hother
        cases hother
        exact remembers_mainLoopChar _ hremembers _
      · intro other hother
        split at hother
        case isTrue hprobe =>
            rcases List.mem_append.mp hother with hold | hnew
            · exact h.probed other hold
            · rw [List.mem_singleton.mp hnew]
              exact ⟨hline (hsettles.left hprobe), hremembers⟩
        case isFalse =>
            exact h.probed other hother
  | reset m before ih =>
      have h := ih hevents
      rcases h.aligned with ⟨fresh, _, hsettles⟩
      exact ⟨⟨fresh, trivial, hsettles⟩, nofun, h.probed⟩
  | sent data before ih =>
      have h := ih (fun event hevent => hevents event (List.mem_append_left _ hevent))
      have hdata := hevents (.sent data) (List.mem_append_right _ (List.mem_singleton_self _))
      rcases h.aligned with ⟨fresh, hline, hsettles⟩
      exact ⟨⟨fresh, hline, hsettles.append (settles_keysOf hdata)⟩, h.remembers, h.probed⟩
  | received chunk before ih =>
      have h := ih (fun event hevent => hevents event (List.mem_append_left _ hevent))
      exact ⟨h.aligned, h.remembers, h.probed⟩
  | other event notSent notReceived before ih =>
      exact ih (fun event hevent => hevents event (List.mem_append_left _ hevent))

/-- The processing of a probe is that of an empty line, and it calls no command. -/
def RunsNothing (set : CommandSet S) (m : Monitor (S × Calls)) : Prop :=
  m.line = [] ∧ (mainLoopChar (recordedShell set) m '\r').2.shell.2 = m.shell.2

/--
Each bare `<Enter>` that `main_loop` reads in a run of either script is an empty line,
and it calls no command when nothing is to be repeated.
-/
theorem probes_run_nothing (set : CommandSet S) {events : List Event}
    {probes : List (Monitor (S × Calls))} {wire : Wire (S × Calls)}
    (hscript : ScriptEvents events)
    (hrun : Probing (recordedShell set) events probes wire)
    {m : Monitor (S × Calls)} (hprobe : m ∈ probes) (hforgotten : Forgotten m) :
    RunsNothing set m := by
  rcases (probing_invariant hrun hscript.closesLine).probed m hprobe with
    ⟨hline, hremembers⟩
  refine ⟨hline, ?_⟩
  have hnothing := hremembers.lastcommand hforgotten
  unfold mainLoopChar
  simp only [readlineChar, hline, hnothing]
  rfl

/-!
# The nudge behind a download
-/

theorem Probing.quiet {shell : Shell S} {events more : List Event}
    {probes : List (Monitor S)} {wire : Wire S} (h : Probing shell events probes wire)
    (hmore : forall event, event ∈ more -> exists level text, event = .message level text) :
    Probing shell (events ++ more) probes wire := by
  induction more generalizing events with
  | nil =>
      rw [List.append_nil]
      exact h
  | cons event more ih =>
      rw [List.append_cons]
      refine ih ?_ (fun other hother => hmore other (List.mem_cons_of_mem _ hother))
      rcases hmore event List.mem_cons_self with ⟨level, text, rfl⟩
      exact Probing.other _ (fun data hdata => by cases hdata)
        (fun chunk hchunk => by cases hchunk) h

theorem Probing.line {shell : Shell S} {events : List Event} {probes : List (Monitor S)}
    {m : Monitor S} {text outgoing : Text}
    (h : Probing shell events probes
      ⟨.monitor m, text.map (fun c => ⟨c, false⟩), outgoing⟩) :
    Probing shell events probes
      ⟨.monitor (mainLoop shell m text).2, [], outgoing ++ (mainLoop shell m text).1⟩ := by
  induction text generalizing m outgoing with
  | nil =>
      show Probing shell events probes ⟨.monitor m, [], outgoing ++ []⟩
      rw [List.append_nil]
      exact h
  | cons c text ih =>
      have hread := ih (Probing.read m ⟨c, false⟩ h)
      rw [List.append_assoc] at hread
      exact hread

/-- A board whose only command reports a transfer, and returns a code. -/
def transferSet (rc : Int) : CommandSet Unit where
  table := [{
    name := ascii "tftpboot"
    usage := chars "boot image via network using TFTP protocol"
    help := chars "[loadAddress] [[hostIPaddr:]bootfilename]"
    maxargs := 3
    repeatable := true
    isBootd := false
    cmd := fun s _ _ =>
      { output := chars "Bytes transferred = 4 (4 hex)\n"
        state := s
        rc := rc
        interrupted := false } }]
  getenv := fun _ _ => none
  front := 0#8

def transferCommand : Text := chars "tftpboot 100000 uImage"

def bootText : Text := chars "Init MPU/MSR/FPU/Segment registers.\r\n"

def transferText : Text :=
  chars "tftpboot 100000 uImage\r\r\nBytes transferred = 4 (4 hex)\r\n"

/-- The prompt comes only after the script has waited for too long. -/
def nudgeAnswers (n : Nat) : Answer :=
  ([⟨[], false⟩, ⟨bootText, false⟩, ⟨[], false⟩, ⟨prompt, false⟩, ⟨[], false⟩,
    ⟨transferText, false⟩, ⟨[], false⟩, ⟨[], false⟩] : List Answer).getD n lateAnswer

def nudgeEvents : List Event :=
  [Event.reopened] ++
    [Event.message .log (chars "Connected to /dev/ttyUSB0 at 9600 baud"),
      .message .log (chars "Using U-Boot command file: uboot-netboot.txt"),
      .message .message (resetRequest none)] ++
    [Event.received bootText] ++
    [Event.message .log (chars "Reset marker detected"),
      .message .log (chars "Waiting for U-Boot prompt after RESET")] ++
    [Event.received prompt] ++
    [Linux.acquired, .message .log (chars "Serial send: tftpboot 100000 uImage")] ++
    [Event.sent (transferCommand ++ ['\r'])] ++
    [Event.received transferText] ++ [Event.message .log Linux.nudgeLog] ++ [Event.sent ['\r']]

theorem nudgeEvents_script : ScriptEvents nudgeEvents := by
  refine Or.inr ⟨Linux.bootArgs, nudgeAnswers, 4, ?_⟩
  decide +kernel

/-- `main_loop` behind the download. -/
def transferred (rc : Int) : Monitor (Unit × Calls) :=
  (mainLoop (recordedShell (transferSet rc)) (firstMonitor ((), []))
    (transferCommand ++ ['\r'])).2

theorem nudge_read (rc : Int)
    (hreply : (mainLoop (recordedShell (transferSet rc)) (firstMonitor ((), []))
      (transferCommand ++ ['\r'])).1 = transferText ++ prompt) :
    exists wire, Probing (recordedShell (transferSet rc)) nudgeEvents [transferred rc]
      wire := by
  have hopened : Probing (recordedShell (transferSet rc)) _ []
      ⟨.starting, [], [] ++ (bootText ++ [])⟩ :=
    Probing.print _ (Probing.quiet (Probing.other .reopened nofun nofun .start)
      (by simp : forall event, event ∈ [
        Event.message .log (chars "Connected to /dev/ttyUSB0 at 9600 baud"),
        .message .log (chars "Using U-Boot command file: uboot-netboot.txt"),
        .message .message (resetRequest none)] -> _))
  have hbooted : Probing (recordedShell (transferSet rc)) _ []
      ⟨.monitor (firstMonitor ((), [])), [], prompt ++ []⟩ :=
    Probing.enter _ (Probing.quiet (Probing.received bootText hopened)
      (by simp : forall event, event ∈ [
        Event.message .log (chars "Reset marker detected"),
        .message .log (chars "Waiting for U-Boot prompt after RESET")] -> _))
  have hsent : Probing (recordedShell (transferSet rc)) _ []
      ⟨.monitor (firstMonitor ((), [])),
        (transferCommand ++ ['\r']).map (fun c => ⟨c, false⟩), []⟩ :=
    Probing.sent (transferCommand ++ ['\r'])
      (Probing.quiet (Probing.received prompt hbooted)
        (by simp [Linux.acquired] : forall event, event ∈ [
          Linux.acquired, .message .log (chars "Serial send: tftpboot 100000 uImage")] -> _))
  have hran := Probing.line hsent
  rw [List.nil_append, hreply] at hran
  have hnudged : Probing (recordedShell (transferSet rc)) nudgeEvents []
      ⟨.monitor (transferred rc), [⟨'\r', true⟩], prompt⟩ :=
    Probing.sent ['\r'] (Probing.quiet (Probing.received transferText hran)
      (by simp : forall event, event ∈ [Event.message .log Linux.nudgeLog] -> _))
  exact ⟨_, Probing.read (transferred rc) ⟨'\r', true⟩ hnudged⟩

theorem probes_run_nothing_failed :
    transferred 1 ∈ [transferred 1] ∧ RunsNothing (transferSet 1) (transferred 1) := by
  rcases nudge_read 1 (by decide +kernel) with ⟨wire, hrun⟩
  have hmem : transferred 1 ∈ [transferred 1] := List.mem_singleton_self _
  have hforgotten : Forgotten (transferred 1) := Or.inr (by decide +kernel)
  exact ⟨hmem, probes_run_nothing (transferSet 1) nudgeEvents_script hrun hmem hforgotten⟩

/-- A nudge at the prompt behind a download that went well starts the download again. -/
theorem probe_runs_tftpboot :
    ¬ (forall (set : CommandSet Unit) (events : List Event)
        (probes : List (Monitor (Unit × Calls))) (wire : Wire (Unit × Calls)),
      ScriptEvents events -> Probing (recordedShell set) events probes wire ->
        forall m, m ∈ probes -> RunsNothing set m) := by
  intro hclaim
  rcases nudge_read 0 (by decide +kernel) with ⟨wire, hrun⟩
  have hnothing := hclaim (transferSet 0) nudgeEvents [transferred 0] wire
    nudgeEvents_script hrun (transferred 0) (List.mem_singleton_self _)
  have hcalled : (mainLoopChar (recordedShell (transferSet 0)) (transferred 0)
      '\r').2.shell.2 ≠ (transferred 0).shell.2 := by
    decide +kernel
  exact hcalled hnothing.right

end Console
end Bab750
