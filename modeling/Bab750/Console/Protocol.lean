import Bab750.Console.Download
import Bab750.Console.Monitor

/-!
# Commands and prompts

The script sends a command and takes the next prompt for its end.  When nothing is
on its way in either direction, that prompt is the one behind the command, and
script and board go in step.  A prompt that is still on its way when a command is
sent puts them out of step.
-/

namespace Bab750
namespace Console

open Foundation
open Script

variable {S : Type}

/-!
# Conservation
-/

def sentText (events : List Event) : Text :=
  events.flatMap (fun
    | .sent data => data
    | _ => [])

theorem sentText_append (first second : List Event) :
    sentText (first ++ second) = sentText first ++ sentText second :=
  List.flatMap_append

/-- A board at its prompt, with nothing on its way. -/
def settledLink (m : Monitor S) : Link S := ⟨.monitor m, [], []⟩

/-- The board and its queues for what was sent and received so far. -/
structure Conserved (shell : Shell S) (m₀ : Monitor S) (events : List Event)
    (link : Link S) (m : Monitor S) : Prop where
  board : link.board = .monitor m
  output : (mainLoop shell m₀ (sentText events)).1 =
    receivedText events ++ (link.outgoing ++ (mainLoop shell m link.incoming).1)
  monitor : (mainLoop shell m₀ (sentText events)).2 = (mainLoop shell m link.incoming).2
  incoming : link.incoming <:+ sentText events

theorem mainLoop_append (shell : Shell S) (m : Monitor S) (first second : Text) :
    mainLoop shell m (first ++ second) =
      ((mainLoop shell m first).1 ++ (mainLoop shell (mainLoop shell m first).2 second).1,
        (mainLoop shell (mainLoop shell m first).2 second).2) :=
  feed_append m first second

theorem mainLoop_cons (shell : Shell S) (m : Monitor S) (c : Char) (rest : Text) :
    mainLoop shell m (c :: rest) =
      ((mainLoopChar shell m c).1 ++ (mainLoop shell (mainLoopChar shell m c).2 rest).1,
        (mainLoop shell (mainLoopChar shell m c).2 rest).2) :=
  rfl

theorem served_conserved {shell : Shell S} {m₀ : Monitor S} {events : List Event}
    {link : Link S} (h : Served shell (settledLink m₀) events link) :
    exists m, Conserved shell m₀ events link m := by
  induction h with
  | nil =>
      exact ⟨m₀, rfl, rfl, rfl, List.suffix_refl _⟩
  | board before step ih =>
      rcases ih with ⟨m, hboard, houtput, hmonitor, hincoming⟩
      cases step with
      | print text incoming outgoing =>
          cases hboard
      | takeKey c incoming outgoing =>
          cases hboard
      | enter s incoming outgoing =>
          cases hboard
      | read current c incoming outgoing =>
          have hsame : current = m := Board.monitor.inj hboard
          subst hsame
          rw [mainLoop_cons] at houtput hmonitor
          refine ⟨(mainLoopChar shell current c).2, rfl, ?_, hmonitor, ?_⟩
          · rw [houtput]
            dsimp only
            rw [List.append_assoc]
          · exact (List.suffix_cons c incoming).trans hincoming
  | sent data before ih =>
      rename_i events link
      rcases ih with ⟨m, hboard, houtput, hmonitor, hincoming⟩
      have hsent : sentText (events ++ [Event.sent data]) = sentText events ++ data := by
        rw [sentText_append]
        exact congrArg _ (List.append_nil data)
      have hreceived : receivedText (events ++ [Event.sent data]) = receivedText events := by
        rw [receivedText_append]
        exact List.append_nil _
      refine ⟨m, hboard, ?_, ?_, ?_⟩
      · rw [hsent, hreceived, mainLoop_append, houtput, hmonitor, mainLoop_append]
        simp only [List.append_assoc]
      · rw [hsent, mainLoop_append, hmonitor, mainLoop_append]
      · rw [hsent]
        rcases hincoming with ⟨front, hfront⟩
        exact ⟨front, by rw [← List.append_assoc, hfront]⟩
  | received chunk before ih =>
      rename_i events board incoming outgoing
      rcases ih with ⟨m, hboard, houtput, hmonitor, hincoming⟩
      have hsent : sentText (events ++ [Event.received chunk]) = sentText events := by
        rw [sentText_append]
        exact List.append_nil _
      have hreceived : receivedText (events ++ [Event.received chunk]) =
          receivedText events ++ chunk := by
        rw [receivedText_append]
        exact congrArg _ (List.append_nil chunk)
      refine ⟨m, hboard, ?_, ?_, ?_⟩
      · rw [hsent, hreceived, houtput]
        simp only [List.append_assoc]
      · rw [hsent]
        exact hmonitor
      · rw [hsent]
        exact hincoming
  | other event notSent notReceived before ih =>
      rename_i events link
      rcases ih with ⟨m, hboard, houtput, hmonitor, hincoming⟩
      have hsent : sentText (events ++ [event]) = sentText events := by
        rw [sentText_append]
        cases event with
        | sent data =>
            exact absurd rfl (notSent data)
        | _ =>
            exact List.append_nil _
      have hreceived : receivedText (events ++ [event]) = receivedText events := by
        rw [receivedText_append]
        cases event with
        | received chunk =>
            exact absurd rfl (notReceived chunk)
        | _ =>
            exact List.append_nil _
      refine ⟨m, hboard, ?_, ?_, ?_⟩
      · rw [hsent, hreceived]
        exact houtput
      · rw [hsent]
        exact hmonitor
      · rw [hsent]
        exact hincoming

theorem served_front {shell : Shell S} {start link : Link S} {first second : List Event}
    (h : Served shell start (first ++ second) link) :
    exists earlier, Served shell start first earlier := by
  generalize hevents : first ++ second = events at h
  induction h generalizing second with
  | nil =>
      rcases List.append_eq_nil_iff.mp hevents with ⟨rfl, _⟩
      exact ⟨start, .nil⟩
  | board before step ih =>
      exact ih hevents
  | sent data before ih =>
      rcases List.eq_nil_or_concat second with rfl | ⟨rest, last, rfl⟩
      · rw [List.append_nil] at hevents
        subst hevents
        exact ⟨_, .sent data before⟩
      · rw [List.concat_eq_append, ← List.append_assoc] at hevents
        exact ih (List.append_inj' hevents rfl).left
  | received chunk before ih =>
      rcases List.eq_nil_or_concat second with rfl | ⟨rest, last, rfl⟩
      · rw [List.append_nil] at hevents
        subst hevents
        exact ⟨_, .received chunk before⟩
      · rw [List.concat_eq_append, ← List.append_assoc] at hevents
        exact ih (List.append_inj' hevents rfl).left
  | other event notSent notReceived before ih =>
      rcases List.eq_nil_or_concat second with rfl | ⟨rest, last, rfl⟩
      · rw [List.append_nil] at hevents
        subst hevents
        exact ⟨_, .other event notSent notReceived before⟩
      · rw [List.concat_eq_append, ← List.append_assoc] at hevents
        exact ih (List.append_inj' hevents rfl).left

/-!
# One command line
-/

/-- A character that the command line takes as it is, and echoes. -/
def IsPlain (c : Char) : Prop := 32 <= c.toNat ∧ c.toNat < 127

instance (c : Char) : Decidable (IsPlain c) := inferInstanceAs (Decidable (_ ∧ _))

structure PlainCommand (command : Text) : Prop where
  chars : forall c, c ∈ command -> IsPlain c
  length : command.length <= cbSize - 2
  nonempty : command ≠ []

instance (command : Text) : Decidable (PlainCommand command) :=
  decidable_of_iff ((command.all (fun c => decide (IsPlain c)) = true ∧
      command.length <= cbSize - 2) ∧ command ≠ [])
    ⟨fun h => ⟨by simpa using h.1.1, h.1.2, h.2⟩,
      fun h => ⟨⟨by simpa using h.chars, h.length⟩, h.nonempty⟩⟩

theorem puts_plain {c : Char} (h : IsPlain c) : puts [c] = [c] := by
  unfold puts
  rw [List.flatMap_singleton, if_neg]
  rintro rfl
  exact absurd h (by decide)

theorem readlineChar_plain {c : Char} (h : IsPlain c) {line : Text} (col : Nat)
    (hroom : line.length < cbSize - 2) :
    readlineChar line col c = ([c], .typing (line ++ [c]) (col + 1)) := by
  have hother : forall d : Char, ¬ IsPlain d -> c ≠ d := by
    rintro d hd rfl
    exact hd h
  unfold readlineChar
  rw [if_neg (by
      rintro (hc | hc)
      · exact hother _ (by decide) hc
      · exact hother _ (by decide) hc),
    if_neg (hother _ (by decide)), if_neg (hother _ (by decide)),
    if_neg (hother _ (by decide)), if_neg (hother _ (by decide)),
    if_neg (by
      rintro (hc | hc)
      · exact hother _ (by decide) hc
      · exact hother _ (by decide) hc),
    if_pos hroom, if_neg (hother _ (by decide)), puts_plain h]

theorem mainLoop_typing (shell : Shell S) (m : Monitor S) (text : Text)
    (hplain : forall c, c ∈ text -> IsPlain c)
    (hroom : m.line.length + text.length <= cbSize - 2) :
    mainLoop shell m text =
      (text, { m with line := m.line ++ text, col := m.col + text.length }) := by
  induction text generalizing m with
  | nil =>
      show ([], m) = _
      rw [List.append_nil]
      rfl
  | cons c text ih =>
      have hc := hplain c List.mem_cons_self
      rw [List.length_cons] at hroom
      have hchar : mainLoopChar shell m c =
          ([c], { m with line := m.line ++ [c], col := m.col + 1 }) := by
        unfold mainLoopChar
        rw [readlineChar_plain hc m.col (by omega)]
      rw [mainLoop_cons, hchar, ih _ (fun d hd => hplain d (List.mem_cons_of_mem c hd))]
      · rw [List.append_assoc, List.length_cons, Nat.add_assoc, Nat.add_comm 1]
        rfl
      · show (m.line ++ [c]).length + text.length <= _
        rw [List.length_append, List.length_singleton]
        omega

def ranCommand (shell : Shell S) (m : Monitor S) (command : Text) : Monitor S where
  line := []
  col := prompt.length
  lastcommand := keepCommand (shell.runCommand m.shell command false).2.2 command
  rc := (shell.runCommand m.shell command false).2.2
  shell := (shell.runCommand m.shell command false).2.1
  ran := m.ran ++ [command]

/-- Echo, output, and prompt of a command that was typed at the prompt. -/
def replyText (shell : Shell S) (m : Monitor S) (command : Text) : Text :=
  command ++ (puts ['\r', '\n'] ++ puts (shell.runCommand m.shell command false).1 ++
    puts prompt)

theorem mainLoop_command (shell : Shell S) {m : Monitor S} (hline : m.line = [])
    {command : Text} (hplain : PlainCommand command) :
    mainLoop shell m (command ++ ['\r']) =
      (replyText shell m command, ranCommand shell m command) := by
  have hlength : command.length ≠ 0 := by
    intro h
    exact hplain.nonempty (List.length_eq_zero_iff.mp h)
  rw [mainLoop_append, mainLoop_typing shell m command hplain.chars
    (by rw [hline, List.length_nil, Nat.zero_add]; exact hplain.length)]
  have hchar : forall n : Monitor S, n.line = command -> n.shell = m.shell ->
      n.ran = m.ran ->
        mainLoopChar shell n '\r' = (puts ['\r', '\n'] ++
          puts (shell.runCommand m.shell command false).1 ++ puts prompt,
            ranCommand shell m command) := by
    intro n hn hshell hran
    unfold mainLoopChar readlineChar
    rw [if_pos (Or.inl rfl)]
    dsimp only
    rw [hn, hshell, hran, if_neg hlength]
    have hflag : (command.length == 0) = false := beq_eq_false_iff_ne.mpr hlength
    rw [hflag]
    rfl
  rw [mainLoop_cons, hchar]
  · show (command ++ (_ ++ []), _) = _
    rw [List.append_nil]
    rfl
  · show m.line ++ command = command
    rw [hline]
    rfl
  · rfl
  · rfl

/-!
# In step
-/

def commandLines (commands : List Text) : Text :=
  commands.flatMap (fun command => command ++ ['\r'])

def ranCommands (shell : Shell S) (m : Monitor S) (commands : List Text) : Monitor S :=
  commands.foldl (ranCommand shell) m

/-- The prompt is the first and only one, and it ends the text. -/
def PromptAtEnd (text : Text) : Prop :=
  forall front back, text = front ++ back -> promptRe.found front = true -> back = []

/--
The commands fit the command line, none of them prints a prompt in front of its end,
and all that is printed fits into the buffer of the script.
-/
structure Orderly (shell : Shell S) (m₀ : Monitor S) (buffered : Nat)
    (commands : List Text) : Prop where
  plain : forall command, command ∈ commands -> PlainCommand command
  quiet : forall front command back, commands = front ++ command :: back ->
    PromptAtEnd (replyText shell (ranCommands shell m₀ front) command)
  room : buffered + (mainLoop shell m₀ (commandLines commands)).1.length <= bufferLimit

theorem ranCommands_snoc (shell : Shell S) (m : Monitor S) (commands : List Text)
    (command : Text) :
    ranCommands shell m (commands ++ [command]) =
      ranCommand shell (ranCommands shell m commands) command :=
  List.foldl_append

theorem ranCommands_line (shell : Shell S) {m : Monitor S} (hline : m.line = [])
    (commands : List Text) : (ranCommands shell m commands).line = [] := by
  induction commands generalizing m with
  | nil =>
      exact hline
  | cons command rest ih =>
      exact ih rfl

theorem mainLoop_commands (shell : Shell S) {m : Monitor S} (hline : m.line = [])
    (commands : List Text) (hplain : forall command, command ∈ commands ->
      PlainCommand command) :
    (mainLoop shell m (commandLines commands)).2 = ranCommands shell m commands := by
  induction commands generalizing m with
  | nil =>
      rfl
  | cons command rest ih =>
      show (mainLoop shell m (command ++ ['\r'] ++ commandLines rest)).2 = _
      rw [mainLoop_append, mainLoop_command shell hline (hplain _ List.mem_cons_self)]
      exact ih rfl (fun other hother => hplain other (List.mem_cons_of_mem _ hother))

theorem mainLoop_commands_snoc (shell : Shell S) {m : Monitor S} (hline : m.line = [])
    (commands : List Text) (command : Text)
    (hplain : forall other, other ∈ commands ++ [command] -> PlainCommand other) :
    mainLoop shell m (commandLines (commands ++ [command])) =
      ((mainLoop shell m (commandLines commands)).1 ++
          replyText shell (ranCommands shell m commands) command,
        ranCommands shell m (commands ++ [command])) := by
  have hlines : commandLines (commands ++ [command]) =
      commandLines commands ++ (command ++ ['\r']) := by
    unfold commandLines
    rw [List.flatMap_append, List.flatMap_singleton]
  rw [hlines, mainLoop_append, mainLoop_commands shell hline commands
    (fun other hother => hplain other (List.mem_append_left _ hother)),
    mainLoop_command shell (ranCommands_line shell hline commands)
      (hplain command (List.mem_append_right _ (List.mem_singleton_self _))),
    ranCommands_snoc]

theorem ranCommands_ran (shell : Shell S) (m : Monitor S) (commands : List Text) :
    (ranCommands shell m commands).ran = m.ran ++ commands := by
  induction commands generalizing m with
  | nil =>
      exact (List.append_nil _).symm
  | cons command rest ih =>
      show (ranCommands shell (ranCommand shell m command) rest).ran = _
      rw [ih]
      show m.ran ++ [command] ++ rest = _
      rw [List.append_assoc]
      rfl

/-- The trace since `base`, and the buffer as long as nothing is cut off. -/
structure Since (base : SerialConsole) (rest : List Event) (w : SerialConsole) : Prop where
  trace : w.trace = base.trace ++ rest
  buffer : base.buffer.length + (receivedText rest).length <= bufferLimit ->
    w.buffer = base.buffer ++ receivedText rest

theorem receivedText_note {event : Event} (h : forall chunk, event ≠ .received chunk) :
    receivedText [event] = [] := by
  cases event with
  | received chunk =>
      exact absurd rfl (h chunk)
  | _ =>
      rfl

theorem since_note {base w : SerialConsole} {rest : List Event} (event : Event)
    (h : Since base rest w) (hevent : forall chunk, event ≠ .received chunk) :
    Since base (rest ++ [event]) { w with trace := w.trace ++ [event] } := by
  constructor
  · show w.trace ++ [event] = _
    rw [h.trace, List.append_assoc]
  · rw [receivedText_append, receivedText_note hevent, List.append_nil]
    exact h.buffer

theorem since_received {base w : SerialConsole} {rest : List Event} {chunk : Text}
    (h : Since base rest w) :
    Since base (rest ++ [Event.received chunk])
      { w with
        buffer := appendBuffer w.buffer chunk
        trace := w.trace ++ [Event.received chunk] } := by
  have htext : receivedText (rest ++ [Event.received chunk]) = receivedText rest ++ chunk := by
    rw [receivedText_append]
    exact congrArg _ (List.append_nil chunk)
  constructor
  · show w.trace ++ [_] = _
    rw [h.trace, List.append_assoc]
  · rw [htext, List.length_append]
    intro hroom
    have hbuffer := h.buffer (by omega)
    show appendBuffer w.buffer chunk = _
    unfold appendBuffer
    rw [hbuffer, if_neg]
    · rw [List.append_assoc]
    · rw [List.length_append, List.length_append]
      omega

section InStep

variable (shell : Shell S) (m₀ : Monitor S) (base : SerialConsole)

/--
The board has run exactly the commands that were sent, nothing is on its way, and the
output is what the last one printed, from its echo to its prompt.
-/
def PairedAt (before : List Event) (command output : Text) (link : Link S) : Prop :=
  exists commands, sentText before = commandLines (commands ++ [command]) ∧
    link = settledLink (ranCommands shell m₀ (commands ++ [command])) ∧
    (ranCommands shell m₀ (commands ++ [command])).ran = m₀.ran ++ (commands ++ [command]) ∧
    output = replyText shell (ranCommands shell m₀ commands) command

/-- So it is at every return since `base`. -/
def Paired (events : List Event) : Prop :=
  forall before command output after,
    events = base.trace ++ (before ++ Event.returned command output :: after) ->
      forall link, Served shell (settledLink m₀) before link ->
        PairedAt shell m₀ before command output link

/-- Some events leave the board at its prompt behind some commands. -/
structure Settled (commands : List Text) (events : List Event) : Prop where
  sent : sentText events = commandLines commands
  link : forall link, Served shell (settledLink m₀) events link ->
    link = settledLink (ranCommands shell m₀ commands)

structure Idle (commands : List Text) (w : SerialConsole) : Prop where
  paired : Paired shell m₀ base w.trace
  settled : exists rest, Since base rest w ∧ Settled shell m₀ commands rest

structure Busy (commands : List Text) (command : Text) (start : Nat)
    (w : SerialConsole) : Prop where
  paired : Paired shell m₀ base w.trace
  running : exists first rest, Since base (first ++ rest) w ∧
    Settled shell m₀ commands first ∧
    sentText (first ++ rest) = commandLines (commands ++ [command]) ∧
    (base.buffer.length + (receivedText first).length <= bufferLimit ->
      start = base.buffer.length + (receivedText first).length)

variable {shell m₀ base}

theorem paired_append {events rest : List Event} (event : Event)
    (h : Paired shell m₀ base events) (hrest : events = base.trace ++ rest)
    (hevent : forall command output, event = .returned command output ->
      forall link, Served shell (settledLink m₀) rest link ->
        PairedAt shell m₀ rest command output link) :
    Paired shell m₀ base (events ++ [event]) := by
  intro before command output after hsplit
  rw [hrest, List.append_assoc] at hsplit
  rcases append_singleton_split (List.append_cancel_left hsplit) with
    ⟨more, _, hmore⟩ | ⟨_, hbefore, hsame⟩
  · exact h before command output more (by rw [hrest, hmore])
  · rw [← hbefore]
    exact hevent command output hsame

theorem mainLoopChar_enter_ne_nil (m : Monitor S) :
    (mainLoopChar shell m '\r').1 ≠ [] := by
  unfold mainLoopChar readlineChar
  rw [if_pos (Or.inl rfl)]
  dsimp only
  intro h
  have hprompt := (List.append_eq_nil_iff.mp h).right
  exact absurd hprompt (by decide)

theorem incoming_eq_nil {m : Monitor S} {incoming : Text} {commands : List Text}
    (hsuffix : incoming <:+ commandLines commands)
    (hout : (mainLoop shell m incoming).1 = []) : incoming = [] := by
  rcases List.eq_nil_or_concat incoming with rfl | ⟨text, last, rfl⟩
  · rfl
  · exfalso
    rw [List.concat_eq_append] at hsuffix hout
    have hlast : last = '\r' := by
      rcases List.eq_nil_or_concat commands with rfl | ⟨front, command, rfl⟩
      · have hnil := List.suffix_nil.mp hsuffix
        exact absurd hnil (List.append_ne_nil_of_right_ne_nil _ (List.cons_ne_nil _ _))
      · rw [List.concat_eq_append] at hsuffix
        rcases hsuffix with ⟨before, hbefore⟩
        have hlines : commandLines (front ++ [command]) =
            commandLines front ++ command ++ ['\r'] := by
          unfold commandLines
          rw [List.flatMap_append, List.flatMap_singleton, List.append_assoc]
        rw [hlines, ← List.append_assoc] at hbefore
        exact List.singleton_inj.mp (List.append_inj' hbefore rfl).right
    subst hlast
    rw [mainLoop_append] at hout
    have hchar := (List.append_eq_nil_iff.mp hout).right
    rw [mainLoop_cons] at hchar
    exact mainLoopChar_enter_ne_nil _ (List.append_eq_nil_iff.mp hchar).left

theorem settled_of_complete {commands : List Text} {events : List Event} {link : Link S}
    (hline : m₀.line = []) (hplain : forall command, command ∈ commands ->
      PlainCommand command) (hsent : sentText events = commandLines commands)
    (hcomplete : (mainLoop shell m₀ (commandLines commands)).1 = receivedText events)
    (hlink : Served shell (settledLink m₀) events link) :
    link = settledLink (ranCommands shell m₀ commands) := by
  rcases served_conserved hlink with ⟨m, hboard, houtput, hmonitor, hincoming⟩
  rw [hsent] at houtput hmonitor hincoming
  rw [hcomplete] at houtput
  have hnothing := List.append_cancel_left ((List.append_nil _).trans houtput)
  rcases List.append_eq_nil_iff.mp hnothing.symm with ⟨houtgoing, hout⟩
  have hempty : link.incoming = [] := incoming_eq_nil hincoming hout
  rw [mainLoop_commands shell hline commands hplain, hempty] at hmonitor
  rcases link with ⟨board, incoming, outgoing⟩
  dsimp only at hboard houtgoing hempty
  rw [hboard, houtgoing, hempty, hmonitor]
  rfl

theorem complete_of_settled {commands : List Text} {events : List Event} {link : Link S}
    (h : Settled shell m₀ commands events)
    (hlink : Served shell (settledLink m₀) events link) :
    (mainLoop shell m₀ (commandLines commands)).1 = receivedText events := by
  rcases served_conserved hlink with ⟨m, _, houtput, _, _⟩
  rw [h.link link hlink, h.sent] at houtput
  rw [houtput]
  exact List.append_nil _

theorem Orderly.plain_front {commands back : List Text} {command : Text} {buffered : Nat}
    (h : Orderly shell m₀ buffered (commands ++ command :: back)) :
    forall other, other ∈ commands ++ [command] -> PlainCommand other := by
  intro other hother
  apply h.plain
  rw [List.append_cons]
  exact List.mem_append_left _ hother

theorem busy_settled {commands back : List Text} {command : Text} {start : Nat}
    {w : SerialConsole} {first rest : List Event} (hline : m₀.line = [])
    (horderly : Orderly shell m₀ base.buffer.length (commands ++ command :: back))
    (hsince : Since base (first ++ rest) w) (hfirst : Settled shell m₀ commands first)
    (hsent : sentText (first ++ rest) = commandLines (commands ++ [command]))
    (hstart : base.buffer.length + (receivedText first).length <= bufferLimit ->
      start = base.buffer.length + (receivedText first).length)
    (hprompt : promptRe.found (w.buffer.drop start) = true) {link : Link S}
    (hlink : Served shell (settledLink m₀) (first ++ rest) link) :
    link = settledLink (ranCommands shell m₀ (commands ++ [command])) ∧
      w.buffer.drop start = replyText shell (ranCommands shell m₀ commands) command := by
  have hplain := horderly.plain_front
  have hfront : (mainLoop shell m₀ (commandLines commands)).1 = receivedText first := by
    rcases served_front hlink with ⟨earlier, hearlier⟩
    exact complete_of_settled hfirst hearlier
  have hsnoc := mainLoop_commands_snoc shell hline commands command hplain
  -- the reply to the command is what has come in since, and what is on its way
  have hreply : exists more, replyText shell (ranCommands shell m₀ commands) command =
      receivedText rest ++ more := by
    rcases served_conserved hlink with ⟨m, _, houtput, _, _⟩
    rw [hsent, hsnoc, hfront, receivedText_append, List.append_assoc] at houtput
    exact ⟨_, List.append_cancel_left houtput⟩
  rcases hreply with ⟨more, hreply⟩
  have hroom : base.buffer.length + (receivedText first).length +
      (receivedText rest).length <= bufferLimit := by
    have hlines : commandLines (commands ++ command :: back) =
        commandLines (commands ++ [command]) ++ commandLines back := by
      unfold commandLines
      rw [List.append_cons, List.flatMap_append]
    have hall := horderly.room
    rw [hlines, mainLoop_append, hsnoc, hfront, hreply] at hall
    simp only [List.length_append] at hall
    omega
  have hbuffer := hsince.buffer (by
    rw [receivedText_append, List.length_append]
    omega)
  have hhay : w.buffer.drop start = receivedText rest := by
    rw [hbuffer, hstart (by omega), receivedText_append, ← List.append_assoc,
      ← List.length_append, List.drop_left]
  rw [hhay] at hprompt ⊢
  have hend := horderly.quiet commands command back rfl _ _ hreply hprompt
  rw [hend, List.append_nil] at hreply
  refine ⟨settled_of_complete hline hplain hsent ?_ hlink, hreply.symm⟩
  rw [hsnoc, hfront, hreply, receivedText_append]

theorem busy_readOnce {commands : List Text} {command : Text} {start : Nat} :
    Keeps (Busy shell m₀ base commands command start) readOnce := by
  rintro w ⟨hpaired, first, rest, hsince, hfirst, hsent, hstart⟩
  unfold readOnce
  show Busy shell m₀ base commands command start (Script.bind ask _ w).2
  unfold Script.bind ask
  dsimp only
  split
  · exact ⟨hpaired, first, rest, ⟨hsince.trace, hsince.buffer⟩, hfirst, hsent, hstart⟩
  · refine ⟨paired_append _ hpaired hsince.trace ?_, first,
      rest ++ [Event.received (w.answers w.asked).chunk], ?_, hfirst, ?_, hstart⟩
    · intro other output h
      cases h
    · rw [← List.append_assoc]
      exact since_received ⟨hsince.trace, hsince.buffer⟩
    · rw [← List.append_assoc, sentText_append, hsent]
      exact List.append_nil _

def ReturnedInStep (shell : Shell S) (m₀ : Monitor S) (base : SerialConsole)
    (commands : List Text) (command output : Text) (w : SerialConsole) : Prop :=
  Idle shell m₀ base (commands ++ [command]) w ∧
    forall rest link, w.trace = base.trace ++ rest ->
      Served shell (settledLink m₀) rest link ->
        output = replyText shell (ranCommands shell m₀ commands) command

theorem busy_returned {commands back : List Text} {command : Text} {start : Nat}
    (hline : m₀.line = [])
    (horderly : Orderly shell m₀ base.buffer.length (commands ++ command :: back))
    {w : SerialConsole} (h : Busy shell m₀ base commands command start w)
    (hprompt : promptRe.found (w.buffer.drop start) = true) :
    ReturnedInStep shell m₀ base commands command (w.buffer.drop start)
      { w with trace := w.trace ++ [Event.returned command (w.buffer.drop start)] } := by
  rcases h with ⟨hpaired, first, rest, hsince, hfirst, hsent, hstart⟩
  have hnote := since_note (.returned command (w.buffer.drop start)) hsince
    (by intro chunk h; cases h)
  have hnext : sentText (first ++ (rest ++ [Event.returned command (w.buffer.drop start)])) =
      commandLines (commands ++ [command]) := by
    rw [← List.append_assoc, sentText_append, hsent]
    exact List.append_nil _
  rw [List.append_assoc] at hnote
  refine ⟨⟨paired_append _ hpaired hsince.trace ?_, _, hnote, hnext, ?_⟩, ?_⟩
  · intro other output hother link hlink
    injection hother with hcommand houtput
    subst hcommand houtput
    rcases busy_settled hline horderly hsince hfirst hsent hstart hprompt hlink with
      ⟨hsettled, hreply⟩
    exact ⟨commands, hsent, hsettled, ranCommands_ran _ _ _, hreply⟩
  · intro link hlink
    exact (busy_settled hline horderly hnote hfirst hnext hstart hprompt hlink).left
  · intro other link hother hlink
    have hsame : other = first ++ (rest ++ [Event.returned command (w.buffer.drop start)]) :=
      List.append_cancel_left (hother.symm.trans hnote.trace)
    subst hsame
    exact (busy_settled hline horderly hnote hfirst hnext hstart hprompt hlink).right

theorem busy_late {commands : List Text} {command : Text} {start : Nat} :
    Keeps (Busy shell m₀ base commands command start) late := by
  rintro w ⟨hpaired, first, rest, hsince, hfirst, hsent, hstart⟩
  exact ⟨hpaired, first, rest, ⟨hsince.trace, hsince.buffer⟩, hfirst, hsent, hstart⟩

theorem commandPass_inStep {commands back : List Text} {command : Text} {start : Nat}
    (hline : m₀.line = [])
    (horderly : Orderly shell m₀ base.buffer.length (commands ++ command :: back))
    (state : Unit) :
    Returns (Busy shell m₀ base commands command start)
      (commandPass command start start state)
      (passHolds (fun _ => Busy shell m₀ base commands command start)
        (ReturnedInStep shell m₀ base commands command)) := by
  refine returns_bind (keeps_raiseIfReset _).returns (fun _ => ?_)
  have hlook : Returns (Busy shell m₀ base commands command start) (bufferSince start)
      (fun haystack w => Busy shell m₀ base commands command start w ∧
        haystack = w.buffer.drop start) :=
    returns_look (fun _ h => ⟨h, rfl⟩)
  refine returns_bind hlook (fun haystack => ?_)
  split
  case isTrue hprompt =>
      have hnote : Returns (fun w => Busy shell m₀ base commands command start w ∧
          haystack = w.buffer.drop start) (note (.returned command haystack))
          (fun _ => ReturnedInStep shell m₀ base commands command haystack) := by
        refine returns_change ?_
        rintro w ⟨hbusy, rfl⟩
        exact busy_returned hline horderly hbusy hprompt
      exact returns_bind hnote (fun _ => returns_pure (fun _ h => h))
  case isFalse hprompt =>
      refine returns_bind (returns_weaken busy_late.returns (fun _ h => h.left)
        (fun _ _ h => h)) (fun expired => ?_)
      split
      · exact returns_raise
      · exact returns_bind busy_readOnce.returns (fun _ => returns_pure (fun _ h => h))

theorem commandPass_paired {commands back : List Text} {command : Text} {start : Nat}
    (hline : m₀.line = [])
    (horderly : Orderly shell m₀ base.buffer.length (commands ++ command :: back))
    (state : Unit) :
    Ensures (Busy shell m₀ base commands command start)
      (commandPass command start start state)
      (fun w => Paired shell m₀ base w.trace) := by
  refine ensures_bind_keeps (keeps_raiseIfReset _) (fun _ h => h.paired) (fun _ => ?_)
  have hlook : Returns (Busy shell m₀ base commands command start) (bufferSince start)
      (fun haystack w => Busy shell m₀ base commands command start w ∧
        haystack = w.buffer.drop start) :=
    returns_look (fun _ h => ⟨h, rfl⟩)
  refine ensures_bind (fun _ h => h.paired) hlook (fun haystack => ?_)
  split
  case isTrue hprompt =>
      rintro w ⟨hbusy, rfl⟩
      exact (busy_returned hline horderly hbusy hprompt).left.paired
  case isFalse hprompt =>
      refine ensures_weaken (ensures_bind_keeps busy_late (fun _ h => h.paired)
        (fun expired => ?_)) (fun _ h => h.left) (fun _ h => h)
      split
      · exact fun _ h => h.paired
      · exact ensures_bind_keeps busy_readOnce (fun _ h => h.paired) (fun _ _ h => h.paired)

theorem sendLine_busy {commands : List Text} {command : Text} {w u : SerialConsole}
    (h : Idle shell m₀ base commands w) (hrun : sendLine command w = (.ok (), u)) :
    Busy shell m₀ base commands command w.buffer.length u := by
  rcases h with ⟨hpaired, rest, hsince, hsettled⟩
  unfold sendLine at hrun
  split at hrun
  case isTrue hascii =>
      rcases Prod.mk.inj hrun with ⟨_, rfl⟩
      have hlog := since_note (.message .log (chars "Serial send: " ++ command)) hsince
        (by intro chunk h; cases h)
      have hsent := since_note (.sent (command ++ ['\r'])) hlog
        (by intro chunk h; cases h)
      have hpaired' := paired_append (.message .log (chars "Serial send: " ++ command))
        hpaired hsince.trace (by intro other output h; cases h)
      refine ⟨paired_append _ hpaired' hlog.trace (by intro other output h; cases h),
        rest, [Event.message .log (chars "Serial send: " ++ command), .sent (command ++ ['\r'])],
        ?_, hsettled, ?_, ?_⟩
      · rw [List.append_assoc] at hsent
        exact hsent
      · rw [sentText_append, hsettled.sent]
        unfold commandLines
        rw [List.flatMap_append, List.flatMap_singleton]
        exact congrArg _ (List.append_nil _)
      · intro hroom
        rw [hsince.buffer hroom, List.length_append]
  case isFalse hascii =>
      cases (Prod.mk.inj hrun).left

def NoReturn (event : Event) : Prop := forall command output, event ≠ .returned command output

theorem noReturn_paired {α : Type} {script : Serial α} (h : OnlyAppends NoReturn script)
    {pre : SerialConsole -> Prop}
    (hpre : forall w, pre w -> Paired shell m₀ base w.trace ∧ base.trace <+: w.trace) :
    Ensures pre script (fun w => Paired shell m₀ base w.trace) := by
  have hkeeps := h.keeps (fun events => Paired shell m₀ base events ∧ base.trace <+: events) (by
    rintro events event hevent ⟨hpaired, rest, rfl⟩
    refine ⟨paired_append event hpaired rfl ?_, ?_⟩
    · intro command output hother
      exact absurd hother (hevent command output)
    · exact ⟨rest ++ [event], by rw [List.append_assoc]⟩)
  exact ensures_weaken hkeeps hpre (fun _ hw => hw.left)

theorem idle_front {commands : List Text} {w : SerialConsole}
    (h : Idle shell m₀ base commands w) :
    Paired shell m₀ base w.trace ∧ base.trace <+: w.trace := by
  rcases h with ⟨hpaired, rest, hsince, _⟩
  exact ⟨hpaired, rest, hsince.trace.symm⟩

theorem runUbootCommand_inStep {commands back : List Text} {command : Text}
    (hline : m₀.line = [])
    (horderly : Orderly shell m₀ base.buffer.length (commands ++ command :: back)) :
    Returns (Idle shell m₀ base commands) (runUbootCommand command)
      (ReturnedInStep shell m₀ base commands command) := by
  intro w output u hidle hrun
  rcases bind_eq_ok hrun with ⟨start, v, hmark, hrun⟩
  rcases Prod.mk.inj hmark with ⟨hstart, rfl⟩
  rcases bind_eq_ok hrun with ⟨watch, v, hmark, hrun⟩
  rcases Prod.mk.inj hmark with ⟨hwatch, rfl⟩
  have hsame : watch = start := Outcome.ok.inj (hwatch.symm.trans hstart)
  subst hsame
  rcases bind_eq_ok hrun with ⟨_, v, hsend, hloop⟩
  have hbusy := sendLine_busy hidle hsend
  rw [show w.buffer.length = watch from Outcome.ok.inj hstart] at hbusy
  exact returns_loop _ (commandPass_inStep hline horderly) () v output u hbusy hloop

theorem runUbootCommand_paired {commands back : List Text} {command : Text}
    (hline : m₀.line = [])
    (horderly : Orderly shell m₀ base.buffer.length (commands ++ command :: back)) :
    Ensures (Idle shell m₀ base commands) (runUbootCommand command)
      (fun w => Paired shell m₀ base w.trace) := by
  have hmark : Returns (Idle shell m₀ base commands) mark
      (fun start w => Idle shell m₀ base commands w ∧ start = w.buffer.length) :=
    returns_look (fun _ h => ⟨h, rfl⟩)
  refine ensures_bind (fun _ h => h.paired) hmark (fun start => ?_)
  have hwatch : Returns
      (fun w => Idle shell m₀ base commands w ∧ start = w.buffer.length) mark
      (fun watch w => (Idle shell m₀ base commands w ∧ start = w.buffer.length) ∧
        watch = start) :=
    returns_look (fun _ h => ⟨h, h.right.symm⟩)
  refine ensures_bind (fun _ h => h.left.paired) hwatch (fun watch => ?_)
  refine ensures_of_pure (fun hsame => ?_)
  subst hsame
  have hsend : Returns
      (fun w => Idle shell m₀ base commands w ∧ watch = w.buffer.length)
      (sendLine command) (fun _ => Busy shell m₀ base commands command watch) := by
    rintro w _ u ⟨hidle, rfl⟩ hrun
    exact sendLine_busy hidle hrun
  have hpaired : Ensures
      (fun w => Idle shell m₀ base commands w ∧ watch = w.buffer.length)
      (sendLine command) (fun w => Paired shell m₀ base w.trace) :=
    noReturn_paired (onlyAppends_sendLine (by intro other output h; cases h)
      (by intro other output h; cases h)) (fun _ h => idle_front h.left)
  refine ensures_bind hpaired hsend (fun _ => ?_)
  refine ensures_loop (commandPass_paired hline horderly) (fun state => ?_)
    (fun _ _ h => h.paired) ()
  refine returns_weaken (commandPass_inStep hline horderly state) (fun _ h => h) ?_
  intro pass w h
  cases pass with
  | again _ =>
      exact h
  | done output =>
      exact h.left.paired

theorem idle_message {commands : List Text} {w : SerialConsole} (hline : m₀.line = [])
    (hplain : forall command, command ∈ commands -> PlainCommand command)
    (h : Idle shell m₀ base commands w) (level : Level) (text : Text) :
    Idle shell m₀ base commands { w with trace := w.trace ++ [Event.message level text] } := by
  rcases h with ⟨hpaired, rest, hsince, hsettled⟩
  have hsent : sentText (rest ++ [Event.message level text]) = commandLines commands := by
    rw [sentText_append, hsettled.sent]
    exact List.append_nil _
  refine ⟨paired_append _ hpaired hsince.trace (by intro command output h; cases h), _,
    since_note _ hsince (by intro chunk h; cases h), hsent, ?_⟩
  intro link hlink
  rcases served_front hlink with ⟨earlier, hearlier⟩
  refine settled_of_complete hline hplain hsent ?_ hlink
  rw [complete_of_settled hsettled hearlier, receivedText_append]
  exact (List.append_nil _).symm

/-- The board can have behaved like this, and then the fact holds. -/
def WhenServed (shell : Shell S) (m₀ : Monitor S) (base : SerialConsole) (fact : Prop)
    (events : List Event) : Prop :=
  base.trace <+: events ∧ forall rest link, events = base.trace ++ rest ->
    Served shell (settledLink m₀) rest link -> fact

theorem whenServed_keeps {α : Type} {fact : Prop} {script : Serial α}
    (h : OnlyAppends (fun _ => True) script) :
    Keeps (fun w => WhenServed shell m₀ base fact w.trace) script := by
  refine h.keeps (WhenServed shell m₀ base fact) ?_
  rintro events event _ ⟨⟨rest, rfl⟩, hfact⟩
  refine ⟨⟨rest ++ [event], by rw [List.append_assoc]⟩, ?_⟩
  intro other link hother hlink
  rw [List.append_assoc] at hother
  have hsame := List.append_cancel_left hother
  subst hsame
  rcases served_front hlink with ⟨earlier, hearlier⟩
  exact hfact rest earlier rfl hearlier

theorem WhenServed.weaken {fact weaker : Prop} {events : List Event}
    (h : WhenServed shell m₀ base fact events) (hweak : fact -> weaker) :
    WhenServed shell m₀ base weaker events :=
  ⟨h.left, fun rest link hrest hlink => hweak (h.right rest link hrest hlink)⟩

theorem unserved_paired {α : Type} {script : Serial α}
    (h : OnlyAppends (fun _ => True) script) {w : SerialConsole}
    (hpaired : Paired shell m₀ base w.trace)
    (hdead : WhenServed shell m₀ base False w.trace) :
    Paired shell m₀ base (script w).2.trace := by
  refine (h.keeps (fun events => Paired shell m₀ base events ∧
    WhenServed shell m₀ base False events) ?_ w ⟨hpaired, hdead⟩).left
  rintro events event _ ⟨hpaired, ⟨rest, rfl⟩, hfact⟩
  constructor
  · refine paired_append event hpaired rfl ?_
    intro command output _ link hlink
    exact (hfact rest link rfl hlink).elim
  · refine ⟨⟨rest ++ [event], by rw [List.append_assoc]⟩, ?_⟩
    intro other link hother hlink
    rw [List.append_assoc] at hother
    have hsame := List.append_cancel_left hother
    subst hsame
    rcases served_front hlink with ⟨earlier, hearlier⟩
    exact hfact rest earlier rfl hearlier

end InStep

/-!
# A cycle in step
-/

/-- The commands of a cycle, as the replies of the board determine them. -/
def cycleCommands (shell : Shell S) (m : Monitor S) (args : Args) : List Text :=
  [setenvServerip args, setenvIpaddr args, tftpboot args, protectOff args,
    eraseFlash args, copyToFlash args (copyLength args
      (replyText shell (ranCommands shell m [setenvServerip args, setenvIpaddr args])
        (tftpboot args)))]

section Cycle

variable {shell : Shell S} {m₀ : Monitor S} {base : SerialConsole} {args : Args}

theorem onlyAppends_any (command : Text) :
    OnlyAppends (fun _ => True) (runUbootCommand command) :=
  onlyAppends_runUbootCommand trivial trivial (fun _ => trivial) (fun _ => trivial)

theorem copy_paired (hline : m₀.line = [])
    (horderly : Orderly shell m₀ base.buffer.length (cycleCommands shell m₀ args))
    (output protectOutput eraseOutput : Text) :
    Ensures (fun w => Idle shell m₀ base [setenvServerip args, setenvIpaddr args,
        tftpboot args, protectOff args, eraseFlash args] w ∧
      WhenServed shell m₀ base (output = replyText shell (ranCommands shell m₀
        [setenvServerip args, setenvIpaddr args]) (tftpboot args)) w.trace)
      (do
        let copyOutput ← runUbootCommand (copyToFlash args (copyLength args output))
        validateFlashProgramming protectOutput eraseOutput copyOutput)
      (fun w => Paired shell m₀ base w.trace) := by
  have hvalidate : forall copyOutput, OnlyAppends NoReturn
      (validateFlashProgramming protectOutput eraseOutput copyOutput) := by
    intro copyOutput
    have hmessage : forall level text, NoReturn (.message level text) := by
      intro level text command output h
      cases h
    refine onlyAppends_bind (onlyAppends_when (onlyAppends_note (hmessage _ _)))
      (fun _ => ?_)
    refine onlyAppends_ite ?_ (onlyAppends_ite (onlyAppends_raise _) (onlyAppends_pure _))
    exact onlyAppends_bind (onlyAppends_note (hmessage _ _)) (fun _ => onlyAppends_raise _)
  rintro w ⟨hidle, hfact⟩
  by_cases hserved : exists rest link, w.trace = base.trace ++ rest ∧
      Served shell (settledLink m₀) rest link
  · rcases hserved with ⟨rest, link, hrest, hlink⟩
    rw [hfact.right rest link hrest hlink]
    refine ensures_bind (runUbootCommand_paired hline horderly)
      (runUbootCommand_inStep hline horderly) (fun copyOutput => ?_) w hidle
    exact noReturn_paired (hvalidate copyOutput) (fun _ h => idle_front h.left)
  · have hany : OnlyAppends (fun _ => True) (do
        let copyOutput ← runUbootCommand (copyToFlash args (copyLength args output))
        validateFlashProgramming protectOutput eraseOutput copyOutput) := by
      refine onlyAppends_bind (onlyAppends_any _) (fun copyOutput => ?_)
      exact (hvalidate copyOutput).weaken (fun _ _ => trivial)
    refine unserved_paired hany hidle.paired ⟨hfact.left, ?_⟩
    intro rest link hrest hlink
    exact hserved ⟨rest, link, hrest, hlink⟩

/-- Between two commands, with a fact about the replies so far. -/
def InStep (shell : Shell S) (m₀ : Monitor S) (base : SerialConsole)
    (commands : List Text) (fact : Prop) (w : SerialConsole) : Prop :=
  Idle shell m₀ base commands w ∧ WhenServed shell m₀ base fact w.trace

theorem runUbootCommand_reply {commands back : List Text} {command : Text} {fact : Prop}
    (hline : m₀.line = [])
    (horderly : Orderly shell m₀ base.buffer.length (commands ++ command :: back)) :
    Returns (InStep shell m₀ base commands fact) (runUbootCommand command)
      (fun output => InStep shell m₀ base (commands ++ [command]) (fact ∧
        output = replyText shell (ranCommands shell m₀ commands) command)) := by
  rintro w output u ⟨hidle, hfact⟩ hrun
  have hstep := runUbootCommand_inStep hline horderly w output u hidle hrun
  have hkept := (whenServed_keeps (onlyAppends_any command)).returns w output u hfact hrun
  refine ⟨hstep.left, hkept.left, ?_⟩
  intro rest link hrest hlink
  exact ⟨hkept.right rest link hrest hlink, hstep.right rest link hrest hlink⟩

theorem runUbootCommand_inStep_paired {commands back : List Text} {command : Text}
    {fact : Prop} (hline : m₀.line = [])
    (horderly : Orderly shell m₀ base.buffer.length (commands ++ command :: back)) :
    Ensures (InStep shell m₀ base commands fact) (runUbootCommand command)
      (fun w => Paired shell m₀ base w.trace) :=
  ensures_weaken (runUbootCommand_paired hline horderly) (fun _ h => h.left)
    (fun _ h => h)

theorem parseTftpSizeHex_inStep {commands : List Text} {output : Text} {fact : Prop}
    (hline : m₀.line = [])
    (hplain : forall command, command ∈ commands -> PlainCommand command) :
    Keeps (InStep shell m₀ base commands fact)
      (parseTftpSizeHex output args.artifactSize) := by
  unfold parseTftpSizeHex
  cases (tftpSizes output).getLast? with
  | some hex =>
      exact keeps_pure _
  | none =>
      refine keeps_bind ?_ (fun _ => keeps_pure _)
      rintro w ⟨hidle, hfact⟩
      exact ⟨idle_message hline hplain hidle _ _,
        whenServed_keeps (onlyAppends_note trivial) w hfact⟩

theorem parseTftpSizeHex_length {commands : List Text} {output : Text} {fact : Prop}
    (hline : m₀.line = [])
    (hplain : forall command, command ∈ commands -> PlainCommand command) :
    Returns (InStep shell m₀ base commands fact)
      (parseTftpSizeHex output args.artifactSize) (fun sizeHex w =>
        InStep shell m₀ base commands fact w ∧ sizeHex = copyLength args output) := by
  intro w value u hw hrun
  exact ⟨(parseTftpSizeHex_inStep hline hplain).returns w value u hw hrun,
    parseTftpSizeHex_returns args output w value u trivial hrun⟩

theorem Orderly.plain_download
    (h : Orderly shell m₀ base.buffer.length (cycleCommands shell m₀ args)) :
    forall command, command ∈ [setenvServerip args, setenvIpaddr args, tftpboot args] ->
      PlainCommand command :=
  fun command hcommand => h.plain command (List.mem_append_left [_, _, _] hcommand)

theorem flashCommands_paired (hline : m₀.line = [])
    (horderly : Orderly shell m₀ base.buffer.length (cycleCommands shell m₀ args)) :
    Ensures (InStep shell m₀ base [] True) (flashCommands args)
      (fun w => Paired shell m₀ base w.trace) := by
  have hplain := horderly.plain_download
  refine ensures_bind (runUbootCommand_inStep_paired hline horderly)
    (runUbootCommand_reply hline horderly) (fun _ => ?_)
  refine ensures_bind (runUbootCommand_inStep_paired hline horderly)
    (runUbootCommand_reply hline horderly) (fun _ => ?_)
  refine ensures_bind (runUbootCommand_inStep_paired hline horderly)
    (runUbootCommand_reply hline horderly) (fun output => ?_)
  refine ensures_bind (ensures_weaken (parseTftpSizeHex_inStep hline hplain) (fun _ h => h)
    (fun _ h => h.left.paired)) (parseTftpSizeHex_length hline hplain) (fun sizeHex => ?_)
  refine ensures_of_pure (fun hlength => ?_)
  subst hlength
  refine ensures_bind (runUbootCommand_inStep_paired hline horderly)
    (runUbootCommand_reply hline horderly) (fun protectOutput => ?_)
  refine ensures_bind (runUbootCommand_inStep_paired hline horderly)
    (runUbootCommand_reply hline horderly) (fun eraseOutput => ?_)
  refine ensures_weaken (copy_paired hline horderly output protectOutput eraseOutput) ?_
    (fun _ h => h)
  rintro w ⟨hidle, hfact⟩
  exact ⟨hidle, hfact.weaken (fun h => h.left.left.right)⟩

theorem idle_start {w : SerialConsole} (hline : m₀.line = []) :
    Idle shell m₀ w [] w := by
  have hnothing : forall link, Served shell (settledLink m₀) [] link ->
      link = settledLink (ranCommands shell m₀ []) := by
    intro link hlink
    exact settled_of_complete hline (fun _ h => absurd h List.not_mem_nil) rfl rfl hlink
  refine ⟨?_, [], ⟨(List.append_nil _).symm, fun _ => (List.append_nil _).symm⟩, rfl,
    hnothing⟩
  intro before command output after h
  have hnil := List.append_cancel_left ((List.append_nil _).trans h)
  exact absurd hnil.symm (List.append_ne_nil_of_right_ne_nil _ (List.cons_ne_nil _ _))

theorem inStep_of_idle {commands : List Text} {w : SerialConsole}
    (h : Idle shell m₀ base commands w) : InStep shell m₀ base commands True w :=
  ⟨h, (idle_front h).right, fun _ _ _ _ => trivial⟩

end Cycle

/--
In every run from `wait_for_u_boot_prompt` on, with any delays in both directions: if
nothing is on its way and the board is at its prompt when the wait is over, and the
commands are orderly, then at every return of `run_uboot_command` the board has run
exactly the commands that were sent, and the text is the reply to the last of them.
-/
theorem commands_in_step (shell : Shell S) (m : Monitor S) (args : Args)
    (w₀ w₁ : SerialConsole) (before after : List Event) (command output : Text)
    (link : Link S) (hprompt : waitForUBootPrompt args w₀ = (.ok (), w₁))
    (hline : m.line = [])
    (horderly : Orderly shell m w₁.buffer.length (cycleCommands shell m args))
    (htrace : (uBootPhase args w₀).2.trace =
      w₁.trace ++ (before ++ Event.returned command output :: after))
    (hserved : Served shell (settledLink m) before link) :
    PairedAt shell m before command output link := by
  have hphase : uBootPhase args w₀ = flashCommands args
      { w₁ with trace := w₁.trace ++ [Event.message .log promptAcquired] } :=
    bind_of_ok hprompt
  have hidle : Idle shell m w₁ [] w₁ := idle_start hline
  have hlogged := idle_message hline (fun _ h => absurd h List.not_mem_nil) hidle .log
    promptAcquired
  have hpaired := flashCommands_paired hline horderly _ (inStep_of_idle hlogged)
  rw [← hphase] at hpaired
  exact hpaired before command output after htrace link hserved

theorem promptAtEnd_of_take {text : Text}
    (h : forall n, n < text.length -> promptRe.found (text.take n) = false) :
    PromptAtEnd text := by
  rintro front back rfl hprompt
  rcases Nat.lt_or_ge front.length (front ++ back).length with hlt | hge
  · have hnone := h front.length hlt
    rw [List.take_left] at hnone
    exact absurd hprompt (by rw [hnone]; decide)
  · rw [List.length_append] at hge
    exact List.length_eq_zero_iff.mp (by omega)

theorem orderly_of_indices {shell : Shell S} {m₀ : Monitor S} {buffered : Nat}
    {commands : List Text} (hplain : forall command, command ∈ commands ->
      PlainCommand command)
    (hquiet : forall n, n < commands.length -> forall command, commands[n]? = some command ->
      forall k, k < (replyText shell (ranCommands shell m₀ (commands.take n)) command).length ->
        promptRe.found ((replyText shell (ranCommands shell m₀ (commands.take n))
          command).take k) = false)
    (hroom : buffered + (mainLoop shell m₀ (commandLines commands)).1.length <= bufferLimit) :
    Orderly shell m₀ buffered commands := by
  refine ⟨hplain, ?_, hroom⟩
  rintro front command back rfl
  have hcommand := hquiet front.length
    (by rw [List.length_append, List.length_cons]; omega) command
    (by rw [List.getElem?_append_right (Nat.le_refl _), Nat.sub_self]; rfl)
  rw [List.take_left] at hcommand
  exact promptAtEnd_of_take hcommand

theorem served_reads {shell : Shell S} {start : Link S} {events : List Event}
    {m : Monitor S} {text outgoing : Text}
    (h : Served shell start events ⟨.monitor m, text, outgoing⟩) :
    Served shell start events ⟨.monitor (mainLoop shell m text).2, [],
      outgoing ++ (mainLoop shell m text).1⟩ := by
  induction text generalizing m outgoing with
  | nil =>
      rw [show (mainLoop shell m []).1 = [] from rfl, List.append_nil]
      exact h
  | cons c text ih =>
      have hread := ih (.board h (.read m c text outgoing))
      rw [mainLoop_cons, ← List.append_assoc]
      exact hread

theorem served_message {shell : Shell S} {start link : Link S} {events : List Event}
    (level : Level) (text : Text) (h : Served shell start events link) :
    Served shell start (events ++ [Event.message level text]) link :=
  .other _ (fun _ hevent => by cases hevent) (fun _ hevent => by cases hevent) h

def sampleShell : Shell Unit where
  runCommand := fun _ line _ =>
    (if line.head? = some 't' then chars "Bytes transferred = 255 (ff hex)\n" else [], (), 1)

def readsConsole (answers : List Answer) : SerialConsole :=
  startConsole sampleArgs (fun n => answers.getD n lateAnswer) 4

theorem served_ran {shell : Shell S} {start : Link S} {events : List Event} {m : Monitor S}
    {command : Text} (hline : m.line = []) (hplain : PlainCommand command) {outgoing : Text}
    (h : Served shell start events ⟨.monitor m, [], outgoing⟩) :
    Served shell start (events ++ [Event.sent (command ++ ['\r'])])
      ⟨.monitor (ranCommand shell m command), [], outgoing ++ replyText shell m command⟩ := by
  have hread := served_reads (.sent (command ++ ['\r']) h)
  rw [List.nil_append, mainLoop_command shell hline hplain] at hread
  exact hread

/-- The run that gets the replies to its first two commands, the second one in two parts. -/
def secondReply : List Answer :=
  readAnswers "=> " ++ readAnswers "setenv serverip 192.168.1.101\r\r\n=> " ++
    readAnswers "setenv ipaddr 192.1" ++ readAnswers "68.1.123\r\r\n=> "

/-- The events of that run between the prompt and the second return. -/
def secondCommand : List Event :=
  [Event.message .log promptAcquired,
    .message .log (chars "Serial send: setenv serverip 192.168.1.101"),
    .sent (chars "setenv serverip 192.168.1.101\r"),
    .received (chars "setenv serverip 192.168.1.101\r\r\n=> "),
    .returned (setenvServerip sampleArgs) (chars "setenv serverip 192.168.1.101\r\r\n=> "),
    .message .log (chars "Serial send: setenv ipaddr 192.168.1.123"),
    .sent (chars "setenv ipaddr 192.168.1.123\r"),
    .received (chars "setenv ipaddr 192.1"), .received (chars "68.1.123\r\r\n=> ")]

theorem commands_in_step_second :
    PairedAt sampleShell (firstMonitor ()) secondCommand (setenvIpaddr sampleArgs)
      (chars "setenv ipaddr 192.168.1.123\r\r\n=> ")
      (settledLink (ranCommands sampleShell (firstMonitor ())
        [setenvServerip sampleArgs, setenvIpaddr sampleArgs])) := by
  have horderly : Orderly sampleShell (firstMonitor ()) 3
      (cycleCommands sampleShell (firstMonitor ()) sampleArgs) := by
    apply orderly_of_indices
    · decide +kernel
    · decide +kernel
    · decide +kernel
  have hserved : Served sampleShell (settledLink (firstMonitor ())) secondCommand
      (settledLink (ranCommands sampleShell (firstMonitor ())
        [setenvServerip sampleArgs, setenvIpaddr sampleArgs])) := by
    have hstart : Served sampleShell (settledLink (firstMonitor ())) []
        (settledLink (firstMonitor ())) := .nil
    have hfirst := served_ran rfl (horderly.plain _ List.mem_cons_self)
      (served_message .log (chars "Serial send: setenv serverip 192.168.1.101")
        (served_message .log promptAcquired hstart))
    have hreceived : Served sampleShell (settledLink (firstMonitor ())) (secondCommand.take 4)
        (settledLink (ranCommand sampleShell (firstMonitor ()) (setenvServerip sampleArgs))) :=
      .received (chars "setenv serverip 192.168.1.101\r\r\n=> ") hfirst
    have hreturned := Served.other
      (.returned (setenvServerip sampleArgs) (chars "setenv serverip 192.168.1.101\r\r\n=> "))
      (fun _ hevent => by cases hevent) (fun _ hevent => by cases hevent) hreceived
    have hsecond := served_ran rfl
      (horderly.plain _ (List.mem_cons_of_mem _ List.mem_cons_self))
      (served_message .log (chars "Serial send: setenv ipaddr 192.168.1.123") hreturned)
    exact .received (chars "68.1.123\r\r\n=> ") (.received (chars "setenv ipaddr 192.1") hsecond)
  have htrace : (uBootPhase sampleArgs (readsConsole secondReply)).2.trace =
      (waitForUBootPrompt sampleArgs (readsConsole secondReply)).2.trace ++
        (secondCommand ++ Event.returned (setenvIpaddr sampleArgs)
          (chars "setenv ipaddr 192.168.1.123\r\r\n=> ") ::
            (uBootPhase sampleArgs (readsConsole secondReply)).2.trace.drop 12) := by
    decide +kernel
  have hprompt : waitForUBootPrompt sampleArgs (readsConsole secondReply) =
      (.ok (), (waitForUBootPrompt sampleArgs (readsConsole secondReply)).2) :=
    Prod.ext (by decide +kernel) rfl
  have hbuffer : (waitForUBootPrompt sampleArgs (readsConsole secondReply)).2.buffer.length =
      3 := by
    decide +kernel
  rw [← hbuffer] at horderly
  exact commands_in_step sampleShell (firstMonitor ()) sampleArgs _ _ secondCommand _ _ _ _
    hprompt rfl horderly htrace hserved

def leftoverPrompt : List Answer :=
  readAnswers "Hit any key to stop autoboot:  5 " ++ [lateAnswer] ++ readAnswers "=> " ++
    readAnswers "\r\r\n=> "

/-- The events of the run that takes it for the prompt of its first command. -/
def outOfStep : List Event :=
  [Event.message .log (chars "Waiting for U-Boot to start"),
    .received (chars "Hit any key to stop autoboot:  5 "),
    .message .log (chars "U-Boot autoboot window detected, sending <Enter>"),
    .message .log (chars "Serial send: <Enter>"), .sent ['\r'],
    .message .log (chars "U-Boot prompt not received yet, continuing <Enter> spam"),
    .message .log (chars "Serial send: <Enter>"), .sent ['\r'],
    .received (chars "=> "), .message .log promptAcquired,
    .message .log (chars "Serial send: setenv serverip 192.168.1.101"),
    .sent (chars "setenv serverip 192.168.1.101\r"), .received (chars "\r\r\n=> ")]

/--
The autoboot takes the first <Enter>; the second one is read by the command line, and
its prompt comes in behind the first command, which the board has not read yet.
-/
theorem commands_out_of_step :
    ¬ (forall (shell : Shell Unit) (args : Args) (w₀ : SerialConsole)
        (before after : List Event) (command output : Text) (link : Link Unit),
      (uBootPhase args w₀).2.trace = w₀.trace ++
        (before ++ Event.returned command output :: after) ->
      Served shell ⟨.starting, [], []⟩ before link ->
        exists m, link.board = .monitor m ∧ command ∈ m.ran) := by
  intro hclaim
  have htrace : (uBootPhase sampleArgs (readsConsole leftoverPrompt)).2.trace =
      (readsConsole leftoverPrompt).trace ++ (outOfStep ++
        .returned (setenvServerip sampleArgs) (chars "\r\r\n=> ") ::
          (uBootPhase sampleArgs (readsConsole leftoverPrompt)).2.trace.drop 14) := by
    decide +kernel
  have hserved : Served sampleShell ⟨.starting, [], []⟩ outOfStep
      ⟨.monitor (mainLoopChar sampleShell (firstMonitor ()) '\r').2,
        chars "setenv serverip 192.168.1.101\r", []⟩ := by
    have hstart : Served sampleShell ⟨.starting, [], []⟩ [] ⟨.starting, [], []⟩ := .nil
    have hwindow := Served.received (chars "Hit any key to stop autoboot:  5 ")
      (.board (served_message .log (chars "Waiting for U-Boot to start") hstart)
        (.print (chars "Hit any key to stop autoboot:  5 ") [] []))
    have hfirst := Served.sent ['\r'] (served_message .log (chars "Serial send: <Enter>")
      (served_message .log (chars "U-Boot autoboot window detected, sending <Enter>")
        hwindow))
    have hsecond := Served.sent ['\r'] (served_message .log (chars "Serial send: <Enter>")
      (served_message .log (chars "U-Boot prompt not received yet, continuing <Enter> spam")
        hfirst))
    -- the autoboot takes the first key, and the second one waits for the command line
    have hprompt := Served.received (chars "=> ") (.board
      (.board hsecond (.takeKey '\r' ['\r'] [])) (.enter () ['\r'] []))
    have hcommand := Served.sent (chars "setenv serverip 192.168.1.101\r")
      (served_message .log (chars "Serial send: setenv serverip 192.168.1.101")
        (served_message .log promptAcquired hprompt))
    exact .received (chars "\r\r\n=> ") (.board hcommand (.read (firstMonitor ()) '\r' _ []))
  rcases hclaim sampleShell sampleArgs _ _ _ _ _ _ htrace hserved with ⟨m, hboard, hran⟩
  rw [← Board.monitor.inj hboard] at hran
  exact absurd hran (by decide +kernel)

end Console
end Bab750
