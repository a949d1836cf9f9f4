import Bab750.Console.Monitor
import Bab750.Console.Trace
import Bab750.Foundation.HexText
import Mathlib.Data.BitVec

/-!
# What the flash script programs

The commands that change the flash come behind a `tftpboot` of the same cycle that
has come back to the prompt, and the length of the copy is taken from its output.
-/

namespace Bab750
namespace Console

open Foundation
open Script

/-!
# Downloads in a trace
-/

def receivedText (events : List Event) : Text :=
  events.flatMap (fun
    | .received chunk => chunk
    | _ => [])

theorem receivedText_append (first second : List Event) :
    receivedText (first ++ second) = receivedText first ++ receivedText second :=
  List.flatMap_append

def cycleStarts : Event := .message .log (chars "Reset marker detected")

/-- An event inside the part of a cycle that follows its download. -/
def SameCycle (args : Args) (event : Event) : Prop :=
  event ≠ cycleStarts ∧ event ≠ .sent (tftpboot args ++ ['\r'])

/--
The last download of the trace has come back to the prompt with the given output,
without a reset, and its cycle is still the current one.
-/
structure Downloaded (args : Args) (trace : List Event) (output : Text) : Prop where
  prompt : promptRe.found output = true
  noReset : resetMarkerRe.found output = false
  inTrace : exists front middle tail,
    trace = front ++ Event.sent (tftpboot args ++ ['\r']) :: middle ++
      .returned (tftpboot args) output :: tail ∧
    (forall event, event ∈ middle ++ tail -> SameCycle args event) ∧
    output <:+ receivedText middle

/-- The length that the copy gets for an output of `tftpboot`. -/
def copyLength (args : Args) (output : Text) : Text :=
  match (tftpSizes output).getLast? with
  | some hex => hex.map Char.toLower
  | none => hexText args.artifactSize

/-- A command that changes the flash is one of the three of the cycle. -/
def ProgramsFrom (args : Args) (output data : Text) : Prop :=
  data = protectOff args ++ ['\r'] ∨ data = eraseFlash args ++ ['\r'] ∨
    data = copyToFlash args (copyLength args output) ++ ['\r']

/-- Every command of the trace that changes the flash follows its download. -/
def Covered (args : Args) (trace : List Event) : Prop :=
  forall before data after, trace = before ++ Event.sent data :: after ->
    IsProgramming data ->
      exists output, Downloaded args before output ∧ ProgramsFrom args output data

theorem append_singleton_split {trace before after : List Event} {event other : Event}
    (h : trace ++ [event] = before ++ other :: after) :
    (exists rest, after = rest ++ [event] ∧ trace = before ++ other :: rest) ∨
      (after = [] ∧ trace = before ∧ event = other) := by
  rcases List.eq_nil_or_concat after with rfl | ⟨rest, last, rfl⟩
  · right
    have hinj := List.append_inj' h rfl
    exact ⟨rfl, hinj.left, List.singleton_inj.mp hinj.right⟩
  · left
    rw [List.concat_eq_append] at h ⊢
    rw [← List.cons_append, ← List.append_assoc] at h
    have hinj := List.append_inj' h rfl
    exact ⟨rest, by rw [List.singleton_inj.mp hinj.right], hinj.left⟩

theorem covered_append {args : Args} {trace : List Event} {event : Event}
    (hcovered : Covered args trace)
    (hevent : forall data, event = .sent data -> IsProgramming data ->
      exists output, Downloaded args trace output ∧ ProgramsFrom args output data) :
    Covered args (trace ++ [event]) := by
  intro before data after hsplit hprogramming
  rcases append_singleton_split hsplit with ⟨rest, _, htrace⟩ | ⟨_, htrace, hsame⟩
  · exact hcovered before data rest htrace hprogramming
  · rw [← htrace]
    exact hevent data hsame hprogramming

theorem covered_append_harmless {args : Args} {trace : List Event} {event : Event}
    (hcovered : Covered args trace) (hevent : Harmless event) :
    Covered args (trace ++ [event]) := by
  refine covered_append hcovered ?_
  rintro data rfl hprogramming
  exact absurd hprogramming hevent

theorem downloaded_append {args : Args} {trace : List Event} {event : Event}
    {output : Text} (h : Downloaded args trace output) (hevent : SameCycle args event) :
    Downloaded args (trace ++ [event]) output := by
  rcases h.inTrace with ⟨front, middle, tail, rfl, hcycle, hsuffix⟩
  refine ⟨h.prompt, h.noReset, front, middle, tail ++ [event], ?_, ?_, hsuffix⟩
  · rw [List.append_assoc, List.append_assoc, List.append_assoc, List.cons_append,
      List.cons_append, List.cons_append]
  · intro other hother
    rw [← List.append_assoc, List.mem_append, List.mem_singleton] at hother
    rcases hother with hother | rfl
    · exact hcycle other hother
    · exact hevent

theorem harmless_covered {α : Type} {args : Args} {script : Serial α}
    (h : OnlyAppends Harmless script) :
    Keeps (fun w => Covered args w.trace) script :=
  h.keeps (Covered args) (fun _ _ hevent hcovered => covered_append_harmless hcovered hevent)

/-!
# The download command
-/

theorem drop_appendBuffer_suffix {buffer chunk text : Text} {start : Nat}
    (h : buffer.drop start <:+ text) :
    (appendBuffer buffer chunk).drop start <:+ text ++ chunk := by
  have hlonger : (buffer ++ chunk).drop start <:+ text ++ chunk := by
    rw [List.drop_append]
    rcases Nat.le_total start buffer.length with hle | hle
    · rw [Nat.sub_eq_zero_of_le hle, List.drop_zero]
      rcases h with ⟨front, rfl⟩
      exact ⟨front, by rw [List.append_assoc]⟩
    · rw [List.drop_of_length_le hle, List.nil_append]
      exact (List.drop_suffix _ _).trans (List.suffix_append text chunk)
  unfold appendBuffer
  dsimp only
  split
  · rw [List.drop_drop, Nat.add_comm, ← List.drop_drop]
    exact (List.drop_suffix _ _).trans hlonger
  · exact hlonger

theorem raiseIfReset_returns {pre : SerialConsole -> Prop} (start : Nat) :
    Returns pre (raiseIfReset (some start)) (fun _ w =>
      pre w ∧ resetMarkerRe.found (w.buffer.drop start) = false) := by
  intro w value u hw hrun
  rcases bind_eq_ok hrun with ⟨position, v, hfind, hrest⟩
  rcases Prod.mk.inj hfind with ⟨hposition, rfl⟩
  have hsearch := Outcome.ok.inj hposition
  cases position with
  | none =>
      rcases Prod.mk.inj hrest with ⟨_, rfl⟩
      refine ⟨hw, ?_⟩
      show (resetMarkerRe.search _).isSome = false
      rw [Option.map_eq_none_iff.mp hsearch]
      rfl
  | some position =>
      cases (Prod.mk.inj hrest).left

def Waiting (command : Text) (start : Nat) (w : SerialConsole) : Prop :=
  exists front middle, w.trace = front ++ Event.sent (command ++ ['\r']) :: middle ∧
    (forall event, event ∈ middle -> exists chunk, event = .received chunk) ∧
      w.buffer.drop start <:+ receivedText middle

def Returned (command output : Text) (w : SerialConsole) : Prop :=
  promptRe.found output = true ∧ resetMarkerRe.found output = false ∧
    exists front middle, w.trace = front ++ Event.sent (command ++ ['\r']) :: middle ++
        [Event.returned command output] ∧
      (forall event, event ∈ middle -> exists chunk, event = .received chunk) ∧
        output <:+ receivedText middle

theorem readOnce_waiting {command : Text} {start : Nat} :
    Keeps (Waiting command start) readOnce := by
  rintro w ⟨front, middle, htrace, hmiddle, hsuffix⟩
  unfold readOnce
  show Waiting command start (Script.bind ask _ w).2
  unfold Script.bind ask
  dsimp only
  split
  · exact ⟨front, middle, htrace, hmiddle, hsuffix⟩
  · refine ⟨front, middle ++ [Event.received (w.answers w.asked).chunk], ?_, ?_, ?_⟩
    · show w.trace ++ [_] = _
      rw [htrace, List.append_assoc, List.cons_append]
    · intro event hevent
      rw [List.mem_append, List.mem_singleton] at hevent
      rcases hevent with hevent | rfl
      · exact hmiddle event hevent
      · exact ⟨_, rfl⟩
    · show (appendBuffer w.buffer _).drop start <:+ _
      have htext : receivedText (middle ++ [Event.received (w.answers w.asked).chunk]) =
          receivedText middle ++ (w.answers w.asked).chunk := by
        unfold receivedText
        rw [List.flatMap_append, List.flatMap_singleton]
      rw [htext]
      exact drop_appendBuffer_suffix hsuffix

theorem commandPass_returns (command : Text) (start : Nat) (state : Unit) :
    Returns (Waiting command start) (commandPass command start start state)
      (passHolds (fun _ => Waiting command start) (Returned command)) := by
  refine returns_bind (raiseIfReset_returns start) (fun _ => ?_)
  have hlook : Returns (fun w => Waiting command start w ∧
      resetMarkerRe.found (w.buffer.drop start) = false) (bufferSince start)
      (fun haystack w => Waiting command start w ∧ resetMarkerRe.found haystack = false ∧
        haystack = w.buffer.drop start) :=
    returns_look (fun w hw => ⟨hw.left, hw.right, rfl⟩)
  refine returns_bind hlook (fun haystack => ?_)
  split
  case isTrue hprompt =>
      have hnote : Returns (fun w => Waiting command start w ∧
          resetMarkerRe.found haystack = false ∧ haystack = w.buffer.drop start)
          (note (.returned command haystack)) (fun _ => Returned command haystack) := by
        refine returns_change ?_
        rintro w ⟨⟨front, middle, htrace, hmiddle, hsuffix⟩, hreset, rfl⟩
        refine ⟨hprompt, hreset, front, middle, ?_, hmiddle, hsuffix⟩
        show w.trace ++ [_] = _
        rw [htrace]
      exact returns_bind hnote (fun _ => returns_pure (fun _ h => h))
  case isFalse hprompt =>
      have hlate : Returns (fun w => Waiting command start w ∧
          resetMarkerRe.found haystack = false ∧ haystack = w.buffer.drop start) late
          (fun _ => Waiting command start) := by
        intro w value u hw hrun
        rcases Prod.mk.inj hrun with ⟨_, rfl⟩
        exact hw.left
      refine returns_bind hlate (fun expired => ?_)
      split
      · exact returns_raise
      · refine returns_bind readOnce_waiting.returns (fun _ => ?_)
        exact returns_pure (fun _ h => h)

theorem runUbootCommand_returned (command : Text) :
    Returns (fun _ => True) (runUbootCommand command) (Returned command) := by
  intro w output u _ hrun
  rcases bind_eq_ok hrun with ⟨start, v, hmark, hrun⟩
  rcases Prod.mk.inj hmark with ⟨hstart, rfl⟩
  rcases bind_eq_ok hrun with ⟨watch, v, hmark, hrun⟩
  rcases Prod.mk.inj hmark with ⟨hwatch, rfl⟩
  have hsame : watch = start := Outcome.ok.inj (hwatch.symm.trans hstart)
  subst hsame
  rcases bind_eq_ok hrun with ⟨_, v, hsend, hloop⟩
  have hwaiting : Waiting command watch v := by
    unfold sendLine at hsend
    split at hsend
    case isTrue hascii =>
        rcases Prod.mk.inj hsend with ⟨_, rfl⟩
        refine ⟨w.trace ++ [Event.message .log (chars "Serial send: " ++ command)], [], rfl, ?_,
          ?_⟩
        · exact fun event hevent => absurd hevent List.not_mem_nil
        · have hnone : w.buffer.drop watch = [] := by
            rw [← Outcome.ok.inj hstart, List.drop_length]
          show w.buffer.drop watch <:+ []
          exact hnone ▸ List.suffix_refl _
    case isFalse hascii =>
        cases (Prod.mk.inj hsend).left
  exact returns_loop (fun _ => Waiting command watch) (commandPass_returns command watch) ()
    v output u hwaiting hloop

/-!
# The cycle
-/

theorem sameCycle_received (args : Args) (chunk : Text) :
    SameCycle args (.received chunk) := by
  constructor
  · intro h
    cases h
  · intro h
    cases h

theorem returned_downloaded {args : Args} {output : Text} {w : SerialConsole}
    (h : Returned (tftpboot args) output w) : Downloaded args w.trace output := by
  rcases h with ⟨hprompt, hreset, front, middle, htrace, hmiddle, hsuffix⟩
  refine ⟨hprompt, hreset, front, middle, [], htrace, ?_, hsuffix⟩
  intro event hevent
  rw [List.append_nil] at hevent
  rcases hmiddle event hevent with ⟨chunk, rfl⟩
  exact sameCycle_received args chunk

theorem harmless_runUbootCommand {c : Char} {command : Text}
    (h : c ≠ 'p' ∧ c ≠ 'e' ∧ c ≠ 'c') :
    OnlyAppends Harmless (runUbootCommand (c :: command)) :=
  onlyAppends_runUbootCommand trivial (harmless_sent h) (fun _ => trivial)
    (fun _ => trivial)

def FollowsDownload (args : Args) (output : Text) (event : Event) : Prop :=
  SameCycle args event ∧ forall data, event = .sent data -> ProgramsFrom args output data

theorem programming_keeps {args : Args} {output : Text} {c : Char} {command : Text}
    (hdata : ProgramsFrom args output (c :: command ++ ['\r'])) (hc : c ≠ 't') :
    Keeps (fun w => Covered args w.trace ∧ Downloaded args w.trace output)
      (runUbootCommand (c :: command)) := by
  have hcommand : OnlyAppends (FollowsDownload args output)
      (runUbootCommand (c :: command)) := by
    refine onlyAppends_runUbootCommand ?_ ?_ ?_ ?_
    · refine ⟨⟨?_, ?_⟩, ?_⟩
      · intro h
        injection h with _ htext
        exact absurd (List.cons.inj htext).left (by decide)
      · intro h
        cases h
      · intro data h
        cases h
    · refine ⟨⟨?_, ?_⟩, ?_⟩
      · intro h
        cases h
      · intro h
        injection h with htext
        exact hc (List.cons.inj htext).left
      · intro data h
        injection h with htext
        rw [← htext]
        exact hdata
    · intro chunk
      refine ⟨sameCycle_received args chunk, ?_⟩
      intro data h
      cases h
    · intro text
      refine ⟨⟨?_, ?_⟩, ?_⟩
      · intro h
        cases h
      · intro h
        cases h
      · intro data h
        cases h
  refine hcommand.keeps (fun trace => Covered args trace ∧ Downloaded args trace output) ?_
  rintro trace event ⟨hcycle, hprograms⟩ ⟨hcovered, hdownloaded⟩
  refine ⟨covered_append hcovered ?_, downloaded_append hdownloaded hcycle⟩
  intro data hevent _
  exact ⟨output, hdownloaded, hprograms data hevent⟩

theorem parseTftpSizeHex_keeps {args : Args} {output : Text} :
    Keeps (fun w => Covered args w.trace ∧ Downloaded args w.trace output)
      (parseTftpSizeHex output args.artifactSize) := by
  unfold parseTftpSizeHex
  cases (tftpSizes output).getLast? with
  | some hex =>
      exact keeps_pure _
  | none =>
      refine keeps_bind (keeps_change ?_) (fun _ => keeps_pure _)
      rintro w ⟨hcovered, hdownloaded⟩
      refine ⟨covered_append_harmless hcovered trivial, downloaded_append hdownloaded ?_⟩
      constructor
      · intro h
        injection h with _ htext
        exact absurd (List.cons.inj htext).left (by decide)
      · intro h
        cases h

theorem parseTftpSizeHex_returns (args : Args) (output : Text) :
    Returns (fun _ => True) (parseTftpSizeHex output args.artifactSize)
      (fun sizeHex _ => sizeHex = copyLength args output) := by
  unfold parseTftpSizeHex copyLength
  cases (tftpSizes output).getLast? with
  | some hex =>
      exact returns_pure (fun _ _ => rfl)
  | none =>
      intro w value u _ hrun
      rcases bind_eq_ok hrun with ⟨_, v, _, hpure⟩
      exact (Outcome.ok.inj (Prod.mk.inj hpure).left).symm

theorem validateFlashProgramming_harmless (protectOutput eraseOutput copyOutput : Text) :
    OnlyAppends Harmless
      (validateFlashProgramming protectOutput eraseOutput copyOutput) := by
  refine onlyAppends_bind (onlyAppends_when (onlyAppends_note trivial)) (fun _ => ?_)
  refine onlyAppends_ite ?_ (onlyAppends_ite (onlyAppends_raise _) (onlyAppends_pure _))
  exact onlyAppends_bind (onlyAppends_note trivial) (fun _ => onlyAppends_raise _)

theorem flashCommands_covered (args : Args) :
    Keeps (fun w => Covered args w.trace) (flashCommands args) := by
  refine keeps_bind (harmless_covered (harmless_runUbootCommand (by decide))) (fun _ => ?_)
  refine keeps_bind (harmless_covered (harmless_runUbootCommand (by decide))) (fun _ => ?_)
  have htftp : Keeps (fun w => Covered args w.trace) (runUbootCommand (tftpboot args)) :=
    harmless_covered (harmless_runUbootCommand (by decide))
  have hdownload : Returns (fun w => Covered args w.trace) (runUbootCommand (tftpboot args))
      (fun output w => Covered args w.trace ∧ Downloaded args w.trace output) := by
    intro w output u hw hrun
    exact ⟨htftp.returns w output u hw hrun,
      returned_downloaded (runUbootCommand_returned _ w output u trivial hrun)⟩
  refine ensures_bind htftp hdownload (fun output => ?_)
  have hsize : Returns (fun w => Covered args w.trace ∧ Downloaded args w.trace output)
      (parseTftpSizeHex output args.artifactSize) (fun sizeHex w =>
        (Covered args w.trace ∧ Downloaded args w.trace output) ∧
          sizeHex = copyLength args output) := by
    intro w value u hw hrun
    exact ⟨parseTftpSizeHex_keeps.returns w value u hw hrun,
      parseTftpSizeHex_returns args output w value u trivial hrun⟩
  refine ensures_bind (ensures_weaken parseTftpSizeHex_keeps (fun _ h => h)
    (fun _ h => h.left)) hsize (fun sizeHex => ?_)
  refine ensures_of_pure (fun hlength => ?_)
  subst hlength
  refine ensures_bind_keeps (programming_keeps (Or.inl rfl) (by decide))
    (fun _ h => h.left) (fun protectOutput => ?_)
  refine ensures_bind_keeps (programming_keeps (Or.inr (Or.inl rfl)) (by decide))
    (fun _ h => h.left) (fun eraseOutput => ?_)
  refine ensures_bind_keeps (programming_keeps (Or.inr (Or.inr rfl)) (by decide))
    (fun _ h => h.left) (fun copyOutput => ?_)
  exact ensures_weaken (harmless_covered (validateFlashProgramming_harmless _ _ _))
    (fun _ h => h.left) (fun _ h => h)

theorem uBootPhase_covered (args : Args) :
    Keeps (fun w => Covered args w.trace) (uBootPhase args) :=
  keeps_bind (harmless_covered (permitted_waitForUBootPrompt permits_harmless args)) (fun _ =>
    keeps_bind (harmless_covered (harmless_log _)) (fun _ => flashCommands_covered args))

theorem cycle_covered (args : Args) (restartFrom : Option Nat) :
    Keeps (fun w => Covered args w.trace) (cycle args restartFrom) := by
  refine keeps_bind (harmless_covered (permitted_cycleStart permits_harmless args restartFrom))
    (fun start => ?_)
  refine keeps_bind
    (harmless_covered (permitted_waitForBootromLoading permits_harmless args start)) (fun _ => ?_)
  refine keeps_bind (harmless_covered (harmless_log _)) (fun _ => ?_)
  refine keeps_bind (harmless_covered (permitted_sleepWithResetWatch permits_harmless))
    (fun _ => ?_)
  refine keeps_bind (harmless_covered (harmless_sendLine_head (by decide))) (fun _ => ?_)
  exact uBootPhase_covered args

theorem mainPass_covered (args : Args) (restartFrom : Option Nat) :
    Keeps (fun w => Covered args w.trace) (mainPass args restartFrom) := by
  refine keeps_bind (keeps_attempt (cycle_covered args restartFrom)) (fun result => ?_)
  cases result with
  | ok _ =>
      exact keeps_pure _
  | error position =>
      exact keeps_bind (harmless_covered (onlyAppends_note trivial))
        (fun _ => keeps_pure _)

theorem main_covered (args : Args) : Keeps (fun w => Covered args w.trace) (main args) := by
  unfold main
  split
  · exact keeps_raise _
  · refine keeps_bind (harmless_covered (permitted_openPort permits_harmless)) (fun _ => ?_)
    refine keeps_bind (harmless_covered (harmless_log _)) (fun _ => ?_)
    refine keeps_bind (harmless_covered (onlyAppends_when (harmless_log _))) (fun _ => ?_)
    refine keeps_bind (keeps_loop (mainPass_covered args) none) (fun _ => ?_)
    refine keeps_bind (harmless_covered (harmless_log _)) (fun _ => ?_)
    exact keeps_bind (harmless_covered (onlyAppends_note trivial)) (fun _ => keeps_pure _)

/-!
# What `NetLoop` reports
-/

/-- `%ld`. -/
def decimalText (n : Int) : Text :=
  if n < 0 then '-' :: Nat.toDigits 10 n.natAbs else Nat.toDigits 10 n.natAbs

def netLoopReport (netBootFileXferSize : BitVec 32) : Text :=
  if netBootFileXferSize = 0#32 then []
  else chars "Bytes transferred = " ++ decimalText netBootFileXferSize.toInt ++
    chars " (" ++ hexText netBootFileXferSize.toNat ++ chars " hex)\n"

theorem behind_append (text : String) (rest : Text) :
    behind text (chars text ++ rest) = some rest := by
  unfold behind
  induction chars text with
  | nil =>
      rfl
  | cons c literal ih =>
      change (if (c == c) = true then literal.isPrefixOf? (literal ++ rest) else none) = some rest
      rw [if_pos (beq_self_eq_true c)]
      exact ih

theorem hexText_isHexDigit (n : Nat) : forall c, c ∈ hexText n -> isHexDigit c = true := by
  have hdigit : forall d, d < 16 -> isHexDigit (Nat.digitChar d) = true := by
    decide
  intro c hc
  rcases mem_toDigits (by decide) hc with ⟨d, hd, rfl⟩
  exact hdigit d hd

theorem hexText_toLower (n : Nat) : (hexText n).map Char.toLower = hexText n := by
  have hdigit : forall d, d < 16 -> Char.toLower (Nat.digitChar d) = Nat.digitChar d := by
    decide
  have hsame : forall c, c ∈ hexText n -> Char.toLower c = id c := by
    intro c hc
    rcases mem_toDigits (by decide) hc with ⟨d, hd, rfl⟩
    exact hdigit d hd
  rw [List.map_congr_left hsame, List.map_id]

theorem decimalText_isDecimal {n : Int} (h : 0 <= n) :
    forall c, c ∈ decimalText n -> isDecimal c = true := by
  intro c hc
  unfold decimalText at hc
  rw [if_neg (by omega)] at hc
  have hdigit : c.isDigit = true :=
    Nat.isDigit_of_mem_toDigits (by decide) (by decide) hc
  have hrange : 48 <= c.toNat ∧ c.toNat <= 57 := by
    rw [Char.isDigit, Bool.and_eq_true, decide_eq_true_iff, decide_eq_true_iff] at hdigit
    exact hdigit
  unfold isDecimal
  refine List.any_eq_true.mpr ⟨0x30, by decide, ?_⟩
  rw [Bool.and_eq_true, decide_eq_true_iff, decide_eq_true_iff]
  omega

theorem toDigits_ne_nil (base n : Nat) (h : 1 < base) : Nat.toDigits base n ≠ [] := by
  rw [Nat.toDigits_eq_if h]
  split
  · exact List.cons_ne_nil _ _
  · exact List.append_ne_nil_of_right_ne_nil _ (List.cons_ne_nil _ _)

theorem puts_append (first second : Text) :
    puts (first ++ second) = puts first ++ puts second :=
  List.flatMap_append

theorem puts_eq_self {text : Text} (h : '\n' ∉ text) : puts text = text := by
  induction text with
  | nil =>
      rfl
  | cons c text ih =>
      rw [List.mem_cons, not_or] at h
      have hc : puts [c] = [c] := by
        unfold puts
        rw [List.flatMap_singleton, if_neg (fun hsame => h.left hsame.symm)]
      rw [← List.singleton_append, puts_append, hc, ih h.right]

theorem tftpSizeAt_report {size : BitVec 32} (hpos : 0 < size.toNat)
    (hsmall : size.toNat < 2 ^ 31) (rest : Text) :
    tftpSizeAt (puts (netLoopReport size) ++ rest) =
      some (hexText size.toNat, '\r' :: '\n' :: rest) := by
  have hsize : size ≠ 0#32 := by
    rintro rfl
    exact absurd hpos (by decide)
  have hint : 0 <= size.toInt := by
    rw [BitVec.toInt_eq_toNat_of_lt (by omega)]
    exact Int.natCast_nonneg _
  have hdigits : '\n' ∉ decimalText size.toInt := by
    intro hmem
    exact absurd (decimalText_isDecimal hint _ hmem) (by decide)
  have hhexDigits : '\n' ∉ hexText size.toNat := by
    intro hmem
    exact absurd (hexText_isHexDigit _ _ hmem) (by decide)
  have hline : puts (netLoopReport size) ++ rest = chars "Bytes transferred = " ++
      (decimalText size.toInt ++ (chars " (" ++ (hexText size.toNat ++
        (chars " hex)" ++ '\r' :: '\n' :: rest)))) := by
    unfold netLoopReport
    rw [if_neg hsize]
    simp only [puts_append, puts_eq_self hdigits, puts_eq_self hhexDigits, List.append_assoc]
    rfl
  have hdecimal : (decimalText size.toInt ++ (chars " (" ++ (hexText size.toNat ++
      (chars " hex)" ++ '\r' :: '\n' :: rest)))).takeWhile isDecimal =
        decimalText size.toInt := by
    rw [List.takeWhile_append_of_pos (decimalText_isDecimal hint)]
    exact List.append_nil _
  have hhex : (hexText size.toNat ++ (chars " hex)" ++ '\r' :: '\n' :: rest)).takeWhile
      isHexDigit = hexText size.toNat := by
    rw [List.takeWhile_append_of_pos (hexText_isHexDigit _)]
    exact List.append_nil _
  have hsome : (decimalText size.toInt).isEmpty = false ∧
      (hexText size.toNat).isEmpty = false := by
    constructor
    · unfold decimalText
      rw [if_neg (by omega), List.isEmpty_eq_false_iff]
      exact toDigits_ne_nil 10 _ (by decide)
    · rw [List.isEmpty_eq_false_iff]
      exact toDigits_ne_nil 16 _ (by decide)
  unfold tftpSizeAt
  rw [hline, behind_append]
  simp only [Option.bind_eq_bind, Option.bind_some, hdecimal, List.drop_left, behind_append,
    hhex, hsome]
  rfl

theorem isPrefixOf?_eq_some {literal text rest : Text}
    (h : literal.isPrefixOf? text = some rest) : text = literal ++ rest := by
  induction literal generalizing text with
  | nil =>
      exact Option.some.inj h
  | cons c literal ih =>
      cases text with
      | nil =>
          cases h
      | cons d text =>
          change (if (c == d) = true then literal.isPrefixOf? text else none) = some rest at h
          split at h
          case isTrue hsame =>
              rw [eq_of_beq hsame, ih h]
              rfl
          case isFalse hother =>
              cases h

/-- A size line starts with `By`, has no other `y`, and ends with a bracket. -/
theorem tftpSizeAt_shape {text hex rest : Text} (h : tftpSizeAt text = some (hex, rest)) :
    exists line, text = 'B' :: 'y' :: line ++ ')' :: rest ∧ 'y' ∉ line := by
  unfold tftpSizeAt at h
  simp only [Option.bind_eq_bind] at h
  rcases Option.bind_eq_some_iff.mp h with ⟨number, hnumber, h⟩
  rcases Option.bind_eq_some_iff.mp h with ⟨group, hgroup, h⟩
  rcases Option.bind_eq_some_iff.mp h with ⟨final, hfinal, h⟩
  have hrest : rest = final := by
    split at h
    · cases h
    · exact (Prod.mk.inj (Option.some.inj h)).right.symm
  have htext : text = chars "Bytes transferred = " ++ (number.takeWhile isDecimal ++
      (chars " (" ++ (group.takeWhile isHexDigit ++ (chars " hex)" ++ rest)))) := by
    have hsplit : forall (p : Char -> Bool) (l : Text),
        l.takeWhile p ++ l.drop (l.takeWhile p).length = l := by
      intro p l
      exact List.prefix_iff_eq_append.mp (List.takeWhile_prefix p)
    rw [isPrefixOf?_eq_some hnumber, hrest]
    congr 1
    conv_lhs => rw [← hsplit isDecimal number, isPrefixOf?_eq_some hgroup]
    congr 2
    conv_lhs => rw [← hsplit isHexDigit group, isPrefixOf?_eq_some hfinal]
  refine ⟨chars "tes transferred = " ++ (number.takeWhile isDecimal ++
    (chars " (" ++ (group.takeWhile isHexDigit ++ chars " hex"))), ?_, ?_⟩
  · rw [htext]
    simp [chars]
  · intro hy
    simp only [List.mem_append] at hy
    rcases hy with hy | hy | hy | hy | hy
    · exact absurd hy (by decide)
    · have hdigit : isDecimal 'y' = true :=
        List.all_eq_true.mp List.all_takeWhile _ hy
      exact absurd hdigit (by decide)
    · exact absurd hy (by decide)
    · have hdigit : isHexDigit 'y' = true :=
        List.all_eq_true.mp List.all_takeWhile _ hy
      exact absurd hdigit (by decide)
    · exact absurd hy (by decide)

/-- A size line that starts in front of another one ends in front of it. -/
theorem tftpSizeAt_before {front back hex rest : Text}
    (h : tftpSizeAt (front ++ 'B' :: 'y' :: back) = some (hex, rest)) (hfront : front ≠ []) :
    exists shorter, rest = shorter ++ 'B' :: 'y' :: back ∧
      shorter.length < front.length := by
  rcases tftpSizeAt_shape h with ⟨line, htext, hy⟩
  rw [show 'B' :: 'y' :: line ++ ')' :: rest = ('B' :: 'y' :: line ++ [')']) ++ rest by
    rw [List.append_assoc]; rfl] at htext
  rcases List.append_eq_append_iff.mp htext with
    ⟨inside, hline, hrest⟩ | ⟨shorter, hfrontLine, hrest⟩
  · -- the line would have the other `y` inside
    cases inside with
    | nil =>
        refine ⟨[], hrest.symm, ?_⟩
        exact List.length_pos_iff.mpr hfront
    | cons b inside =>
        rcases List.cons.inj hrest with ⟨rfl, hbehind⟩
        exfalso
        cases inside with
        | nil =>
            have hlast := congrArg List.getLast? hline
            rw [List.getLast?_append, List.getLast?_append] at hlast
            have hbracket : ')' = 'B' := Option.some.inj hlast
            exact absurd hbracket (by decide)
        | cons y inside =>
            rcases List.cons.inj hbehind with ⟨rfl, _⟩
            match front, hfront with
            | [c], _ =>
                have hsecond := (List.cons.inj (List.cons.inj hline).right).left
                exact absurd hsecond (by decide)
            | c :: d :: more, _ =>
                have htail := (List.cons.inj (List.cons.inj hline).right).right
                have hmem : 'y' ∈ line ++ [')'] := by
                  rw [show line ++ [')'] = more ++ 'B' :: 'y' :: inside from htail]
                  exact List.mem_append_right _ (List.mem_cons_of_mem _ List.mem_cons_self)
                rcases List.mem_append.mp hmem with hin | hin
                · exact hy hin
                · exact absurd hin (by decide)
  · refine ⟨shorter, hrest, ?_⟩
    rw [hfrontLine, List.length_append]
    have hpos : 0 < ('B' :: 'y' :: line ++ [')']).length := by simp
    omega

theorem tftpSizesFrom_nil {text : Text}
    (h : forall rest, rest <:+ text -> tftpSizeAt rest = none) (fuel : Nat) :
    tftpSizesFrom fuel text = [] := by
  induction fuel generalizing text with
  | zero =>
      rfl
  | succ fuel ih =>
      unfold tftpSizesFrom
      rw [h text (List.suffix_refl _)]
      cases text with
      | nil =>
          rfl
      | cons c text =>
          exact ih (fun rest hrest => h rest (hrest.trans (List.suffix_cons c text)))

theorem tftpSizesFrom_getLast {front back rest hex : Text}
    (hline : tftpSizeAt ('B' :: 'y' :: back) = some (hex, rest))
    (hlast : forall later, later <:+ rest -> tftpSizeAt later = none) (fuel : Nat)
    (hfuel : front.length < fuel) :
    (tftpSizesFrom fuel (front ++ 'B' :: 'y' :: back)).getLast? = some hex := by
  induction fuel generalizing front with
  | zero =>
      omega
  | succ fuel ih =>
      unfold tftpSizesFrom
      cases front with
      | nil =>
          rw [List.nil_append, hline]
          show (hex :: tftpSizesFrom fuel rest).getLast? = _
          rw [tftpSizesFrom_nil hlast]
          rfl
      | cons c front =>
          cases hat : tftpSizeAt (c :: front ++ 'B' :: 'y' :: back) with
          | none =>
              exact ih (by rw [List.length_cons] at hfuel; omega)
          | some found =>
              rcases found with ⟨other, behind⟩
              rcases tftpSizeAt_before hat (List.cons_ne_nil _ _) with
                ⟨shorter, rfl, hshorter⟩
              show (other :: tftpSizesFrom fuel (shorter ++ 'B' :: 'y' :: back)).getLast? = _
              have hrest := @ih shorter (by omega)
              rw [List.getLast?_cons, hrest]
              rfl

theorem copyLength_report (args : Args) {size : BitVec 32} (hpos : 0 < size.toNat)
    (hsmall : size.toNat < 2 ^ 31) (front back : Text)
    (hlast : forall later, later <:+ back -> tftpSizeAt later = none) :
    copyLength args (front ++ (puts (netLoopReport size) ++ back)) =
      hexText size.toNat := by
  have hat := tftpSizeAt_report hpos hsmall back
  rcases tftpSizeAt_shape hat with ⟨line, htext, _⟩
  have hlater : forall later, later <:+ '\r' :: '\n' :: back -> tftpSizeAt later = none := by
    intro later hsuffix
    rcases List.suffix_cons_iff.mp hsuffix with rfl | hsuffix
    · rfl
    · rcases List.suffix_cons_iff.mp hsuffix with rfl | hsuffix
      · rfl
      · exact hlast later hsuffix
  unfold copyLength tftpSizes
  rw [htext] at hat ⊢
  rw [List.cons_append, List.cons_append] at hat ⊢
  have hsizes := @tftpSizesFrom_getLast front _ _ _ hat hlater
    ((front ++ 'B' :: 'y' :: (line ++ ')' :: '\r' :: '\n' :: back)).length + 1)
    (by rw [List.length_append]; omega)
  rw [hsizes]
  exact hexText_toLower _

/--
In every run of `main`, a command that changes the flash follows a `tftpboot` of the
same cycle that has come back to the prompt without a reset.  It is one of the three
of the script, and the length of the copy is the last size that the output reports;
without one, it is the size of the local file.
-/
theorem flash_follows_download {args : Args} {answers : Nat -> Answer} {limit : Nat}
    {before after : List Event} {data : Text}
    (htrace : mainTrace args answers limit = before ++ Event.sent data :: after)
    (hprogramming : IsProgramming data) :
    exists output, Downloaded args before output ∧ ProgramsFrom args output data ∧
      forall (size : BitVec 32) (front back : Text), 0 < size.toNat ->
        size.toNat < 2 ^ 31 -> output = front ++ (puts (netLoopReport size) ++ back) ->
          (forall later, later <:+ back -> tftpSizeAt later = none) ->
            copyLength args output = hexText size.toNat := by
  have hstart : Covered args (startConsole args answers limit).trace := by
    intro before data after h
    exact absurd h.symm (List.append_ne_nil_of_right_ne_nil _ (List.cons_ne_nil _ _))
  rcases main_covered args _ hstart before data after htrace hprogramming with
    ⟨output, hdownloaded, hprograms⟩
  refine ⟨output, hdownloaded, hprograms, ?_⟩
  rintro size front back hpos hsmall rfl hlast
  exact copyLength_report args hpos hsmall front back hlast

def sampleArgs : Args where
  autoReset := false
  resetLine := none
  resetActiveState := true
  displayName := chars "ttyUSB0"
  serverip := chars "192.168.1.101"
  ipaddr := chars "192.168.1.123"
  loadAddress := chars "400000"
  flashStart := chars "ff900000"
  flashEnd := chars "ff9fffff"
  goAddress := chars "1000100"
  ubootEnterAttempts := 10
  ubootCtrlCAttempts := 10
  portText := chars "/dev/ttyUSB0 at 9600 baud"
  resetText := []
  pulseText := []
  delayText := chars "5.0"
  artifactSize := 262144
  letter := fun _ => false

/-- A read that returns a text, after a look at the clock. -/
def readAnswers (chunk : String) : List Answer :=
  [{ chunk := [], late := false }, { chunk := chars chunk, late := false }]

def lateAnswer : Answer where
  chunk := []
  late := true

/-- A board that boots, and answers `tftpboot` with the given text. -/
def sampleAnswers (download : String) (n : Nat) : Answer :=
  (readAnswers "*** ELTEC Elektronik, Mainz ***\r\n" ++ readAnswers "Loading 1000100\r\n" ++
    [{ chunk := [], late := false }, lateAnswer, lateAnswer] ++
    readAnswers "U-Boot 2010.09\r\n=> " ++ readAnswers "setenv\r\n=> " ++
    readAnswers "setenv\r\n=> " ++ readAnswers download ++
    readAnswers "protect off\r\nUn-Protected 16 sectors\r\n=> " ++
    readAnswers "erase\r\nErased 16 sectors\r\n=> " ++
    readAnswers "cp.b\r\nCopy to Flash... done\r\n=> ").getD n lateAnswer

def sampleTrace (download : String) : List Event :=
  mainTrace sampleArgs (sampleAnswers download) 4

theorem split_at {events : List Event} {n : Nat} {event : Event}
    (h : events[n]? = some event) :
    events = events.take n ++ event :: events.drop (n + 1) := by
  rcases List.getElem?_eq_some_iff.mp h with ⟨hn, rfl⟩
  rw [← List.drop_eq_getElem_cons hn, List.take_append_drop]

theorem flash_follows_download_sample :
    exists output, Downloaded sampleArgs ((sampleTrace
      "tftpboot\r\nBytes transferred = 255 (ff hex)\r\n=> ").take 36) output := by
  have hsent : (sampleTrace "tftpboot\r\nBytes transferred = 255 (ff hex)\r\n=> ")[36]? =
      some (Event.sent (chars "cp.b 400000 ff900000 ff\r")) := by
    decide +kernel
  rcases flash_follows_download (split_at hsent) (by decide) with ⟨output, hdownloaded, _⟩
  exact ⟨output, hdownloaded⟩

/-- Without a size in the output, the local file gives the length of the copy. -/
theorem flash_without_download :
    ¬ (forall (args : Args) (answers : Nat -> Answer) (limit : Nat)
        (before after : List Event) (data : Text),
      mainTrace args answers limit = before ++ Event.sent data :: after -> IsProgramming data ->
        tftpSizes (receivedText before) ≠ []) := by
  intro hclaim
  have hsent : (sampleTrace "tftpboot\r\nTFTP error: 'File not found' (1)\r\n=> ")[37]? =
      some (Event.sent (chars "cp.b 400000 ff900000 40000\r")) := by
    decide +kernel
  refine hclaim _ _ _ _ _ _ (split_at hsent) (by decide) ?_
  decide +kernel

end Console
end Bab750
