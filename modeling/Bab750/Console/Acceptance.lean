import Bab750.Console.Protocol

/-!
# What a successful run has seen

A run of `main` that returns has been through a last cycle whose commands have all come
back, and whose replies did not make `validate_flash_programming` give up.
-/

namespace Bab750
namespace Console

open Foundation
open Script

variable {S : Type}

/-!
# The replies of the last cycle
-/

def downloaded (shell : Shell S) (m : Monitor S) (args : Args) : Monitor S :=
  ranCommands shell m [setenvServerip args, setenvIpaddr args, tftpboot args]

/-- The board behind `protect off`. -/
def unprotected (shell : Shell S) (m : Monitor S) (args : Args) : Monitor S :=
  ranCommand shell (downloaded shell m args) (protectOff args)

def erased (shell : Shell S) (m : Monitor S) (args : Args) : Monitor S :=
  ranCommand shell (unprotected shell m args) (eraseFlash args)

/-- The command that copies the image, as the reply to the download determines it. -/
def copyCommand (shell : Shell S) (m : Monitor S) (args : Args) : Text :=
  copyToFlash args (copyLength args (replyText shell
    (ranCommands shell m [setenvServerip args, setenvIpaddr args]) (tftpboot args)))

structure Accepted (shell : Shell S) (m : Monitor S) (args : Args) : Prop where
  protect : flashOutputHasSectorBoundaryError
    (replyText shell (downloaded shell m args) (protectOff args)) = false
  erase : flashOutputHasSectorBoundaryError
    (replyText shell (unprotected shell m args) (eraseFlash args)) = false
  copy : flashOutputHasNotErasedError
    (replyText shell (erased shell m args) (copyCommand shell m args)) = false

theorem validateFlashProgramming_returns {pre : SerialConsole -> Prop}
    (protectOutput eraseOutput copyOutput : Text) :
    Returns pre (validateFlashProgramming protectOutput eraseOutput copyOutput)
      (fun _ w => pre w ∧ flashOutputHasSectorBoundaryError protectOutput = false ∧
        flashOutputHasSectorBoundaryError eraseOutput = false ∧
          flashOutputHasNotErasedError copyOutput = false) := by
  intro w value u hw hrun
  rcases bind_eq_ok hrun with ⟨_, v, hwhen, hrun⟩
  split at hrun
  · rcases bind_eq_ok hrun with ⟨_, _, _, hraise⟩
    cases (Prod.mk.inj hraise).left
  case isFalse hcopy =>
      split at hrun
      · cases (Prod.mk.inj hrun).left
      case isFalse hboundary =>
          rw [Bool.not_eq_true] at hboundary hcopy
          rcases Prod.mk.inj hrun with ⟨_, rfl⟩
          rw [hboundary] at hwhen
          rcases Prod.mk.inj hwhen with ⟨_, rfl⟩
          rcases Bool.or_eq_false_iff.mp hboundary with ⟨hprotect, herase⟩
          exact ⟨hw, hprotect, herase, hcopy⟩

def CycleDone (shell : Shell S) (m₀ : Monitor S) (base : SerialConsole) (args : Args)
    (w : SerialConsole) : Prop :=
  base.trace <+: w.trace ∧ forall rest link, w.trace = base.trace ++ rest ->
    Served shell (settledLink m₀) rest link ->
      Idle shell m₀ base (cycleCommands shell m₀ args) w ∧ Accepted shell m₀ args

section Cycle

variable {shell : Shell S} {m₀ : Monitor S} {base : SerialConsole} {args : Args}

def RepliesBeforeCopy (shell : Shell S) (m₀ : Monitor S) (args : Args)
    (output protectOutput eraseOutput : Text) : Prop :=
  output = replyText shell (ranCommands shell m₀ [setenvServerip args, setenvIpaddr args])
    (tftpboot args) ∧
    protectOutput = replyText shell (downloaded shell m₀ args) (protectOff args) ∧
      eraseOutput = replyText shell (unprotected shell m₀ args) (eraseFlash args)

theorem copy_accepted (hline : m₀.line = [])
    (horderly : Orderly shell m₀ base.buffer.length (cycleCommands shell m₀ args))
    (output protectOutput eraseOutput : Text) :
    Returns (InStep shell m₀ base [setenvServerip args, setenvIpaddr args, tftpboot args,
        protectOff args, eraseFlash args]
        (RepliesBeforeCopy shell m₀ args output protectOutput eraseOutput))
      (do
        let copyOutput ← runUbootCommand (copyToFlash args (copyLength args output))
        validateFlashProgramming protectOutput eraseOutput copyOutput)
      (fun _ => CycleDone shell m₀ base args) := by
  rintro w value u hstep hrun
  rcases bind_eq_ok hrun with ⟨copyOutput, v, hcopy, hvalidate⟩
  have hvalid := @validateFlashProgramming_returns (fun x => x = v) protectOutput eraseOutput
    copyOutput v value u rfl hvalidate
  rcases hvalid with ⟨rfl, hprotect, herase, hcopied⟩
  have hkept := (whenServed_keeps (onlyAppends_any _)).returns w copyOutput u hstep.right hcopy
  refine ⟨hkept.left, ?_⟩
  intro rest link hrest hlink
  rcases hkept.right rest link hrest hlink with ⟨rfl, rfl, rfl⟩
  have hdone := runUbootCommand_inStep hline horderly w copyOutput u hstep.left hcopy
  have hreply := hdone.right rest link hrest hlink
  subst hreply
  exact ⟨hdone.left, hprotect, herase, hcopied⟩

theorem flashCommands_done (hline : m₀.line = [])
    (horderly : Orderly shell m₀ base.buffer.length (cycleCommands shell m₀ args)) :
    Returns (InStep shell m₀ base [] True) (flashCommands args)
      (fun _ => CycleDone shell m₀ base args) := by
  refine returns_bind (runUbootCommand_reply hline horderly) (fun _ => ?_)
  refine returns_bind (runUbootCommand_reply hline horderly) (fun _ => ?_)
  refine returns_bind (runUbootCommand_reply hline horderly) (fun output => ?_)
  refine returns_bind (parseTftpSizeHex_length hline horderly.plain_download)
    (fun sizeHex => ?_)
  refine returns_of_pure (fun hlength => ?_)
  subst hlength
  refine returns_bind (runUbootCommand_reply hline horderly) (fun protectOutput => ?_)
  refine returns_bind (runUbootCommand_reply hline horderly) (fun eraseOutput => ?_)
  refine returns_weaken (copy_accepted hline horderly output protectOutput eraseOutput) ?_
    (fun _ _ h => h)
  rintro w ⟨hidle, hfact⟩
  exact ⟨hidle, hfact.weaken (fun h => ⟨h.left.left.right, h.left.right, h.right⟩)⟩

end Cycle

/-!
# The buffer of a run
-/

def bufferOf (events : List Event) : Text := events.foldl bufferAfter []

/-- The buffer holds what the events of the run have left in it. -/
def Coherent (w : SerialConsole) : Prop := w.buffer = bufferOf w.trace

theorem coherent_keeps {α : Type} {script : Serial α}
    (h : OnlyAppends (fun _ => True) script) : Keeps Coherent script := by
  refine h (fun buffer trace => buffer = bufferOf trace) ?_
  intro buffer trace event _ hbuffer
  unfold bufferOf
  rw [List.foldl_append, hbuffer]
  rfl

theorem permits_any : PermitsAll (fun _ => True) where
  received := fun _ => trivial
  message := fun _ _ => trivial
  resetLine := fun _ => trivial
  reopened := trivial
  enter := trivial
  ctrlC := trivial
  answer := trivial
  load := trivial
  line := fun _ => trivial
  returned := fun _ _ => trivial

theorem onlyAppends_parseTftpSizeHex {allowed : Event -> Prop} (output : Text) (size : Nat)
    (h : forall text, text.head? = some 'C' -> allowed (.message .log text)) :
    OnlyAppends allowed (parseTftpSizeHex output size) := by
  unfold parseTftpSizeHex
  cases (tftpSizes output).getLast? with
  | some hex =>
      exact onlyAppends_pure _
  | none =>
      exact onlyAppends_bind (onlyAppends_note (h _ rfl)) (fun _ => onlyAppends_pure _)

def acquired : Event := .message .log promptAcquired

theorem flashCommands_notAcquired (args : Args) :
    OnlyAppends (fun event => event ≠ acquired) (flashCommands args) := by
  have hlog : forall text : Text, text.head? ≠ some 'U' ->
      (.message .log text : Event) ≠ acquired := by
    intro text htext h
    injection h with _ hsame
    rw [hsame] at htext
    exact htext rfl
  have hcommand : forall command,
      OnlyAppends (fun event => event ≠ acquired) (runUbootCommand command) := by
    intro command
    refine onlyAppends_runUbootCommand (hlog _ ?_) ?_ ?_ ?_
    · show some 'S' ≠ some 'U'
      decide
    · intro h
      cases h
    · intro chunk h
      cases h
    · intro output h
      cases h
  refine onlyAppends_bind (hcommand _) (fun _ => ?_)
  refine onlyAppends_bind (hcommand _) (fun _ => ?_)
  refine onlyAppends_bind (hcommand _) (fun output => ?_)
  refine onlyAppends_bind (onlyAppends_parseTftpSizeHex _ _ ?_) (fun sizeHex => ?_)
  · intro text htext
    exact hlog text (by rw [htext]; decide)
  refine onlyAppends_bind (hcommand _) (fun protectOutput => ?_)
  refine onlyAppends_bind (hcommand _) (fun eraseOutput => ?_)
  refine onlyAppends_bind (hcommand _) (fun copyOutput => ?_)
  have herror : forall text, (.message .error text : Event) ≠ acquired := by
    intro text h
    injection h with hlevel _
    cases hlevel
  refine onlyAppends_bind (onlyAppends_when (onlyAppends_note (herror _))) (fun _ => ?_)
  refine onlyAppends_ite ?_ (onlyAppends_ite (onlyAppends_raise _) (onlyAppends_pure _))
  exact onlyAppends_bind (onlyAppends_note (herror _)) (fun _ => onlyAppends_raise _)

/-!
# The end of a run
-/

def finishedMessages : List Event :=
  [Event.message .log (chars "Flash programming finished"),
    .message .message (chars "Switch the memory addressing mode, then reboot the machine.")]

/-- A console behind the message that the prompt was acquired. -/
def logged (w : SerialConsole) : SerialConsole :=
  { w with trace := w.trace ++ [acquired] }

def LastCycle (args : Args) (w : SerialConsole) : Prop :=
  exists w₁, Coherent w₁ ∧ flashCommands args (logged w₁) = (.ok (), w)

theorem cycle_last (args : Args) (restartFrom : Option Nat) :
    Returns Coherent (cycle args restartFrom) (fun _ => LastCycle args) := by
  have hany := permits_any.toPermits
  refine returns_bind (coherent_keeps (permitted_cycleStart hany args restartFrom)).returns
    (fun start => ?_)
  refine returns_bind (coherent_keeps (permitted_waitForBootromLoading hany args start)).returns
    (fun _ => ?_)
  refine returns_bind (coherent_keeps (onlyAppends_note trivial)).returns
    (fun _ => ?_)
  refine returns_bind (coherent_keeps (permitted_sleepWithResetWatch hany)).returns
    (fun _ => ?_)
  refine returns_bind (coherent_keeps (onlyAppends_sendLine trivial trivial)).returns
    (fun _ => ?_)
  refine returns_bind (coherent_keeps (permitted_waitForUBootPrompt hany args)).returns
    (fun _ => ?_)
  intro w value u hw hrun
  exact ⟨w, hw, hrun⟩

theorem mainPass_last (args : Args) (restartFrom : Option Nat) :
    Returns Coherent (mainPass args restartFrom)
      (passHolds (fun _ => Coherent) (fun _ => LastCycle args)) := by
  intro w pass u hw hrun
  rcases bind_eq_ok hrun with ⟨result, v, hattempt, hrest⟩
  have hcycle := coherent_keeps (permitted_cycle permits_any args restartFrom)
  have hcoherent := (keeps_attempt hcycle).returns w result v hw hattempt
  cases result with
  | ok value =>
      rcases Prod.mk.inj hrest with ⟨hpass, rfl⟩
      rw [← Outcome.ok.inj hpass]
      unfold attempt at hattempt
      rcases hran : cycle args restartFrom w with ⟨outcome, x⟩
      rw [hran] at hattempt
      cases outcome with
      | ok done =>
          rcases Prod.mk.inj hattempt with ⟨_, rfl⟩
          exact cycle_last args restartFrom w done x hw hran
      | raised failure =>
          dsimp only at hattempt
          cases hposition : resetPosition failure with
          | none =>
              rw [hposition] at hattempt
              cases (Prod.mk.inj hattempt).left
          | some position =>
              rw [hposition] at hattempt
              cases (Prod.mk.inj hattempt).left
      | running =>
          cases (Prod.mk.inj hattempt).left
  | error position =>
      rcases bind_eq_ok hrest with ⟨_, x, hwarn, hpure⟩
      rcases Prod.mk.inj hpure with ⟨hpass, rfl⟩
      rw [← Outcome.ok.inj hpass]
      exact (coherent_keeps (onlyAppends_note trivial)).returns v _ x hcoherent hwarn

/-- A run that returns ends with a cycle whose commands have all come back. -/
theorem main_last (args : Args) :
    Returns Coherent (main args) (fun code u => code = 0 ∧ exists w, LastCycle args w ∧
      u.trace = w.trace ++ finishedMessages) := by
  intro w code u hw hrun
  unfold main at hrun
  split at hrun
  · cases (Prod.mk.inj hrun).left
  · rcases bind_eq_ok hrun with ⟨_, v₁, hopen, hrun⟩
    rcases bind_eq_ok hrun with ⟨_, v₂, hlog, hrun⟩
    rcases bind_eq_ok hrun with ⟨_, v₃, hreset, hrun⟩
    rcases bind_eq_ok hrun with ⟨_, v₄, hloop, hrun⟩
    rcases bind_eq_ok hrun with ⟨_, v₅, hfinished, hrun⟩
    rcases bind_eq_ok hrun with ⟨_, v₆, hmessage, hrun⟩
    have h₁ := (coherent_keeps (permitted_openPort permits_any.toPermits)).returns _ _ _ hw hopen
    have h₂ := (coherent_keeps (onlyAppends_note trivial)).returns _ _ _ h₁ hlog
    have h₃ := (coherent_keeps (onlyAppends_when (onlyAppends_note trivial))).returns _ _ _ h₂
      hreset
    have h₄ := returns_loop _ (mainPass_last args) none v₃ () v₄ h₃ hloop
    rcases Prod.mk.inj hfinished with ⟨_, rfl⟩
    rcases Prod.mk.inj hmessage with ⟨_, rfl⟩
    rcases Prod.mk.inj hrun with ⟨hcode, rfl⟩
    refine ⟨(Outcome.ok.inj hcode).symm, v₄, h₄, ?_⟩
    show v₄.trace ++ [_] ++ [_] = _
    rw [List.append_assoc]
    rfl

theorem split_last_unique {α : Type} {a b c d : List α} {x : α}
    (h : a ++ x :: b = c ++ x :: d) (hb : x ∉ b) (hd : x ∉ d) : a = c ∧ b = d := by
  rcases List.append_eq_append_iff.mp h with ⟨front, hc, hrest⟩ | ⟨front, ha, hrest⟩
  · cases front with
    | nil =>
        rw [List.append_nil] at hc
        exact ⟨hc.symm, (List.cons.inj hrest).right⟩
    | cons y front =>
        have hmem : x ∈ b := by
          rw [(List.cons.inj hrest).right]
          exact List.mem_append_right _ List.mem_cons_self
        exact absurd hmem hb
  · cases front with
    | nil =>
        rw [List.append_nil] at ha
        exact ⟨ha, (List.cons.inj hrest).right.symm⟩
    | cons y front =>
        have hmem : x ∈ d := by
          rw [(List.cons.inj hrest).right]
          exact List.mem_append_right _ List.mem_cons_self
        exact absurd hmem hd

theorem cycleDone_message {shell : Shell S} {m₀ : Monitor S} {base : SerialConsole}
    {args : Args} {w : SerialConsole} (hline : m₀.line = [])
    (hplain : forall command, command ∈ cycleCommands shell m₀ args -> PlainCommand command)
    (h : CycleDone shell m₀ base args w) (level : Level) (text : Text) :
    CycleDone shell m₀ base args { w with trace := w.trace ++ [Event.message level text] } := by
  rcases h with ⟨⟨rest, hrest⟩, hdone⟩
  refine ⟨⟨rest ++ [Event.message level text], by rw [← List.append_assoc, hrest]⟩, ?_⟩
  intro other link hother hlink
  have hsame : other = rest ++ [Event.message level text] := by
    dsimp only at hother
    rw [← hrest, List.append_assoc] at hother
    exact (List.append_cancel_left hother).symm
  subst hsame
  rcases served_front hlink with ⟨earlier, hearlier⟩
  rcases hdone rest earlier hrest.symm hearlier with ⟨hidle, haccepted⟩
  exact ⟨idle_message hline hplain hidle level text, haccepted⟩

/--
In every run of `main` that returns, the events behind the last prompt have brought the
board through the commands of the cycle, and its replies were accepted.
-/
theorem main_accepted {shell : Shell S} {m : Monitor S} {args : Args}
    {answers : Nat -> Answer} {limit code : Nat} {u : SerialConsole}
    {before after : List Event} {link : Link S}
    (hmain : main args (startConsole args answers limit) = (.ok code, u))
    (hsplit : u.trace = before ++ acquired :: after) (hlast : acquired ∉ after)
    (hline : m.line = [])
    (horderly : Orderly shell m (bufferOf before).length (cycleCommands shell m args))
    (hserved : Served shell (settledLink m) after link) :
    link = settledLink (ranCommands shell m (cycleCommands shell m args)) ∧
      Accepted shell m args := by
  have hstart : Coherent (startConsole args answers limit) := rfl
  rcases main_last args _ code u hstart hmain with
    ⟨_, w, ⟨w₁, hcoherent, hcommands⟩, htrace⟩
  -- the events of the last cycle hold no other message of this kind
  have hevents : exists events, w.trace = w₁.trace ++ acquired :: events ∧
      acquired ∉ events := by
    have hkeeps := (flashCommands_notAcquired args).keeps (fun trace =>
      exists events, trace = w₁.trace ++ acquired :: events ∧ acquired ∉ events) (by
        rintro trace event hevent ⟨events, rfl, hnot⟩
        refine ⟨events ++ [event], by rw [List.append_assoc, List.cons_append], ?_⟩
        rw [List.mem_append, List.mem_singleton, not_or]
        exact ⟨hnot, fun h => hevent h.symm⟩)
    have hw := hkeeps.returns (logged w₁) () w
      ⟨[], rfl, List.not_mem_nil⟩ hcommands
    exact hw
  rcases hevents with ⟨events, hw, hnot⟩
  have hfinished : acquired ∉ finishedMessages := by
    decide
  have hunique := split_last_unique
    (show before ++ acquired :: after = w₁.trace ++ acquired :: (events ++ finishedMessages) by
      rw [← hsplit, htrace, hw, List.append_assoc, List.cons_append])
    hlast (by rw [List.mem_append, not_or]; exact ⟨hnot, hfinished⟩)
  rcases hunique with ⟨rfl, rfl⟩
  rw [← hcoherent] at horderly
  have hidle : Idle shell m (logged w₁) [] (logged w₁) := idle_start hline
  have hdone := @flashCommands_done _ shell m (logged w₁) args hline horderly (logged w₁) () w
    (inStep_of_idle hidle) hcommands
  have hlog := cycleDone_message hline horderly.plain hdone .log
    (chars "Flash programming finished")
  have hfinal := cycleDone_message hline horderly.plain hlog .message
    (chars "Switch the memory addressing mode, then reboot the machine.")
  have hrest : w.trace ++ [Event.message .log (chars "Flash programming finished")] ++
      [Event.message .message
        (chars "Switch the memory addressing mode, then reboot the machine.")] =
        (logged w₁).trace ++ (events ++ finishedMessages) := by
    show _ = w₁.trace ++ [acquired] ++ (events ++ finishedMessages)
    rw [hw]
    simp only [List.append_assoc, List.cons_append, List.nil_append]
    rfl
  rcases hfinal.right _ link hrest hserved with ⟨hidle, haccepted⟩
  rcases hidle.settled with ⟨rest, hsince, hsettled⟩
  have hsame : rest = events ++ finishedMessages :=
    List.append_cancel_left (hsince.trace.symm.trans hrest)
  subst hsame
  exact ⟨hsettled.link link hserved, haccepted⟩

end Console
end Bab750
