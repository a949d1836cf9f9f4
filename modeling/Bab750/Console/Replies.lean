import Bab750.Console.Protocol

/-!
# A board that replies at once

The replies to some commands, and the events of a script that gets each of them in one piece.
-/

namespace Bab750
namespace Console

open Foundation
open Script

section Replies

variable {S : Type} (shell : Shell S)

def repliesOf : Monitor S -> List Text -> List Text
  | _, [] => []
  | m, command :: commands =>
      replyText shell m command :: repliesOf (ranCommand shell m command) commands

def outputsOf : S -> List Text -> List Text
  | _, [] => []
  | s, command :: commands =>
      (shell.runCommand s command false).1 ::
        outputsOf (shell.runCommand s command false).2.1 commands

def replyOf (command output : Text) : Text :=
  command ++ (puts ['\r', '\n'] ++ puts output ++ puts prompt)

variable {shell}

theorem repliesOf_outputs (m : Monitor S) (commands : List Text) :
    repliesOf shell m commands =
      List.zipWith replyOf commands (outputsOf shell m.shell commands) := by
  induction commands generalizing m with
  | nil =>
      rfl
  | cons command commands ih =>
      exact congrArg (replyText shell m command :: ·) (ih (ranCommand shell m command))

theorem reply_mem {m : Monitor S} {front back : List Text} {command : Text} :
    replyText shell (ranCommands shell m front) command ∈
      repliesOf shell m (front ++ command :: back) := by
  induction front generalizing m with
  | nil =>
      exact List.mem_cons_self
  | cons first front ih =>
      exact List.mem_cons_of_mem _ ih

theorem mainLoop_replies {m : Monitor S} (hline : m.line = []) (commands : List Text)
    (hplain : forall command, command ∈ commands -> PlainCommand command) :
    (mainLoop shell m (commandLines commands)).1 = (repliesOf shell m commands).flatten := by
  induction commands generalizing m with
  | nil =>
      rfl
  | cons command commands ih =>
      have hrest := ih (m := ranCommand shell m command) rfl
        (fun other hother => hplain other (List.mem_cons_of_mem _ hother))
      show (mainLoop shell m (command ++ ['\r'] ++ commandLines commands)).1 = _
      rw [mainLoop_append, mainLoop_command shell hline (hplain _ List.mem_cons_self), hrest]
      rfl

theorem promptAtEnd_of_dropLast {text : Text} (h : promptRe.found text.dropLast = false) :
    PromptAtEnd text := by
  rintro front back rfl hprompt
  rcases List.eq_nil_or_concat back with hback | ⟨rest, last, rfl⟩
  · exact hback
  · rw [List.concat_eq_append, ← List.append_assoc, List.dropLast_concat] at h
    have hfound := Pattern.found_of_within local_promptRe
      (List.prefix_append front rest).isInfix hprompt
    rw [h] at hfound
    cases hfound

theorem orderly_of_replies {m : Monitor S} (hline : m.line = []) {buffered : Nat}
    {commands replies : List Text} (hreplies : repliesOf shell m commands = replies)
    (hplain : forall command, command ∈ commands -> PlainCommand command)
    (hends : forall reply, reply ∈ replies -> promptRe.found reply.dropLast = false)
    (hroom : buffered + replies.flatten.length <= bufferLimit) :
    Orderly shell m buffered commands := by
  subst hreplies
  refine ⟨hplain, ?_, ?_⟩
  · rintro front command back rfl
    exact promptAtEnd_of_dropLast (hends _ reply_mem)
  · rw [mainLoop_replies hline commands hplain]
    exact hroom

def commandEvents (command reply : Text) : List Event :=
  [Event.message .log (chars "Serial send: " ++ command), .sent (command ++ ['\r']),
    .received reply, .returned command reply]

def cycleEvents (commands replies : List Text) : List Event :=
  (List.zipWith commandEvents commands replies).flatten

theorem served_command {start : Link S} {events : List Event} {m : Monitor S}
    (hline : m.line = []) {command : Text} (hplain : PlainCommand command)
    (h : Served shell start events (settledLink m)) :
    Served shell start (events ++ commandEvents command (replyText shell m command))
      (settledLink (ranCommand shell m command)) := by
  have hread := served_ran hline hplain
    (served_message .log (chars "Serial send: " ++ command) h)
  rw [List.nil_append, ← List.append_nil (replyText shell m command)] at hread
  have hreceived := Served.received (replyText shell m command) hread
  have hreturned := Served.other (.returned command (replyText shell m command))
    (fun _ hevent => by cases hevent) (fun _ hevent => by cases hevent) hreceived
  rw [List.append_assoc, List.append_assoc, List.append_assoc] at hreturned
  exact hreturned

theorem served_cycle {start : Link S} {events : List Event} {m : Monitor S}
    (hline : m.line = []) (commands : List Text)
    (hplain : forall command, command ∈ commands -> PlainCommand command)
    (h : Served shell start events (settledLink m)) :
    Served shell start (events ++ cycleEvents commands (repliesOf shell m commands))
      (settledLink (ranCommands shell m commands)) := by
  induction commands generalizing m events with
  | nil =>
      rw [show cycleEvents [] (repliesOf shell m []) = [] from rfl, List.append_nil]
      exact h
  | cons command commands ih =>
      have hfirst := served_command hline (hplain _ List.mem_cons_self) h
      have hrest := ih rfl (fun other hother => hplain other (List.mem_cons_of_mem _ hother))
        hfirst
      rw [List.append_assoc] at hrest
      exact hrest

end Replies

end Console
end Bab750
