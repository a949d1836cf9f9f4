import Bab750.Console.Dialog
import Bab750.Console.LinuxBoot

/-!
# Both scripts at the dialog

`wait_for_u_boot_prompt` of either script is the watcher of the dialog, pass by pass.
-/

namespace Bab750
namespace Console

open Foundation
open Script
open Pattern

/-!
# The console while it is fed
-/

/-- Reads that return the chunks one after the other; no deadline passes. -/
def chunkAnswer (chunks : List Text) (n : Nat) : Answer where
  chunk := if n % 2 = 1 then chunks.getD (n / 2) [] else []
  late := false

def answersSent (events : List Event) : Nat := events.count (.sent (chars "C\r"))

/-- A console that has read some of the chunks behind the text that it had. -/
structure Fed (before : Text) (chunks : List Text) (limit sent k : Nat)
    (w : SerialConsole) : Prop where
  upcoming : forall n, w.answers (w.asked + n) = chunkAnswer (chunks.drop k) n
  buffer : w.buffer = before ++ textRead chunks k
  limit : w.limit = limit
  sent : answersSent w.trace = sent

def readTurn {β : Type} (expired : Serial β) (next : β) : Serial β := do
  let passed ← late
  if passed then expired
  else do
    let _ ← readOnce
    pure next

theorem chunkAnswer_add_two (chunks : List Text) (k n : Nat) :
    chunkAnswer (chunks.drop k) (2 + n) = chunkAnswer (chunks.drop (k + 1)) n := by
  unfold chunkAnswer
  have hodd : (2 + n) % 2 = n % 2 := by omega
  have hhalf : (2 + n) / 2 = 1 + n / 2 := by omega
  rw [hodd, hhalf, List.getD_eq_getElem?_getD, List.getD_eq_getElem?_getD,
    List.getElem?_drop, List.getElem?_drop, Nat.add_assoc]

theorem answersSent_append (first second : List Event) :
    answersSent (first ++ second) = answersSent first + answersSent second :=
  List.count_append

theorem Fed.withEvents {before : Text} {chunks : List Text} {limit sent k : Nat}
    {w : SerialConsole} (h : Fed before chunks limit sent k w) (events : List Event) :
    Fed before chunks limit (sent + answersSent events) k (Linux.withEvents w events) where
  upcoming := h.upcoming
  buffer := h.buffer
  limit := h.limit
  sent := by
    show answersSent (w.trace ++ events) = _
    rw [answersSent_append, h.sent]

theorem Fed.since {before : Text} {chunks : List Text} {limit sent k : Nat}
    {w : SerialConsole} (h : Fed before chunks limit sent k w) (start : Nat) :
    w.buffer.drop (before.length + start) = (textRead chunks k).drop start := by
  rw [h.buffer, List.drop_length_add_append]

theorem Fed.mark {before : Text} {chunks : List Text} {limit sent k : Nat}
    {w : SerialConsole} (h : Fed before chunks limit sent k w) :
    w.buffer.length = before.length + charsRead chunks k := by
  rw [h.buffer, List.length_append]
  rfl

theorem readTurn_fed {β : Type} {before : Text} {chunks : List Text} {limit sent k : Nat}
    {w : SerialConsole} (h : Fed before chunks limit sent k w)
    (hroom : before.length + chunks.flatten.length <= bufferLimit) (expired : Serial β)
    (next : β) :
    exists u, readTurn expired next w = (.ok next, u) ∧
      Fed before chunks limit sent (k + 1) u := by
  have hlate : (w.answers w.asked).late = false := by
    have := h.upcoming 0
    rw [Nat.add_zero] at this
    rw [this]
    rfl
  have hchunk : (w.answers (w.asked + 1)).chunk = chunks.getD k [] := by
    rw [h.upcoming 1]
    show (chunks.drop k).getD 0 [] = _
    rw [List.getD_eq_getElem?_getD, List.getElem?_drop, List.getD_eq_getElem?_getD]
    rfl
  have hupcoming : forall n, w.answers (w.asked + 1 + 1 + n) =
      chunkAnswer (chunks.drop (k + 1)) n := by
    intro n
    rw [← chunkAnswer_add_two, ← h.upcoming]
    congr 1
    omega
  have hturn : readTurn expired next w =
      (readOnce >>= fun _ => pure next : Serial β) { w with asked := w.asked + 1 } := by
    show (if (w.answers w.asked).late = true then expired else _) _ = _
    rw [hlate]
    rfl
  rw [hturn]
  show exists u, ((if (w.answers (w.asked + 1)).chunk.isEmpty then (pure [] : Serial Text)
    else _) >>= fun _ => pure next : Serial β) { w with asked := w.asked + 1 + 1 } = _ ∧ _
  rw [hchunk]
  have hsucc := textRead_succ chunks k
  have hroom' : (w.buffer ++ chunks.getD k []).length <= bufferLimit := by
    have hle := charsRead_le chunks (k + 1)
    rw [h.buffer, List.append_assoc, ← hsucc, List.length_append]
    unfold charsRead at hle
    omega
  split
  case isTrue hempty =>
      rw [List.isEmpty_iff] at hempty
      refine ⟨_, rfl, hupcoming, ?_, h.limit, h.sent⟩
      rw [hsucc, hempty, List.append_nil]
      exact h.buffer
  case isFalse =>
      refine ⟨_, rfl, hupcoming, ?_, h.limit, ?_⟩
      · show appendBuffer w.buffer _ = _
        unfold appendBuffer
        rw [if_neg (by omega), hsucc, ← List.append_assoc, ← h.buffer]
      · show answersSent (w.trace ++ [_]) = _
        rw [answersSent_append, h.sent]
        rfl

/-!
# A script that watches
-/

/-- The variables of `wait_for_u_boot_prompt` that decide. -/
structure PromptView where
  start : Nat
  invalidSeen : Bool
  handled : Bool
  ignore : Bool
  attempted : Bool

def PromptView.seen (v : PromptView) (haystack : Text) : Bool :=
  v.invalidSeen || nvramInvalidRe.found haystack

def PromptView.asks (v : PromptView) (haystack : Text) : Bool :=
  v.seen haystack && !v.handled && nvramPressKeyRe.found haystack

theorem PromptView.seen_of_asks (v : PromptView) {haystack : Text}
    (h : v.asks haystack = true) : v.seen haystack = true :=
  (Bool.and_eq_true_iff.mp (Bool.and_eq_true_iff.mp h).left).left

/-- One pass of the inner loop of `wait_for_prompt_with_spam`. -/
def spamPass (autorun : Pattern) (start resetWatchStart : Nat) (_ : Unit) :
    Serial (Pass Unit (Option Bool)) := do
  raiseIfReset (some resetWatchStart)
  let haystack ← bufferSince start
  if promptRe.found haystack then pure (.done (some true))
  else if autorun.found haystack then pure (.done (some false))
  else readTurn (pure (.done none)) (.again ())

/-- What the passes of `wait_for_u_boot_prompt` do, by what is found behind the mark. -/
structure Watches {σ : Type} (pass : σ -> Serial (Pass σ Unit)) (view : σ -> PromptView)
    (autoboot autorun : Pattern) : Prop where
  answers : forall s w, (view s).asks (w.buffer.drop (view s).start) = true ->
    exists next events, pass s w = (.ok (.again next), Linux.withEvents w events) ∧
      answersSent events = 1 ∧
      view next = { view s with
        start := w.buffer.length, invalidSeen := true, handled := true, ignore := true }
  ignores : forall s w, (view s).asks (w.buffer.drop (view s).start) = false ->
    promptRe.found (w.buffer.drop (view s).start) = true -> (view s).ignore = true ->
    exists next events, pass s w = (.ok (.again next), Linux.withEvents w events) ∧
      answersSent events = 0 ∧
      view next = { view s with
        start := w.buffer.length, ignore := false
        invalidSeen := (view s).seen (w.buffer.drop (view s).start) }
  returns : forall s w, (view s).asks (w.buffer.drop (view s).start) = false ->
    promptRe.found (w.buffer.drop (view s).start) = true -> (view s).ignore = false ->
    exists events, pass s w = (.ok (.done ()), Linux.withEvents w events) ∧
      answersSent events = 0
  spams : forall s w, (view s).asks (w.buffer.drop (view s).start) = false ->
    promptRe.found (w.buffer.drop (view s).start) = false ->
    autorun.found (w.buffer.drop (view s).start) = false ->
    autoboot.found (w.buffer.drop (view s).start) = true -> (view s).attempted = false ->
    exists events, answersSent events = 0 ∧ forall u,
      (forever (spamPass autorun (view s).start w.buffer.length) ()
          (Linux.withEvents w events) = (.ok (some true), u) ->
        pass s w = (.ok (.done ()), u)) ∧
      (forever (spamPass autorun (view s).start w.buffer.length) ()
          (Linux.withEvents w events) = (.running, u) ->
        pass s w = (.running, u))
  reads : forall s w, (view s).asks (w.buffer.drop (view s).start) = false ->
    promptRe.found (w.buffer.drop (view s).start) = false ->
    autorun.found (w.buffer.drop (view s).start) = false ->
    autoboot.found (w.buffer.drop (view s).start) = false ->
    exists expired next events,
      pass s w = readTurn expired (.again next) (Linux.withEvents w events) ∧
      answersSent events = 0 ∧
      view next = { view s with
        invalidSeen := (view s).seen (w.buffer.drop (view s).start) }

structure Follows (before : Text) (chunks : List Text) (v : PromptView) (a : Watcher) :
    Prop where
  start : v.start = before.length + a.start
  seen : v.invalidSeen = true -> a.answered = true ∨
    nvramInvalidRe.found ((textRead chunks a.reads).drop a.start) = true
  handled : v.handled = a.answered
  ignore : v.ignore = a.ignore
  attempted : v.attempted = false
  spamming : a.spamming = false
  finished : a.finished = false

def Watcher.sent (a : Watcher) : Nat := if a.answered then 1 else 0

/-- A run of a loop that makes `n` passes has followed the watcher. -/
def Tracked {α : Type} (autoboot : Pattern) (before : Text) (chunks : List Text)
    (limit base : Nat) (value : α) (n : Nat) (a : Watcher)
    (run : Outcome Failure α × SerialConsole) : Prop :=
  exists m u, Fed before chunks limit (base + (a.after autoboot chunks m).sent)
      (a.after autoboot chunks m).reads u ∧
    ((run = (.ok value, u) ∧ (a.after autoboot chunks m).finished = true) ∨
      (run = (.running, u) ∧ n <= m ∧ (a.after autoboot chunks m).finished = false))

theorem Tracked.step {α : Type} {autoboot : Pattern} {before : Text} {chunks : List Text}
    {limit base : Nat} {value : α} {n : Nat} {a : Watcher}
    {run : Outcome Failure α × SerialConsole}
    (h : Tracked autoboot before chunks limit base value n (a.next autoboot chunks) run) :
    Tracked autoboot before chunks limit base value (n + 1) a run := by
  rcases h with ⟨m, u, hu, hend⟩
  refine ⟨m + 1, u, ?_⟩
  rw [after_succ]
  refine ⟨hu, ?_⟩
  rcases hend with hdone | ⟨hrun, hm, hopen⟩
  · exact Or.inl hdone
  · exact Or.inr ⟨hrun, by omega, hopen⟩

section Refinement

variable {autoboot autorun : Pattern} (o : StartUp autoboot autorun) {chunks : List Text}
  (hchunks : chunks.flatten = o.output) {before : Text}
  (hroom : before.length + chunks.flatten.length <= bufferLimit) (hautorun : Local autorun)

include hchunks hautorun in
theorem autorun_unseen (k start : Nat) :
    autorun.found ((textRead chunks k).drop start) = false := by
  rw [haystack_window o hchunks, ← window_min]
  have hnone : autorun.found (window o.output 0 o.output.length) = false := by
    rw [window_all _ _ (Nat.le_refl _)]
    exact o.noAutorun
  exact window_unfound hautorun hnone (Nat.zero_le _) (Nat.min_le_right _ _)

include hchunks in
theorem reset_unseen (k : Nat) {start : Nat} (h : dialogPrompt o.banner <= start) :
    resetMarkerRe.search ((textRead chunks k).drop start) = none := by
  have hnone : resetMarkerRe.found (window o.output (dialogPrompt o.banner) o.output.length) =
      false := by
    rw [window_all _ _ (Nat.le_refl _)]
    exact o.noReset
  have hwindow : resetMarkerRe.found ((textRead chunks k).drop start) = false := by
    rw [haystack_window o hchunks, ← window_min]
    exact window_unfound local_resetMarkerRe hnone h (Nat.min_le_right _ _)
  exact Option.not_isSome_iff_eq_none.mp (Bool.not_eq_true _ ▸ hwindow)

include hchunks hautorun in
theorem spamPass_eq {limit sent k reset : Nat} (start : Nat)
    (hreset : dialogPrompt o.banner <= reset) {w : SerialConsole}
    (hfed : Fed before chunks limit sent k w) :
    spamPass autorun (before.length + start) (before.length + reset) () w =
      (if promptRe.found ((textRead chunks k).drop start) then pure (Pass.done (some true))
        else readTurn (pure (Pass.done none)) (Pass.again ()) :
          Serial (Pass Unit (Option Bool))) w := by
  have hnone := reset_unseen o hchunks k hreset
  have hfree := autorun_unseen o hchunks hautorun k start
  rw [← hfed.since] at hnone hfree
  rw [← hfed.since]
  have hraise : raiseIfReset (some (before.length + reset)) w = (.ok (), w) := by
    rw [raiseIfReset_some, hnone]
    rfl
  unfold spamPass
  rw [Script.bind_of_ok hraise]
  show (if promptRe.found _ then _ else if autorun.found _ then _ else _ :
    Serial (Pass Unit (Option Bool))) w = _
  rw [hfree]
  rfl

include hchunks hroom hautorun in
theorem spam_tracked {limit base reset : Nat} (hreset : dialogPrompt o.banner <= reset)
    (start : Nat) (ignore : Bool) (n k : Nat) {w : SerialConsole}
    (hfed : Fed before chunks limit (base + 1) k w) :
    Tracked autoboot before chunks limit base (some true) n
      ⟨k, start, true, ignore, true, false⟩
      (loopFrom (spamPass autorun (before.length + start) (before.length + reset)) n () w) := by
  induction n generalizing k w with
  | zero =>
      exact ⟨0, w, hfed, Or.inr ⟨rfl, Nat.le_refl 0, rfl⟩⟩
  | succ n ih =>
      have hpass := spamPass_eq o hchunks hautorun start hreset hfed
      refine Tracked.step ?_
      rw [next_spamming o hchunks, ← haystack_window o hchunks]
      split
      case isTrue hfound =>
          rw [if_pos hfound] at hpass
          rw [loopFrom_done hpass]
          exact ⟨0, w, hfed, Or.inl ⟨rfl, rfl⟩⟩
      case isFalse hfound =>
          rcases readTurn_fed hfed hroom (pure (Pass.done none)) (Pass.again ()) with
            ⟨v, hturn, hv⟩
          rw [if_neg hfound, hturn] at hpass
          rw [loopFrom_again hpass]
          exact ih (k + 1) hv

theorem next_waiting {a : Watcher} (hspamming : a.spamming = false)
    (hfinished : a.finished = false) :
    a.next autoboot chunks =
      if !a.answered && (nvramInvalidRe.found ((textRead chunks a.reads).drop a.start) &&
          nvramPressKeyRe.found ((textRead chunks a.reads).drop a.start)) then
        { a with answered := true, ignore := true, start := charsRead chunks a.reads }
      else if promptRe.found ((textRead chunks a.reads).drop a.start) then
        if a.ignore then { a with ignore := false, start := charsRead chunks a.reads }
        else { a with finished := true }
      else if autoboot.found ((textRead chunks a.reads).drop a.start) then
        { a with spamming := true }
      else { a with reads := a.reads + 1 } := by
  unfold Watcher.next
  dsimp only
  rw [hspamming, hfinished]
  rfl

theorem Follows.asks {v : PromptView} {a : Watcher} (h : Follows before chunks v a) :
    v.asks ((textRead chunks a.reads).drop a.start) =
      (!a.answered && (nvramInvalidRe.found ((textRead chunks a.reads).drop a.start) &&
        nvramPressKeyRe.found ((textRead chunks a.reads).drop a.start))) := by
  have hseen := h.seen
  unfold PromptView.asks PromptView.seen
  rw [h.handled]
  cases hanswered : a.answered with
  | true =>
      simp
  | false =>
      cases hinvalid : v.invalidSeen with
      | false =>
          simp
      | true =>
          rcases hseen hinvalid with hyes | hfound
          · rw [hanswered] at hyes
            cases hyes
          · rw [hfound]
            simp

theorem invalid_stays {k start : Nat}
    (h : nvramInvalidRe.found ((textRead chunks k).drop start) = true) :
    nvramInvalidRe.found ((textRead chunks (k + 1)).drop start) = true := by
  refine found_of_within local_nvramInvalidRe ?_ h
  rw [textRead_succ]
  exact (List.IsPrefix.drop (List.prefix_append _ _) start).isInfix

variable (hautoboot : Local autoboot)

include hchunks hroom hautorun hautoboot

theorem passes_tracked {σ : Type} {pass : σ -> Serial (Pass σ Unit)} {view : σ -> PromptView}
    (hpass : Watches pass view autoboot autorun) {limit base : Nat} (n : Nat)
    (hn : n <= limit) (s : σ) (a : Watcher) {w : SerialConsole} (hsound : a.Sound o chunks)
    (hfollows : Follows before chunks (view s) a)
    (hfed : Fed before chunks limit (base + a.sent) a.reads w) :
    Tracked autoboot before chunks limit base () n a (loopFrom pass n s w) := by
  induction n generalizing s a w with
  | zero =>
      exact ⟨0, w, hfed, Or.inr ⟨rfl, Nat.le_refl 0, hfollows.finished⟩⟩
  | succ n ih =>
      have hsince : w.buffer.drop (view s).start = (textRead chunks a.reads).drop a.start := by
        rw [hfollows.start, hfed.since]
      have hasks := hfollows.asks
      have hanswers := hpass.answers s w
      have hignores := hpass.ignores s w
      have hreturns := hpass.returns s w
      have hspams := hpass.spams s w
      have hreads := hpass.reads s w
      have hnext := sound_next o hchunks hautoboot hsound
      rw [hsince, hasks] at hanswers hignores hreturns hspams hreads
      refine Tracked.step ?_
      rw [next_waiting hfollows.spamming hfollows.finished] at hnext ⊢
      split at hnext
      case isTrue hask =>
          rw [if_pos hask]
          rcases hanswers hask with ⟨next, events, hrun, hevents, hview⟩
          have hopen : a.answered = false := by
            cases h : a.answered with
            | false =>
                rfl
            | true =>
                rw [h] at hask
                cases hask
          have hu := hfed.withEvents events
          rw [loopFrom_again hrun]
          refine ih (by omega) next _ hnext ?_ ?_
          · rw [hview]
            exact ⟨hfed.mark, fun _ => Or.inl rfl, rfl, rfl, hfollows.attempted,
              hfollows.spamming, hfollows.finished⟩
          · rw [hevents] at hu
            unfold Watcher.sent at hu
            rw [hopen] at hu
            exact hu
      case isFalse hask =>
          rw [if_neg hask]
          have hnot := Bool.not_eq_true _ ▸ hask
          split at hnext
          case isTrue hprompt =>
              rw [if_pos hprompt]
              split at hnext
              case isTrue hignore =>
                  rw [if_pos hignore]
                  rcases hignores hnot hprompt (hfollows.ignore.trans hignore) with
                    ⟨next, events, hrun, hevents, hview⟩
                  have hanswered : a.answered = true := by
                    by_contra hopen
                    have hnone := hsound.unanswered (Bool.not_eq_true _ ▸ hopen)
                    rw [hnone.right.left] at hignore
                    cases hignore
                  have hu := hfed.withEvents events
                  rw [hevents] at hu
                  rw [loopFrom_again hrun]
                  refine ih (by omega) next _ hnext ?_ hu
                  rw [hview]
                  exact ⟨hfed.mark, fun _ => Or.inl hanswered, hfollows.handled, rfl,
                    hfollows.attempted, hfollows.spamming, hfollows.finished⟩
              case isFalse hignore =>
                  rw [if_neg hignore]
                  rcases hreturns hnot hprompt
                    (hfollows.ignore.trans (Bool.not_eq_true _ ▸ hignore)) with
                    ⟨events, hrun, hevents⟩
                  have hu := hfed.withEvents events
                  rw [hevents] at hu
                  rw [loopFrom_done hrun]
                  exact ⟨0, _, hu, Or.inl ⟨rfl, rfl⟩⟩
          case isFalse hprompt =>
              rw [if_neg hprompt]
              have hnone := Bool.not_eq_true _ ▸ hprompt
              have hfree := autorun_unseen o hchunks hautorun a.reads a.start
              split at hnext
              case isTrue hauto =>
                  rw [if_pos hauto]
                  rcases hspams hnot hnone hfree hauto hfollows.attempted with
                    ⟨events, hevents, hend⟩
                  have hanswered : a.answered = true := by
                    by_contra hopen
                    have hclosed := hnext.unanswered (Bool.not_eq_true _ ▸ hopen)
                    cases hclosed.right.right.left
                  have hplace := behind_of_countdown o hautoboot
                    (by rw [← haystack_window o hchunks]; exact hnone)
                    (by rw [← haystack_window o hchunks]; exact hauto)
                  have hu := hfed.withEvents events
                  rw [hevents] at hu
                  unfold Watcher.sent at hu
                  rw [hanswered] at hu
                  have hstate : ({ a with spamming := true } : Watcher) =
                      ⟨a.reads, a.start, true, a.ignore, true, false⟩ := by
                    rw [← hanswered, ← hfollows.finished]
                  have htracked := spam_tracked o hchunks hroom hautorun hplace.right
                    a.start a.ignore limit a.reads hu
                  rw [hstate]
                  rcases htracked with ⟨m, u, hm, hdone | ⟨hrun, hlimit, hopen⟩⟩
                  · refine ⟨m, u, hm, Or.inl ⟨?_, hdone.right⟩⟩
                    refine loopFrom_done ((hend u).left ?_) n
                    rw [hfollows.start, hfed.mark]
                    show loopFrom _ w.limit _ _ = _
                    rw [hfed.limit]
                    exact hdone.left
                  · refine ⟨m, u, hm, Or.inr ⟨?_, by omega, hopen⟩⟩
                    refine loopFrom_running ((hend u).right ?_) n
                    rw [hfollows.start, hfed.mark]
                    show loopFrom _ w.limit _ _ = _
                    rw [hfed.limit]
                    exact hrun
              case isFalse hauto =>
                  rw [if_neg hauto]
                  rcases hreads hnot hnone hfree (Bool.not_eq_true _ ▸ hauto) with
                    ⟨expired, next, events, hrun, hevents, hview⟩
                  have hu := hfed.withEvents events
                  rw [hevents] at hu
                  rcases readTurn_fed hu hroom expired (.again next) with ⟨v, hturn, hv⟩
                  rw [hturn] at hrun
                  rw [loopFrom_again hrun]
                  refine ih (by omega) next _ hnext ?_ hv
                  rw [hview]
                  refine ⟨hfollows.start, ?_, hfollows.handled, hfollows.ignore,
                    hfollows.attempted, hfollows.spamming, hfollows.finished⟩
                  intro hseen
                  rcases Bool.or_eq_true_iff.mp hseen with hbefore | hfound
                  · rcases hfollows.seen hbefore with hanswered | hfound
                    · exact Or.inl hanswered
                    · exact Or.inr (invalid_stays hfound)
                  · exact Or.inr (invalid_stays hfound)

end Refinement

/-!
# What is expected of a script
-/

/--
The dialog is answered once, the script does not return before the last prompt has come
in, and it does return from some number of passes on.
-/
structure HandlesDialog (wait : Serial Unit) (w : SerialConsole) (before output : Text) :
    Prop where
  once : forall limit, answersSent (wait { w with limit := limit }).2.trace <=
    answersSent w.trace + 1
  behind : forall limit u, wait { w with limit := limit } = (.ok (), u) ->
    u.buffer = before ++ output ∧ answersSent u.trace = answersSent w.trace + 1
  returns : exists passes, forall limit, passes <= limit ->
    exists u, wait { w with limit := limit } = (.ok (), u)

def PromptView.initial (start : Nat) : PromptView where
  start := start
  invalidSeen := false
  handled := false
  ignore := false
  attempted := false

section Handling

variable {autoboot autorun : Pattern} (o : StartUp autoboot autorun)
  (hautoboot : Local autoboot) (hautorun : Local autorun)
  {before already : Text} {chunks : List Text} {w : SerialConsole}
  (hchunks : already ++ chunks.flatten = o.output)
  (hbuffer : w.buffer = before ++ already)
  (hroom : before.length + o.output.length <= bufferLimit)
  (hupcoming : forall n, w.answers (w.asked + n) = chunkAnswer chunks n)
  {σ : Type} {pass : σ -> Serial (Pass σ Unit)} {view : σ -> PromptView}
  (hpass : Watches pass view autoboot autorun) {wait : Serial Unit} {s : σ}
  (hview : view s = PromptView.initial before.length)
  (hwait : forall limit, exists events, answersSent events = 0 ∧
    wait { w with limit := limit } =
      forever pass s (Linux.withEvents { w with limit := limit } events))

include hautoboot hautorun hchunks hbuffer hroom hupcoming hpass hview hwait

theorem wait_tracked (limit : Nat) :
    Tracked autoboot before (already :: chunks) limit (answersSent w.trace) () limit
      Watcher.initial (wait { w with limit := limit }) := by
  rcases hwait limit with ⟨events, hevents, hrun⟩
  rw [hrun]
  have hflat : (already :: chunks).flatten = o.output := hchunks
  refine passes_tracked o hflat (by rw [hflat]; exact hroom) hautorun hautoboot hpass limit
    (Nat.le_refl _) s Watcher.initial (sound_initial o) ?_ ?_
  · rw [hview]
    exact ⟨rfl, fun h => (by cases h), rfl, rfl, rfl, rfl, rfl⟩
  · refine ⟨hupcoming, ?_, rfl, ?_⟩
    · show w.buffer = before ++ (already ++ [])
      rw [List.append_nil]
      exact hbuffer
    · show answersSent (w.trace ++ events) = answersSent w.trace + 0
      rw [answersSent_append, hevents]

theorem handles_iff : HandlesDialog wait w before o.output <-> InTime o (already :: chunks) := by
  have hflat : (already :: chunks).flatten = o.output := hchunks
  have htracked := wait_tracked o hautoboot hautorun hchunks hbuffer hroom hupcoming hpass
    hview hwait
  have hsound := sound_after o hflat hautoboot (sound_initial o)
  rw [← finishes_iff o hflat hautoboot]
  constructor
  · intro hhandles
    rcases hhandles.returns with ⟨limit, hreturns⟩
    rcases hreturns limit (Nat.le_refl _) with ⟨v, hrun⟩
    rcases htracked limit with ⟨m, u, _, ⟨_, hfinished⟩ | ⟨hopen, _⟩⟩
    · exact ⟨m, hfinished⟩
    · rw [hrun] at hopen
      cases (Prod.mk.inj hopen).left
  · rintro ⟨passes, hfinished⟩
    refine ⟨?_, ?_, passes + 1, ?_⟩
    · intro limit
      rcases htracked limit with ⟨m, u, hu, ⟨hrun, _⟩ | ⟨hrun, _⟩⟩
      all_goals
        rw [hrun]
        show answersSent u.trace <= _
        rw [hu.sent]
        unfold Watcher.sent
        split
        · exact Nat.le_refl _
        · omega
    · intro limit v hdone
      rcases htracked limit with ⟨m, u, hu, ⟨hrun, hfinished⟩ | ⟨hrun, _⟩⟩
      · rw [hdone] at hrun
        obtain rfl := (Prod.mk.inj hrun).right
        have hwhole := (hsound m).whole hfinished
        have hanswered : (Watcher.initial.after autoboot (already :: chunks) m).answered =
            true := by
          by_contra hopen
          rw [((hsound m).unanswered (Bool.not_eq_true _ ▸ hopen)).right.right.right]
            at hfinished
          cases hfinished
        constructor
        · rw [hu.buffer, textRead_eq, hwhole, hflat, List.take_length]
        · rw [hu.sent]
          unfold Watcher.sent
          rw [hanswered]
          rfl
      · rw [hdone] at hrun
        cases (Prod.mk.inj hrun).left
    · intro limit hlimit
      rcases htracked limit with ⟨m, u, _, ⟨hrun, _⟩ | ⟨_, hm, hopen⟩⟩
      · exact ⟨u, hrun⟩
      · have hsplit : m = (m - passes) + passes := by omega
        rw [hsplit, after_add, after_finished hfinished, hfinished] at hopen
        cases hopen

end Handling

/-!
# The flash script
-/

def PromptState.view (s : PromptState) : PromptView where
  start := s.start
  invalidSeen := s.nvramInvalidSeen
  handled := s.nvramHandled
  ignore := s.ignoreNextPrompt
  attempted := s.autobootAttempted

theorem withEvents_nil (w : SerialConsole) : Linux.withEvents w [] = w := by
  unfold Linux.withEvents
  rw [List.append_nil]

theorem withEvents_append (w : SerialConsole) (first second : List Event) :
    Linux.withEvents (Linux.withEvents w first) second =
      Linux.withEvents w (first ++ second) := by
  unfold Linux.withEvents
  rw [List.append_assoc]

theorem when_note (condition : Bool) (event : Event) (w : SerialConsole) :
    Script.when condition (note event) w =
      (.ok (), Linux.withEvents w (if condition then [event] else [])) := by
  cases condition with
  | true =>
      rfl
  | false =>
      show (Outcome.ok (), w) = (_, Linux.withEvents w [])
      rw [withEvents_nil]

theorem seen_eq (seen found : Bool) : (seen || (!seen && found)) = (seen || found) := by
  cases seen with
  | true =>
      rfl
  | false =>
      rfl

theorem answersSent_message (condition : Bool) (level : Level) (text : Text) :
    answersSent (if condition then [Event.message level text] else []) = 0 := by
  cases condition with
  | true =>
      rfl
  | false =>
      rfl

theorem promptPass_eq (args : Args) (s : PromptState) (w : SerialConsole) :
    exists events, answersSent events = 0 ∧ promptPass args s w =
      (if s.view.asks (w.buffer.drop s.view.start) then do
        sendLine (chars "C")
        let start ← mark
        pure (.again { s with
          nvramInvalidSeen := s.view.seen (w.buffer.drop s.view.start), nvramHandled := true
          ignoreNextPrompt := true, start := start })
      else if promptRe.found (w.buffer.drop s.view.start) then
        if s.view.ignore then do
          log (chars "Ignoring temporary prompt after revision-info copy")
          let start ← mark
          pure (.again { s with
            nvramInvalidSeen := s.view.seen (w.buffer.drop s.view.start)
            ignoreNextPrompt := false, start := start })
        else pure (.done ())
      else if ubootTftpAutorunRe.found (w.buffer.drop s.view.start) then
        interruptOrGiveUp args s.start
      else if !s.view.attempted && ubootAutobootRe.found (w.buffer.drop s.view.start) then do
        let stopped ← stopUbootAutoboot args s.view.start
        if stopped then pure (.done ())
        else do
          let later ← bufferSince s.start
          if ubootTftpAutorunRe.found later then interruptOrGiveUp args s.start
          else promptPassEnd args (w.buffer.drop s.view.start) { s with
            nvramInvalidSeen := s.view.seen (w.buffer.drop s.view.start)
            autobootAttempted := true }
      else promptPassEnd args (w.buffer.drop s.view.start) { s with
        nvramInvalidSeen := s.view.seen (w.buffer.drop s.view.start) } :
        Serial (Pass PromptState Unit)) (Linux.withEvents w events) := by
  refine ⟨_, answersSent_message
    (!s.nvramInvalidSeen && nvramInvalidRe.found (w.buffer.drop s.start)) .warn nvramWarning, ?_⟩
  have hwhen := when_note
    (!s.nvramInvalidSeen && nvramInvalidRe.found (w.buffer.drop s.start))
    (.message .warn nvramWarning) w
  refine (bind_of_ok hwhen).trans ?_
  dsimp only
  rw [seen_eq]
  rfl

theorem quiet_append {first second : List Event} (hfirst : answersSent first = 0)
    (hsecond : answersSent second = 0) : answersSent (first ++ second) = 0 := by
  rw [answersSent_append, hfirst, hsecond]

def autobootSeen : Event :=
  .message .log (chars "U-Boot autoboot window detected, sending <Enter>")

def enterEvents : List Event :=
  [autobootSeen, .message .log (chars "Serial send: " ++ chars "<Enter>"), .sent ['\r']]

theorem withEvents_enter (w : SerialConsole) :
    Linux.withEvents w enterEvents =
      Linux.withEvents (Linux.withEvents (Linux.withEvents w [autobootSeen])
        [Event.message .log (chars "Serial send: " ++ chars "<Enter>")]) [Event.sent ['\r']] := by
  rw [withEvents_append, withEvents_append]
  rfl

theorem stopUbootAutoboot_ends (args : Args) (start : Nat) (w u : SerialConsole) :
    (forever (spamPass ubootTftpAutorunRe start w.buffer.length) ()
        (Linux.withEvents w enterEvents) = (.ok (some true), u) ->
      stopUbootAutoboot args start w = (.ok true, u)) ∧
    (forever (spamPass ubootTftpAutorunRe start w.buffer.length) ()
        (Linux.withEvents w enterEvents) = (.running, u) ->
      stopUbootAutoboot args start w = (.running, u)) := by
  rw [withEvents_enter]
  constructor
  · intro h
    have hfirst : waitForPromptWithSpam start 1 sendEnter true (some w.buffer.length)
        (Linux.withEvents w [autobootSeen]) = (.ok true, u) :=
      (bind_of_ok rfl).trans (bind_of_ok h)
    exact (bind_of_ok rfl).trans ((bind_of_ok rfl).trans ((bind_of_ok hfirst).trans rfl))
  · intro h
    refine (bind_of_ok rfl).trans ((bind_of_ok rfl).trans (bind_of_running ?_))
    exact (bind_of_ok rfl).trans (bind_of_running h)

theorem flash_watches (args : Args) :
    Watches (promptPass args) PromptState.view ubootAutobootRe ubootTftpAutorunRe where
  answers := by
    intro s w hasks
    rcases promptPass_eq args s w with ⟨events, hquiet, hpass⟩
    rw [if_pos hasks] at hpass
    refine ⟨{ s with
        nvramInvalidSeen := s.view.seen (w.buffer.drop s.view.start), nvramHandled := true
        ignoreNextPrompt := true, start := w.buffer.length },
      events ++ ([Event.message .log (chars "Serial send: " ++ chars "C")] ++
        [Event.sent (chars "C\r")]), hpass.trans ?_, ?_, ?_⟩
    · rw [← withEvents_append, ← withEvents_append]
      rfl
    · rw [answersSent_append, hquiet]
      decide
    · rw [s.view.seen_of_asks hasks]
      rfl
  ignores := by
    intro s w hasks hprompt hignore
    rcases promptPass_eq args s w with ⟨events, hquiet, hpass⟩
    rw [hasks, hprompt, hignore] at hpass
    refine ⟨{ s with
        nvramInvalidSeen := s.view.seen (w.buffer.drop s.view.start)
        ignoreNextPrompt := false, start := w.buffer.length },
      events ++ [Event.message .log (chars "Ignoring temporary prompt after revision-info copy")],
      hpass.trans ?_, quiet_append hquiet (by decide), rfl⟩
    rw [← withEvents_append]
    rfl
  returns := by
    intro s w hasks hprompt hignore
    rcases promptPass_eq args s w with ⟨events, hquiet, hpass⟩
    rw [hasks, hprompt, hignore] at hpass
    exact ⟨events, hpass, hquiet⟩
  spams := by
    intro s w hasks hprompt hautorun hautoboot hattempted
    rcases promptPass_eq args s w with ⟨events, hquiet, hpass⟩
    rw [hasks, hprompt, hautorun, hautoboot, hattempted] at hpass
    refine ⟨events ++ enterEvents, quiet_append hquiet (by decide), ?_⟩
    intro u
    rw [← withEvents_append]
    rcases stopUbootAutoboot_ends args s.view.start (Linux.withEvents w events) u with
      ⟨hok, hrunning⟩
    constructor
    · intro hspam
      exact hpass.trans (bind_of_ok (hok hspam))
    · intro hspam
      exact hpass.trans (bind_of_running (hrunning hspam))
  reads := by
    intro s w hasks hprompt hautorun hautoboot
    rcases promptPass_eq args s w with ⟨events, hquiet, hpass⟩
    rw [hasks, hprompt, hautorun, hautoboot, Bool.and_false] at hpass
    have hbanner := when_note
      (!s.bannerLogged && (ubootBannerRe args.letter).found (w.buffer.drop s.view.start))
      (.message .log (chars "U-Boot banner detected, waiting for initialization to finish"))
      (Linux.withEvents w events)
    rw [withEvents_append] at hbanner
    exact ⟨_, _, _, hpass.trans (bind_of_ok hbanner), quiet_append hquiet
      (answersSent_message _ _ _), rfl⟩

/-!
# The Linux boot script
-/

def Linux.PromptState.view (s : Linux.PromptState) : PromptView where
  start := s.start
  invalidSeen := s.nvramInvalidSeen
  handled := s.nvramHandled
  ignore := s.ignoreNextPrompt
  attempted := s.autobootAttempted

theorem answersSent_errors (lines : List Text) :
    answersSent (Linux.errorMessages lines) = 0 := by
  unfold answersSent Linux.errorMessages
  refine List.count_eq_zero.mpr ?_
  intro hmem
  rcases List.mem_map.mp hmem with ⟨_, _, hline⟩
  cases hline

theorem linuxPass_eq (args : Linux.Args) (s : Linux.PromptState) (w : SerialConsole) :
    exists emitted events, answersSent events = 0 ∧ Linux.promptPass args s w =
      (if s.view.asks (w.buffer.drop s.view.start) then do
        sendLine (chars "C")
        let start ← mark
        pure (.again { s with
          nvramInvalidSeen := s.view.seen (w.buffer.drop s.view.start), nvramHandled := true
          ignoreNextPrompt := true, start := start, emittedErrors := [] })
      else if promptRe.found (w.buffer.drop s.view.start) then
        if s.view.ignore then do
          log (chars "Ignoring temporary prompt after revision-info copy")
          let start ← mark
          pure (.again { s with
            nvramInvalidSeen := s.view.seen (w.buffer.drop s.view.start)
            ignoreNextPrompt := false, start := start, emittedErrors := [] })
        else pure (.done ())
      else if Linux.ubootTftpAutorunRe.found (w.buffer.drop s.view.start) then
        Linux.interruptOrGiveUp args s.start
      else if !s.view.attempted &&
          Linux.ubootAutobootRe.found (w.buffer.drop s.view.start) then do
        let stopped ← Linux.stopUbootAutoboot args s.view.start
        if stopped then pure (.done ())
        else do
          let later ← bufferSince s.start
          if Linux.ubootTftpAutorunRe.found later then Linux.interruptOrGiveUp args s.start
          else Linux.promptPassEnd args (w.buffer.drop s.view.start) { s with
            nvramInvalidSeen := s.view.seen (w.buffer.drop s.view.start)
            emittedErrors := emitted, autobootAttempted := true }
      else Linux.promptPassEnd args (w.buffer.drop s.view.start) { s with
        nvramInvalidSeen := s.view.seen (w.buffer.drop s.view.start)
        emittedErrors := emitted } :
        Serial (Pass Linux.PromptState Unit)) (Linux.withEvents w events) := by
  rcases Linux.reportSerialErrors_eq (w.buffer.drop s.start) s.emittedErrors w with
    ⟨lines, herrors, _⟩
  have hwhen := when_note
    (!s.nvramInvalidSeen && nvramInvalidRe.found (w.buffer.drop s.start))
    (.message .warn nvramWarning) (Linux.withEvents w (Linux.errorMessages lines))
  rw [withEvents_append] at hwhen
  refine ⟨s.emittedErrors ++ lines, _, quiet_append (answersSent_errors lines)
    (answersSent_message (!s.nvramInvalidSeen &&
      nvramInvalidRe.found (w.buffer.drop s.start)) .warn nvramWarning), ?_⟩
  refine (bind_of_ok herrors).trans ((bind_of_ok hwhen).trans ?_)
  dsimp only
  rw [seen_eq]
  rfl

theorem linuxStop_ends (args : Linux.Args) (start : Nat) (w u : SerialConsole) :
    (forever (spamPass Linux.ubootTftpAutorunRe start w.buffer.length) ()
        (Linux.withEvents w enterEvents) = (.ok (some true), u) ->
      Linux.stopUbootAutoboot args start w = (.ok true, u)) ∧
    (forever (spamPass Linux.ubootTftpAutorunRe start w.buffer.length) ()
        (Linux.withEvents w enterEvents) = (.running, u) ->
      Linux.stopUbootAutoboot args start w = (.running, u)) := by
  rw [withEvents_enter]
  constructor
  · intro h
    have hfirst : Linux.waitForPromptWithSpam start 1 sendEnter true (some w.buffer.length)
        (Linux.withEvents w [autobootSeen]) = (.ok true, u) :=
      (bind_of_ok rfl).trans (bind_of_ok h)
    exact (bind_of_ok rfl).trans ((bind_of_ok rfl).trans ((bind_of_ok hfirst).trans rfl))
  · intro h
    refine (bind_of_ok rfl).trans ((bind_of_ok rfl).trans (bind_of_running ?_))
    exact (bind_of_ok rfl).trans (bind_of_running h)

theorem linux_watches (args : Linux.Args) :
    Watches (Linux.promptPass args) Linux.PromptState.view Linux.ubootAutobootRe
      Linux.ubootTftpAutorunRe where
  answers := by
    intro s w hasks
    rcases linuxPass_eq args s w with ⟨emitted, events, hquiet, hpass⟩
    rw [if_pos hasks] at hpass
    refine ⟨{ s with
        nvramInvalidSeen := s.view.seen (w.buffer.drop s.view.start), nvramHandled := true
        ignoreNextPrompt := true, start := w.buffer.length, emittedErrors := [] },
      events ++ ([Event.message .log (chars "Serial send: " ++ chars "C")] ++
        [Event.sent (chars "C\r")]), hpass.trans ?_, ?_, ?_⟩
    · rw [← withEvents_append, ← withEvents_append]
      rfl
    · rw [answersSent_append, hquiet]
      decide
    · rw [s.view.seen_of_asks hasks]
      rfl
  ignores := by
    intro s w hasks hprompt hignore
    rcases linuxPass_eq args s w with ⟨emitted, events, hquiet, hpass⟩
    rw [hasks, hprompt, hignore] at hpass
    refine ⟨{ s with
        nvramInvalidSeen := s.view.seen (w.buffer.drop s.view.start)
        ignoreNextPrompt := false, start := w.buffer.length, emittedErrors := [] },
      events ++ [Event.message .log (chars "Ignoring temporary prompt after revision-info copy")],
      hpass.trans ?_, quiet_append hquiet (by decide), rfl⟩
    rw [← withEvents_append]
    rfl
  returns := by
    intro s w hasks hprompt hignore
    rcases linuxPass_eq args s w with ⟨emitted, events, hquiet, hpass⟩
    rw [hasks, hprompt, hignore] at hpass
    exact ⟨events, hpass, hquiet⟩
  spams := by
    intro s w hasks hprompt hautorun hautoboot hattempted
    rcases linuxPass_eq args s w with ⟨emitted, events, hquiet, hpass⟩
    rw [hasks, hprompt, hautorun, hautoboot, hattempted] at hpass
    refine ⟨events ++ enterEvents, quiet_append hquiet (by decide), ?_⟩
    intro u
    rw [← withEvents_append]
    rcases linuxStop_ends args s.view.start (Linux.withEvents w events) u with
      ⟨hok, hrunning⟩
    constructor
    · intro hspam
      exact hpass.trans (bind_of_ok (hok hspam))
    · intro hspam
      exact hpass.trans (bind_of_running (hrunning hspam))
  reads := by
    intro s w hasks hprompt hautorun hautoboot
    rcases linuxPass_eq args s w with ⟨emitted, events, hquiet, hpass⟩
    rw [hasks, hprompt, hautorun, hautoboot, Bool.and_false] at hpass
    have hbanner := when_note
      (!s.bannerLogged && (ubootBannerRe args.letter).found (w.buffer.drop s.view.start))
      (.message .log (chars "U-Boot banner detected")) (Linux.withEvents w events)
    rw [withEvents_append] at hbanner
    exact ⟨_, _, _, hpass.trans (bind_of_ok hbanner), quiet_append hquiet
      (answersSent_message _ _ _), rfl⟩

/-!
# Both scripts
-/

theorem flash_autoboot_local : Local ubootAutobootRe := by
  simp [ubootAutobootRe, Local, Pattern.sequence, oneOrMore, anyCase, spaces, local_literal]

theorem flash_autorun_local : Local ubootTftpAutorunRe := by
  simp [ubootTftpAutorunRe, Local, Pattern.sequence, oneOrMore, anyCase, spaces, local_literal]

theorem linux_autoboot_local : Local Linux.ubootAutobootRe := by
  simp [Linux.ubootAutobootRe, Local, Pattern.sequence, oneOrMore, anyCase, local_literal]

theorem linux_autorun_local : Local Linux.ubootTftpAutorunRe := by
  simp [Linux.ubootTftpAutorunRe, Local, Pattern.sequence, oneOrMore, anyCase, spaces,
    local_literal]

theorem flash_handles_iff (args : Args) (o : StartUp ubootAutobootRe ubootTftpAutorunRe)
    {chunks : List Text} {w : SerialConsole} (hchunks : chunks.flatten = o.output)
    (hroom : w.buffer.length + o.output.length <= bufferLimit)
    (hupcoming : forall n, w.answers (w.asked + n) = chunkAnswer chunks n) :
    HandlesDialog (waitForUBootPrompt args) w w.buffer o.output <-> InTime o chunks := by
  rw [← inTime_nil_cons]
  refine handles_iff (s := ⟨w.buffer.length, false, false, false, false, false⟩) o
    flash_autoboot_local flash_autorun_local hchunks (List.append_nil _).symm hroom hupcoming
    (flash_watches args) rfl ?_
  intro limit
  exact ⟨[Event.message .log (chars "Waiting for U-Boot to start")], by decide, rfl⟩

theorem linux_handles_iff (args : Linux.Args)
    (o : StartUp Linux.ubootAutobootRe Linux.ubootTftpAutorunRe) {before already : Text}
    {chunks : List Text} {w : SerialConsole} (hchunks : already ++ chunks.flatten = o.output)
    (hbuffer : w.buffer = before ++ already)
    (hroom : before.length + o.output.length <= bufferLimit)
    (hupcoming : forall n, w.answers (w.asked + n) = chunkAnswer chunks n) :
    HandlesDialog (Linux.waitForUBootPrompt args before.length) w before o.output <->
      InTime o (already :: chunks) := by
  refine handles_iff (s := ⟨before.length, false, false, false, false, false, []⟩) o
    linux_autoboot_local linux_autorun_local hchunks hbuffer hroom hupcoming
    (linux_watches args) rfl ?_
  intro limit
  exact ⟨[Event.message .log (chars "Waiting for U-Boot prompt after RESET")], by decide, rfl⟩

/--
For every start-up with the dialog and every way in which reads split it, either script
answers the dialog once, does not return at its prompt, and does return at the last one,
exactly if the reads split the output in time.
-/
theorem dialog_handled_iff (chunks : List Text) (w : SerialConsole)
    (hupcoming : forall n, w.answers (w.asked + n) = chunkAnswer chunks n) :
    (forall (args : Args) (o : StartUp ubootAutobootRe ubootTftpAutorunRe),
      chunks.flatten = o.output -> w.buffer.length + o.output.length <= bufferLimit ->
      (HandlesDialog (waitForUBootPrompt args) w w.buffer o.output <-> InTime o chunks)) ∧
    (forall (args : Linux.Args)
        (o : StartUp Linux.ubootAutobootRe Linux.ubootTftpAutorunRe) (before already : Text),
      already ++ chunks.flatten = o.output -> w.buffer = before ++ already ->
      before.length + o.output.length <= bufferLimit ->
      (HandlesDialog (Linux.waitForUBootPrompt args before.length) w before o.output <->
        InTime o (already :: chunks))) := by
  constructor
  · intro args o hchunks hroom
    exact flash_handles_iff args o hchunks hroom hupcoming
  · intro args o before already hchunks hbuffer hroom
    exact linux_handles_iff args o hchunks hbuffer hroom hupcoming

/-- The answer, and what U-Boot prints up to its prompt without an autoboot. -/
def plainStartup : Text := puts (chars "C\nInput:   serial\nNet:   DEC Tulip\n")

def plainStart (autoboot autorun : Pattern)
    (hautoboot : autoboot.found (dialogOutput [] plainStartup) = false)
    (hautorun : autorun.found (dialogOutput [] plainStartup) = false) :
    StartUp autoboot autorun where
  banner := []
  startup := plainStartup
  countdown := none
  firstKey := by decide +kernel
  firstPrompt := by decide +kernel
  onePrompt := by decide +kernel
  noAutorun := hautorun
  noReset := by decide +kernel
  counted := hautoboot

def flashStart : StartUp ubootAutobootRe ubootTftpAutorunRe :=
  plainStart _ _ (by decide +kernel) (by decide +kernel)

def linuxStart : StartUp Linux.ubootAutobootRe Linux.ubootTftpAutorunRe :=
  plainStart _ _ (by decide +kernel) (by decide +kernel)

/-- The dialog in the two reads that its answer needs, and the rest. -/
def timelyChunks : List Text :=
  [dialogHead, dialogTail ++ prompt, plainStartup, prompt]

theorem dialog_handled_iff_timely :
    HandlesDialog (waitForUBootPrompt sampleArgs)
        (startConsole sampleArgs (chunkAnswer timelyChunks) 0) [] flashStart.output ∧
      HandlesDialog (Linux.waitForUBootPrompt Linux.bootArgs 0)
        (startConsole sampleArgs (chunkAnswer timelyChunks) 0) [] linuxStart.output := by
  have hiff := dialog_handled_iff timelyChunks
    (startConsole sampleArgs (chunkAnswer timelyChunks) 0)
    (fun n => congrArg (chunkAnswer timelyChunks) (Nat.zero_add n))
  constructor
  · exact (hiff.left sampleArgs flashStart (by decide +kernel)
      (by decide +kernel)).mpr (Or.inl (by decide +kernel))
  · exact (hiff.right Linux.bootArgs linuxStart [] []
      (by decide +kernel) rfl (by decide +kernel)).mpr (Or.inl (by decide +kernel))

def dialogAtOnce : List Text := [dialogHead ++ dialogTail ++ prompt, plainStartup ++ prompt]

/-- When the dialog comes in at once, neither script returns. -/
theorem dialog_at_once_unhandled :
    ¬ HandlesDialog (waitForUBootPrompt sampleArgs)
        (startConsole sampleArgs (chunkAnswer dialogAtOnce) 0) [] flashStart.output ∧
      ¬ HandlesDialog (Linux.waitForUBootPrompt Linux.bootArgs 0)
        (startConsole sampleArgs (chunkAnswer dialogAtOnce) 0) [] linuxStart.output := by
  constructor
  · intro hhandles
    have hflat : dialogAtOnce.flatten = flashStart.output := by decide +kernel
    have htime := (flash_handles_iff sampleArgs flashStart hflat (by decide +kernel)
      (fun n => congrArg (chunkAnswer dialogAtOnce) (Nat.zero_add n))).mp hhandles
    rcases htime with ⟨hanswer, _⟩ | ⟨_, first, last, hcountdown, _⟩
    · exact absurd hanswer (by decide +kernel)
    · cases hcountdown
  · intro hhandles
    have hflat : [] ++ dialogAtOnce.flatten = linuxStart.output := by decide +kernel
    have hbuffer : (startConsole sampleArgs (chunkAnswer dialogAtOnce) 0).buffer =
        [] ++ [] := rfl
    have htime := (linux_handles_iff Linux.bootArgs linuxStart hflat hbuffer
      (by decide +kernel)
      (fun n => congrArg (chunkAnswer dialogAtOnce) (Nat.zero_add n))).mp hhandles
    rcases htime with ⟨hanswer, _⟩ | ⟨_, first, last, hcountdown, _⟩
    · exact absurd hanswer (by decide +kernel)
    · cases hcountdown

end Console
end Bab750
