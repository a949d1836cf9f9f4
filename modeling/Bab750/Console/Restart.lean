import Bab750.Console.ResetWatch

/-!
# Starting over

A cycle that starts at a reset marker depends on nothing that the board said before
it: two consoles that differ in the text in front of the marker go through the same
cycle.
-/

namespace Bab750
namespace Console

open Foundation
open Script
open Pattern

/-!
# Consoles with another past
-/

/-- Two consoles that differ only in the text in front of a place. -/
structure SameFrom (position : Nat) (w v : SerialConsole) : Prop where
  trace : w.trace = v.trace
  answers : w.answers = v.answers
  asked : w.asked = v.asked
  limit : w.limit = v.limit
  resetLine : w.resetLine = v.resetLine
  resetActiveState : w.resetActiveState = v.resetActiveState
  displayName : w.displayName = v.displayName
  length : w.buffer.length = v.buffer.length
  text : w.buffer.drop position = v.buffer.drop position
  inside : position <= w.buffer.length
  fits : w.buffer.length <= bufferLimit

/-- The script does not depend on the text in front of a place. -/
def Blind {α : Type} (position : Nat) (script : Serial α) (good : α -> Prop) : Prop :=
  Agrees (SameFrom position) script good

/-- A place that is not in front of another one. -/
def From (position : Nat) (mark : Option Nat) : Prop :=
  forall n, mark = some n -> position <= n

theorem drop_same {position start : Nat} {first second : Text}
    (h : first.drop position = second.drop position) (hstart : position <= start) :
    first.drop start = second.drop start := by
  have hsplit : start = position + (start - position) := by omega
  rw [hsplit, ← List.drop_drop, ← List.drop_drop, h]

theorem appendBuffer_length (buffer chunk : Text) :
    (appendBuffer buffer chunk).length = min (buffer.length + chunk.length) bufferLimit := by
  unfold appendBuffer
  dsimp only
  split
  · rw [List.length_drop, List.length_append]
    rename_i hlong
    rw [List.length_append] at hlong
    omega
  · rename_i hshort
    rw [List.length_append] at hshort ⊢
    omega

theorem appendBuffer_same {position : Nat} {first second : Text} (chunk : Text)
    (hlength : first.length = second.length)
    (htext : first.drop position = second.drop position) (hinside : position <= first.length) :
    (appendBuffer first chunk).drop position = (appendBuffer second chunk).drop position := by
  have hlonger : (first ++ chunk).drop position = (second ++ chunk).drop position := by
    rw [List.drop_append_of_le_length hinside,
      List.drop_append_of_le_length (by omega), htext]
  unfold appendBuffer
  dsimp only
  rw [List.length_append, List.length_append, hlength]
  split
  · exact (List.drop_drop ..).trans
      ((drop_same hlonger (by omega)).trans (List.drop_drop ..).symm)
  · exact hlonger

section Primitives

variable {position : Nat}

theorem blind_note (event : Event) : Blind position (note event) (fun _ => True) := by
  refine agrees_change ?_ trivial
  intro w v h
  exact { h with trace := congrArg (fun trace => trace ++ [event]) h.trace }

theorem blind_pure {α : Type} {good : α -> Prop} {value : α} (h : good value) :
    Blind position (pure value) good :=
  agrees_pure h

theorem blind_raise {α : Type} {good : α -> Prop} (failure : Failure) :
    Blind position (raise failure : Serial α) good :=
  agrees_raise

theorem blind_bind {α β : Type} {good : α -> Prop} {fine : β -> Prop} {script : Serial α}
    {rest : α -> Serial β} (hscript : Blind position script good)
    (hrest : forall value, good value -> Blind position (rest value) fine) :
    Blind position (script >>= rest) fine :=
  agrees_bind hscript hrest

theorem blind_when {condition : Bool} {script : Serial Unit}
    (h : Blind position script (fun _ => True)) :
    Blind position (when condition script) (fun _ => True) :=
  agrees_when h trivial

theorem blind_ite {α : Type} {good : α -> Prop} {condition : Prop} [Decidable condition]
    {first second : Serial α} (hfirst : Blind position first good)
    (hsecond : Blind position second good) :
    Blind position (if condition then first else second) good :=
  agrees_ite hfirst hsecond

theorem blind_forever {σ α : Type} {good : σ -> Prop} {fine : α -> Prop}
    {body : σ -> Serial (Pass σ α)}
    (hbody : forall state, good state -> Blind position (body state) (goodPass good fine))
    {state : σ} (hstate : good state) : Blind position (forever body state) fine :=
  agrees_loop (fun _ _ h => h.limit) hbody hstate

theorem blind_ask : Blind position ask (fun _ => True) := by
  intro w v h
  refine ⟨?_, { h with asked := congrArg (fun n => n + 1) h.asked }, fun _ _ => trivial⟩
  show Outcome.ok (w.answers w.asked) = Outcome.ok (v.answers v.asked)
  rw [h.answers, h.asked]

theorem blind_late : Blind position late (fun _ => True) :=
  blind_bind blind_ask (fun _ _ => blind_pure trivial)

theorem blind_mark : Blind position mark (fun n => position <= n) :=
  agrees_look (fun _ _ h => h.length) (fun _ _ h => h.inside)

theorem blind_bufferSince {start : Nat} (hstart : position <= start) :
    Blind position (bufferSince start) (fun _ => True) :=
  agrees_look (fun _ _ h => drop_same h.text hstart) (fun _ _ _ => trivial)

theorem blind_readOnce : Blind position readOnce (fun _ => True) := by
  refine blind_bind blind_ask (fun answer _ => ?_)
  refine blind_ite (blind_pure trivial) (blind_bind ?_
    (fun _ (_ : True) => blind_pure trivial))
  refine agrees_change ?_ trivial
  intro w v h
  have hlength := h.length
  have hinside := h.inside
  have hfits := h.fits
  refine { h with
    trace := congrArg (fun trace => trace ++ [Event.received answer.chunk]) h.trace
    length := ?_
    text := appendBuffer_same _ h.length h.text h.inside
    inside := ?_
    fits := ?_ }
  · show (appendBuffer w.buffer _).length = (appendBuffer v.buffer _).length
    rw [appendBuffer_length, appendBuffer_length, h.length]
  · show position <= (appendBuffer w.buffer _).length
    rw [appendBuffer_length]
    omega
  · show (appendBuffer w.buffer _).length <= bufferLimit
    rw [appendBuffer_length]
    omega

theorem blind_sendRaw (data description : Text) (logSend : Bool) :
    Blind position (sendRaw data description logSend) (fun _ => True) :=
  blind_bind (blind_when (blind_note _)) (fun _ _ => blind_note _)

theorem blind_sendLine (line : Text) : Blind position (sendLine line) (fun _ => True) :=
  blind_ite (blind_sendRaw _ _ _) (blind_raise _)

theorem blind_setResetAsserted (asserted : Bool) :
    Blind position (setResetAsserted asserted) (fun _ => True) := by
  refine blind_bind (agrees_look (fun _ _ h => h.resetLine) (fun _ _ _ => trivial))
    (fun line (_ : True) => ?_)
  cases line with
  | none =>
      exact blind_pure trivial
  | some _ =>
      exact blind_bind (agrees_look (fun _ _ h => h.resetActiveState) (fun _ _ _ => trivial))
        (fun _ (_ : True) => blind_note _)

theorem blind_openPort : Blind position openPort (fun _ => True) :=
  blind_bind (blind_setResetAsserted false) (fun _ _ =>
    blind_bind (blind_note _) (fun _ _ => blind_setResetAsserted false))

theorem blind_findResetMarker {start : Nat} (hstart : position <= start) :
    Blind position (findResetMarker start) (From position) := by
  refine blind_bind (blind_bufferSince hstart) (fun haystack _ => blind_pure ?_)
  intro n hn
  rcases Option.map_eq_some_iff.mp hn with ⟨k, _, rfl⟩
  omega

theorem blind_raiseIfReset {start : Option Nat} (hstart : From position start) :
    Blind position (raiseIfReset start) (fun _ => True) := by
  unfold raiseIfReset
  cases start with
  | none =>
      exact blind_pure trivial
  | some start =>
      refine blind_bind (blind_findResetMarker (hstart start rfl)) (fun found _ => ?_)
      cases found with
      | none =>
          exact blind_pure trivial
      | some _ =>
          exact blind_raise _

end Primitives

/-!
# The phases of a cycle
-/

section Phases

variable {position : Nat}

theorem blind_turn {σ α : Type} {good : σ -> Prop} {fine : α -> Prop}
    {expired : Serial (Pass σ α)} {next : σ}
    (hexpired : Blind position expired (goodPass good fine)) (hnext : good next) :
    Blind position (do
      let passed ← late
      if passed then expired
      else do
        let _ ← readOnce
        pure (.again next)) (goodPass good fine) := by
  refine blind_bind blind_late (fun passed _ => blind_ite hexpired ?_)
  exact blind_bind blind_readOnce (fun _ _ => blind_pure hnext)

theorem blind_waitForQuiet (description : Text) {resetWatchStart : Option Nat}
    (hstart : From position resetWatchStart) :
    Blind position (waitForQuiet description resetWatchStart) (fun _ => True) := by
  refine blind_bind blind_mark (fun here hhere => ?_)
  have hwatch : From position (some (resetWatchStart.getD here)) := by
    intro n hn
    cases resetWatchStart with
    | none =>
        exact Option.some.inj hn ▸ hhere
    | some m =>
        exact Option.some.inj hn ▸ hstart m rfl
  refine blind_forever (fun _ (_ : True) => ?_) trivial
  refine blind_bind (blind_raiseIfReset hwatch) (fun _ _ => ?_)
  refine blind_bind blind_readOnce (fun chunk _ => ?_)
  refine blind_bind (blind_ite blind_late (blind_pure trivial)) (fun quiet _ => ?_)
  refine blind_ite (blind_pure trivial) ?_
  refine blind_bind blind_late (fun passed _ => ?_)
  exact blind_ite (blind_raise _) (blind_pure trivial)

theorem blind_sleepWithResetWatch :
    Blind position sleepWithResetWatch (fun _ => True) := by
  refine blind_bind blind_mark (fun here hhere => ?_)
  refine blind_forever (fun _ (_ : True) => ?_) trivial
  refine blind_bind (blind_raiseIfReset (fun n hn => Option.some.inj hn ▸ hhere))
    (fun _ _ => ?_)
  exact blind_turn (blind_pure trivial) trivial

/-- The variables of `wait_for_bootrom_loading` watch no earlier text. -/
def GoodLoading (position : Nat) (s : LoadingState) : Prop := From position s.resetWatchStart

theorem blind_watchFromHere {s : LoadingState} (h : GoodLoading position s) :
    Blind position (watchFromHere s) (GoodLoading position) := by
  unfold watchFromHere
  cases hmark : s.resetWatchStart with
  | some n =>
      exact blind_pure h
  | none =>
      refine blind_bind blind_mark (fun here hhere => blind_pure ?_)
      exact fun n hn => Option.some.inj hn ▸ hhere

theorem blind_readOrReconnect (s : LoadingState) :
    Blind position (readOrReconnect s) (fun _ => True) := by
  refine blind_bind blind_readOnce (fun chunk _ => ?_)
  refine blind_ite ?_ (blind_pure trivial)
  refine blind_bind blind_late (fun halted _ => blind_when ?_)
  refine blind_bind (agrees_look (fun _ _ h => h.displayName) (fun _ _ _ => trivial))
    (fun name (_ : True) => ?_)
  refine blind_bind (blind_note _) (fun _ _ => ?_)
  exact blind_bind (blind_setResetAsserted false) (fun _ _ => blind_openPort)

theorem blind_bootromPass (letter : Char -> Bool) {start : Nat} (hstart : position <= start)
    {s : LoadingState} (hs : GoodLoading position s) :
    Blind position (bootromPass letter start s)
      (goodPass (GoodLoading position) (From position)) := by
  refine blind_bind (blind_raiseIfReset hs) (fun _ _ => ?_)
  refine blind_bind (blind_bufferSince hstart) (fun haystack _ => ?_)
  refine blind_ite (blind_bind (blind_note _) (fun _ _ => blind_pure hs)) ?_
  have hwatch : forall (event : Event) (s : LoadingState), GoodLoading position s ->
      Blind position (do note event; watchFromHere s) (GoodLoading position) := by
    intro event s hs
    exact blind_bind (blind_note _) (fun _ _ => blind_watchFromHere hs)
  refine blind_bind (blind_ite (hwatch _ _ hs) (blind_pure hs)) (fun s hs => ?_)
  refine blind_bind (blind_ite (hwatch _ _ hs) (blind_pure hs)) (fun s hs => ?_)
  refine blind_bind (blind_ite (blind_bind (blind_sendLine _) (fun _ _ => blind_pure hs))
    (blind_pure hs)) (fun s (hs : GoodLoading position s) => ?_)
  refine blind_bind (blind_ite (hwatch _ _ hs) (blind_pure hs)) (fun s hs => ?_)
  refine blind_bind (blind_ite (blind_bind (blind_note _) (fun _ _ => blind_pure hs))
    (blind_pure hs)) (fun s (hs : GoodLoading position s) => ?_)
  refine blind_bind (blind_ite (blind_bind (blind_note _) (fun _ _ =>
    blind_bind (blind_sendLine _) (fun _ _ => blind_pure hs))) (blind_pure hs))
    (fun s (hs : GoodLoading position s) => ?_)
  refine blind_bind (blind_ite (blind_bind (blind_note _) (fun _ _ => blind_pure hs))
    (blind_pure hs)) (fun s (hs : GoodLoading position s) => ?_)
  refine blind_bind (blind_ite (blind_bind blind_late (fun _ _ =>
    blind_when (blind_sendRaw _ _ _))) (blind_pure trivial)) (fun _ _ => ?_)
  refine blind_bind blind_late (fun passed _ => ?_)
  refine blind_ite (blind_raise _) ?_
  exact blind_bind (blind_readOrReconnect _) (fun _ _ => blind_pure hs)

theorem blind_waitForBootromLoading (args : Args) {start : Nat} (hstart : position <= start) :
    Blind position (waitForBootromLoading args start) (fun _ => True) := by
  refine blind_bind (blind_note _) (fun _ _ => ?_)
  refine blind_bind (blind_forever (fun _ hs => blind_bootromPass args.letter hstart hs) ?_)
    (fun resetWatchStart hwatch => ?_)
  · exact fun n hn => nomatch hn
  · exact blind_bind (blind_note _) (fun _ _ => blind_waitForQuiet _ hwatch)

theorem blind_spamAttempts {sendFn : Bool -> Serial Unit}
    (hsend : forall logSend, Blind position (sendFn logSend) (fun _ => True)) {start : Nat}
    (hstart : position <= start) (tftpEscape : Bool) {resetWatchStart : Option Nat}
    (hwatch : From position resetWatchStart) (attempts attempt : Nat) :
    Blind position (spamAttempts sendFn start tftpEscape resetWatchStart attempts attempt)
      (fun _ => True) := by
  induction attempts generalizing attempt with
  | zero =>
      exact blind_bind (blind_bufferSince hstart) (fun _ _ => blind_pure trivial)
  | succ attempts ih =>
      refine blind_bind (hsend _) (fun _ _ => ?_)
      refine blind_bind (blind_forever (fun _ (_ : True) => ?_) trivial)
        (fun verdict (_ : True) => ?_)
      · refine blind_bind (blind_raiseIfReset hwatch) (fun _ _ => ?_)
        refine blind_bind (blind_bufferSince hstart) (fun haystack _ => ?_)
        refine blind_ite (blind_pure trivial) (blind_ite (blind_pure trivial) ?_)
        exact blind_turn (blind_pure trivial) trivial
      · cases verdict with
        | some result =>
            exact blind_pure trivial
        | none =>
            exact ih (attempt + 1)

theorem blind_stopUbootAutoboot (args : Args) {start : Nat} (hstart : position <= start) :
    Blind position (stopUbootAutoboot args start) (fun _ => True) := by
  refine blind_bind (blind_note _) (fun _ _ => ?_)
  refine blind_bind blind_mark (fun here hhere => ?_)
  have hspam := blind_spamAttempts (fun logSend => blind_sendRaw ['\r'] (chars "<Enter>") logSend)
    hstart true (fun n hn => Option.some.inj hn ▸ hhere : From position (some here))
  refine blind_bind (hspam _ _) (fun first _ => ?_)
  refine blind_ite (blind_pure trivial) ?_
  exact blind_bind (blind_note _) (fun _ _ => hspam _ _)

theorem blind_interruptOrGiveUp {good : PromptState -> Prop} (args : Args) {start : Nat}
    (hstart : position <= start) :
    Blind position (interruptOrGiveUp args start)
      (goodPass good (fun _ : Unit => True)) := by
  refine blind_bind ?_ (fun stopped (_ : True) =>
    blind_ite (blind_pure trivial) (blind_raise _))
  refine blind_bind (blind_note _) (fun _ _ => ?_)
  refine blind_bind (blind_note _) (fun _ _ => ?_)
  refine blind_bind blind_mark (fun here hhere => ?_)
  exact blind_spamAttempts (fun logSend => blind_sendRaw _ _ logSend) hstart false
    (fun n hn => Option.some.inj hn ▸ hhere) _ _

/-- The variables of `wait_for_u_boot_prompt` look at no earlier text. -/
def GoodPrompt (position : Nat) (s : PromptState) : Prop := position <= s.start

theorem blind_promptPassEnd (args : Args) (haystack : Text) {s : PromptState}
    (hs : GoodPrompt position s) :
    Blind position (promptPassEnd args haystack s)
      (goodPass (GoodPrompt position) (fun _ => True)) :=
  blind_bind (blind_when (blind_note _)) (fun _ _ => blind_turn (blind_raise _) hs)

theorem blind_promptPass (args : Args) {s : PromptState} (hs : GoodPrompt position s) :
    Blind position (promptPass args s) (goodPass (GoodPrompt position) (fun _ => True)) := by
  refine blind_bind (blind_raiseIfReset (fun n hn => nomatch hn)) (fun _ _ => ?_)
  refine blind_bind (blind_bufferSince hs) (fun haystack _ => ?_)
  refine blind_bind (blind_when (blind_note _)) (fun _ _ => ?_)
  refine blind_ite ?_ (blind_ite (blind_ite ?_ (blind_pure trivial))
    (blind_ite (blind_interruptOrGiveUp args hs)
      (blind_ite ?_ (blind_promptPassEnd args haystack hs))))
  · refine blind_bind (blind_sendLine _) (fun _ _ => ?_)
    exact blind_bind blind_mark (fun here hhere => blind_pure hhere)
  · refine blind_bind (blind_note _) (fun _ _ => ?_)
    exact blind_bind blind_mark (fun here hhere => blind_pure hhere)
  · refine blind_bind (blind_stopUbootAutoboot args hs) (fun stopped _ => ?_)
    refine blind_ite (blind_pure trivial) ?_
    refine blind_bind (blind_bufferSince hs) (fun later _ => ?_)
    exact blind_ite (blind_interruptOrGiveUp args hs) (blind_promptPassEnd args haystack hs)

theorem blind_waitForUBootPrompt (args : Args) :
    Blind position (waitForUBootPrompt args) (fun _ => True) := by
  refine blind_bind (blind_note _) (fun _ _ => ?_)
  refine blind_bind blind_mark (fun here hhere => ?_)
  exact blind_forever (fun _ hs => blind_promptPass args hs) hhere

theorem blind_runUbootCommand (command : Text) :
    Blind position (runUbootCommand command) (fun _ => True) := by
  refine blind_bind blind_mark (fun start hstart => ?_)
  refine blind_bind blind_mark (fun here hhere => ?_)
  refine blind_bind (blind_sendLine _) (fun _ _ => ?_)
  refine blind_forever (fun _ (_ : True) => ?_) trivial
  refine blind_bind (blind_raiseIfReset (fun n hn => Option.some.inj hn ▸ hhere))
    (fun _ _ => ?_)
  refine blind_bind (blind_bufferSince hstart) (fun haystack _ => ?_)
  refine blind_ite (blind_bind (blind_note _) (fun _ _ => blind_pure trivial)) ?_
  exact blind_turn (blind_raise _) trivial

theorem blind_parseTftpSizeHex (output : Text) (size : Nat) :
    Blind position (parseTftpSizeHex output size) (fun _ => True) := by
  unfold parseTftpSizeHex
  cases (tftpSizes output).getLast? with
  | some hex =>
      exact blind_pure trivial
  | none =>
      exact blind_bind (blind_note _) (fun _ _ => blind_pure trivial)

theorem blind_flashCommands (args : Args) :
    Blind position (flashCommands args) (fun _ => True) := by
  refine blind_bind (blind_runUbootCommand _) (fun _ _ => ?_)
  refine blind_bind (blind_runUbootCommand _) (fun _ _ => ?_)
  refine blind_bind (blind_runUbootCommand _) (fun output _ => ?_)
  refine blind_bind (blind_parseTftpSizeHex _ _) (fun sizeHex _ => ?_)
  refine blind_bind (blind_runUbootCommand _) (fun protectOutput _ => ?_)
  refine blind_bind (blind_runUbootCommand _) (fun eraseOutput _ => ?_)
  refine blind_bind (blind_runUbootCommand _) (fun copyOutput _ => ?_)
  refine blind_bind (blind_when (blind_note _)) (fun _ _ => ?_)
  refine blind_ite ?_ (blind_ite (blind_raise _) (blind_pure trivial))
  exact blind_bind (blind_note _) (fun _ _ => blind_raise _)

/-- A cycle that starts at a place depends on nothing in front of it. -/
theorem blind_cycle (args : Args) (position : Nat) :
    Blind position (cycle args (some position)) (fun _ => True) := by
  refine blind_bind (blind_bind (blind_note _) (fun _ _ => blind_pure (Nat.le_refl position)))
    (fun start (hstart : position <= start) => ?_)
  refine blind_bind (blind_waitForBootromLoading args hstart) (fun _ _ => ?_)
  refine blind_bind (blind_note _) (fun _ _ => ?_)
  refine blind_bind blind_sleepWithResetWatch (fun _ _ => ?_)
  refine blind_bind (blind_sendLine _) (fun _ _ => ?_)
  refine blind_bind (blind_waitForUBootPrompt args) (fun _ _ => ?_)
  refine blind_bind (blind_note _) (fun _ _ => ?_)
  exact blind_flashCommands args

end Phases

/-!
# Where a reset is detected
-/

def AtMarker (position : Nat) (w : SerialConsole) : Prop :=
  exists marker rest, w.buffer.drop position = marker ++ rest ∧ Accepts resetMarkerRe marker

/-- Whatever reset the script detects, its marker starts at the place that is reported. -/
def Detects {α : Type} (script : Serial α) : Prop :=
  forall w u position, script w = (.raised (.resetDetected position), u) ->
    AtMarker position u

section Detection

variable {α β σ : Type}

theorem detects_of_ok {script : Serial α} (h : forall w, exists value, (script w).1 = .ok value) :
    Detects script := by
  intro w u position hrun
  rcases h w with ⟨value, hvalue⟩
  rw [hrun] at hvalue
  cases hvalue

theorem detects_pure (value : α) : Detects (pure value : Serial α) :=
  detects_of_ok (fun _ => ⟨value, rfl⟩)

theorem detects_look (f : SerialConsole -> α) : Detects (look f : Serial α) :=
  detects_of_ok (fun w => ⟨f w, rfl⟩)

theorem detects_note (event : Event) : Detects (note event) :=
  detects_of_ok (fun _ => ⟨(), rfl⟩)

theorem detects_late : Detects late :=
  detects_of_ok (fun w => ⟨(w.answers w.asked).late, rfl⟩)

theorem detects_raise {failure : Failure} (h : resetPosition failure = none) :
    Detects (raise failure : Serial α) := by
  intro w u position hrun
  rw [Outcome.raised.inj (Prod.mk.inj hrun).left] at h
  cases h

theorem detects_bind {script : Serial α} {rest : α -> Serial β} (hscript : Detects script)
    (hrest : forall value, Detects (rest value)) : Detects (script >>= rest) := by
  intro w u position hrun
  change Script.bind script rest w = _ at hrun
  unfold Script.bind at hrun
  rcases hfirst : script w with ⟨outcome, v⟩
  rw [hfirst] at hrun
  cases outcome with
  | ok value =>
      exact hrest value v u position hrun
  | raised failure =>
      rcases Prod.mk.inj hrun with ⟨hfailure, rfl⟩
      rw [Outcome.raised.inj hfailure] at hfirst
      exact hscript w v position hfirst
  | running =>
      cases (Prod.mk.inj hrun).left

theorem detects_when {condition : Bool} {script : Serial Unit} (h : Detects script) :
    Detects (when condition script) := by
  unfold when
  split
  · exact h
  · exact detects_pure ()

theorem detects_ite {condition : Prop} [Decidable condition] {first second : Serial α}
    (hfirst : Detects first) (hsecond : Detects second) :
    Detects (if condition then first else second) := by
  split
  · exact hfirst
  · exact hsecond

theorem detects_forever {body : σ -> Serial (Pass σ α)}
    (hbody : forall state, Detects (body state)) (state : σ) :
    Detects (forever body state) := by
  have hfrom : forall n state, Detects (loopFrom body n state) := by
    intro n
    induction n with
    | zero =>
        intro state w u position hrun
        cases (Prod.mk.inj hrun).left
    | succ n ih =>
        intro state
        refine detects_bind (hbody state) ?_
        intro pass
        cases pass with
        | again next =>
            exact ih next
        | done value =>
            exact detects_pure value
  exact fun w => hfrom w.limit state w

theorem detects_readOnce : Detects readOnce := by
  refine detects_bind (detects_of_ok (fun w => ⟨w.answers w.asked, rfl⟩)) (fun answer => ?_)
  refine detects_ite (detects_pure _) ?_
  exact detects_bind (detects_of_ok (fun _ => ⟨(), rfl⟩)) (fun _ => detects_pure _)

theorem detects_raiseIfReset (start : Option Nat) : Detects (raiseIfReset start) := by
  cases start with
  | none =>
      exact detects_pure ()
  | some start =>
      intro w u position hrun
      rw [raiseIfReset_some] at hrun
      cases hsearch : resetMarkerRe.search (w.buffer.drop start) with
      | none =>
          rw [hsearch] at hrun
          cases (Prod.mk.inj hrun).left
      | some n =>
          rw [hsearch] at hrun
          rcases Prod.mk.inj hrun with ⟨hfailure, rfl⟩
          have hposition : start + n = position :=
            Failure.resetDetected.inj (Outcome.raised.inj hfailure)
          rcases search_accepts local_resetMarkerRe hsearch with ⟨marker, rest, hdrop, haccepts⟩
          refine ⟨marker, rest, ?_, haccepts⟩
          rw [← hposition, ← List.drop_drop]
          exact hdrop

theorem detects_sendRaw (data description : Text) (logSend : Bool) :
    Detects (sendRaw data description logSend) :=
  detects_bind (detects_when (detects_note _)) (fun _ => detects_note _)

theorem detects_sendLine (line : Text) : Detects (sendLine line) :=
  detects_ite (detects_sendRaw _ _ _) (detects_raise rfl)

theorem detects_setResetAsserted (asserted : Bool) : Detects (setResetAsserted asserted) := by
  refine detects_bind (detects_look _) (fun line => ?_)
  cases line with
  | none =>
      exact detects_pure ()
  | some _ =>
      exact detects_bind (detects_look _) (fun _ => detects_note _)

theorem detects_openPort : Detects openPort :=
  detects_bind (detects_setResetAsserted false) (fun _ =>
    detects_bind (detects_note _) (fun _ => detects_setResetAsserted false))

theorem detects_pulseReset (description : Text) : Detects (pulseReset description) := by
  refine detects_bind (detects_look _) (fun line => ?_)
  cases line with
  | none =>
      exact detects_pure ()
  | some _ =>
      exact detects_bind (detects_note _) (fun _ => detects_bind (detects_setResetAsserted true)
        (fun _ => detects_setResetAsserted false))

theorem detects_turn {expired : Serial β} (hexpired : Detects expired) (next : β) :
    Detects (do
      let passed ← late
      if passed then expired
      else do
        let _ ← readOnce
        pure next) :=
  detects_bind detects_late (fun _ => detects_ite hexpired
    (detects_bind detects_readOnce (fun _ => detects_pure next)))

theorem detects_waitForResetMarker : Detects waitForResetMarker := by
  refine detects_bind (detects_look _) (fun line => ?_)
  refine detects_bind (detects_note _) (fun _ => ?_)
  refine detects_bind (detects_look _) (fun start => ?_)
  refine detects_forever (fun _ => ?_) ()
  refine detects_bind (detects_bind (detects_look _) (fun _ => detects_pure _))
    (fun position => ?_)
  cases position with
  | some position =>
      exact detects_bind (detects_note _) (fun _ => detects_pure _)
  | none =>
      exact detects_turn (detects_raise rfl) _

theorem detects_waitForQuiet (description : Text) (resetWatchStart : Option Nat) :
    Detects (waitForQuiet description resetWatchStart) := by
  refine detects_bind (detects_look _) (fun here => detects_forever (fun _ => ?_) ())
  refine detects_bind (detects_raiseIfReset _) (fun _ => ?_)
  refine detects_bind detects_readOnce (fun chunk => ?_)
  refine detects_bind (detects_ite detects_late (detects_pure _)) (fun quiet => ?_)
  refine detects_ite (detects_pure _) (detects_bind detects_late (fun passed => ?_))
  exact detects_ite (detects_raise rfl) (detects_pure _)

theorem detects_sleepWithResetWatch : Detects sleepWithResetWatch := by
  refine detects_bind (detects_look _) (fun here => detects_forever (fun _ => ?_) ())
  refine detects_bind (detects_raiseIfReset _) (fun _ => ?_)
  exact detects_turn (detects_pure _) _

theorem detects_watchFromHere (s : LoadingState) : Detects (watchFromHere s) := by
  unfold watchFromHere
  cases s.resetWatchStart with
  | some _ =>
      exact detects_pure s
  | none =>
      exact detects_bind (detects_look _) (fun _ => detects_pure _)

theorem detects_readOrReconnect (s : LoadingState) : Detects (readOrReconnect s) := by
  refine detects_bind detects_readOnce (fun chunk => detects_ite ?_ (detects_pure ()))
  refine detects_bind detects_late (fun halted => detects_when ?_)
  refine detects_bind (detects_look _) (fun name => detects_bind (detects_note _) (fun _ => ?_))
  exact detects_bind (detects_setResetAsserted false) (fun _ => detects_openPort)

theorem detects_bootromPass (letter : Char -> Bool) (start : Nat) (s : LoadingState) :
    Detects (bootromPass letter start s) := by
  have hwatch : forall (event : Event) (s : LoadingState),
      Detects (do note event; watchFromHere s) := by
    intro event s
    exact detects_bind (detects_note _) (fun _ => detects_watchFromHere s)
  have hnote : forall (event : Event) (s : LoadingState),
      Detects (do note event; pure s) := by
    intro event s
    exact detects_bind (detects_note _) (fun _ => detects_pure s)
  refine detects_bind (detects_raiseIfReset _) (fun _ => ?_)
  refine detects_bind (detects_look _) (fun haystack => ?_)
  refine detects_ite (detects_bind (detects_note _) (fun _ => detects_pure _)) ?_
  refine detects_bind (detects_ite (hwatch _ _) (detects_pure _)) (fun s => ?_)
  refine detects_bind (detects_ite (hwatch _ _) (detects_pure _)) (fun s => ?_)
  refine detects_bind (detects_ite (detects_bind (detects_sendLine _)
    (fun _ => detects_pure _)) (detects_pure _)) (fun s => ?_)
  refine detects_bind (detects_ite (hwatch _ _) (detects_pure _)) (fun s => ?_)
  refine detects_bind (detects_ite (hnote _ _) (detects_pure _)) (fun s => ?_)
  refine detects_bind (detects_ite (detects_bind (detects_note _) (fun _ =>
    detects_bind (detects_sendLine _) (fun _ => detects_pure _))) (detects_pure _))
    (fun s => ?_)
  refine detects_bind (detects_ite (hnote _ _) (detects_pure _)) (fun s => ?_)
  refine detects_bind (detects_ite (detects_bind detects_late (fun _ =>
    detects_when (detects_sendRaw _ _ _))) (detects_pure _)) (fun _ => ?_)
  refine detects_bind detects_late (fun passed => detects_ite (detects_raise rfl) ?_)
  exact detects_bind (detects_readOrReconnect _) (fun _ => detects_pure _)

theorem detects_spamAttempts {sendFn : Bool -> Serial Unit}
    (hsend : forall logSend, Detects (sendFn logSend)) (start : Nat) (tftpEscape : Bool)
    (resetWatchStart : Option Nat) (attempts attempt : Nat) :
    Detects (spamAttempts sendFn start tftpEscape resetWatchStart attempts attempt) := by
  induction attempts generalizing attempt with
  | zero =>
      exact detects_bind (detects_look _) (fun _ => detects_pure _)
  | succ attempts ih =>
      refine detects_bind (hsend _) (fun _ => ?_)
      refine detects_bind (detects_forever (fun _ => ?_) ()) (fun verdict => ?_)
      · refine detects_bind (detects_raiseIfReset _) (fun _ => ?_)
        refine detects_bind (detects_look _) (fun haystack => ?_)
        refine detects_ite (detects_pure _) (detects_ite (detects_pure _) ?_)
        exact detects_turn (detects_pure _) _
      · cases verdict with
        | some result =>
            exact detects_pure result
        | none =>
            exact ih (attempt + 1)

theorem detects_interruptOrGiveUp (args : Args) (start : Nat) :
    Detects (interruptOrGiveUp args start : Serial (Pass σ Unit)) := by
  refine detects_bind ?_ (fun stopped => detects_ite (detects_pure _) (detects_raise rfl))
  refine detects_bind (detects_note _) (fun _ => detects_bind (detects_note _) (fun _ => ?_))
  refine detects_bind (detects_look _) (fun here => ?_)
  exact detects_spamAttempts (fun logSend => detects_sendRaw _ _ logSend) _ _ _ _ _

theorem detects_stopUbootAutoboot (args : Args) (start : Nat) :
    Detects (stopUbootAutoboot args start) := by
  have hspam : forall mark attempts attempt,
      Detects (spamAttempts sendEnter start true mark attempts attempt) :=
    detects_spamAttempts (fun logSend => detects_sendRaw _ _ logSend) start true
  refine detects_bind (detects_note _) (fun _ => ?_)
  refine detects_bind (detects_look _) (fun here => ?_)
  refine detects_bind (hspam _ _ _) (fun first => detects_ite (detects_pure _) ?_)
  exact detects_bind (detects_note _) (fun _ => hspam _ _ _)

theorem detects_promptPass (args : Args) (s : PromptState) : Detects (promptPass args s) := by
  have hend : forall haystack s, Detects (promptPassEnd args haystack s) := by
    intro haystack s
    exact detects_bind (detects_when (detects_note _))
      (fun _ => detects_turn (detects_raise rfl) _)
  refine detects_bind (detects_raiseIfReset none) (fun _ => ?_)
  refine detects_bind (detects_look _) (fun haystack => ?_)
  refine detects_bind (detects_when (detects_note _)) (fun _ => ?_)
  refine detects_ite ?_ (detects_ite (detects_ite ?_ (detects_pure _))
    (detects_ite (detects_interruptOrGiveUp _ _) (detects_ite ?_ (hend _ _))))
  · refine detects_bind (detects_sendLine _) (fun _ => ?_)
    exact detects_bind (detects_look _) (fun _ => detects_pure _)
  · refine detects_bind (detects_note _) (fun _ => ?_)
    exact detects_bind (detects_look _) (fun _ => detects_pure _)
  · refine detects_bind (detects_stopUbootAutoboot _ _) (fun stopped => ?_)
    refine detects_ite (detects_pure _) (detects_bind (detects_look _) (fun later => ?_))
    exact detects_ite (detects_interruptOrGiveUp _ _) (hend _ _)

theorem detects_runUbootCommand (command : Text) : Detects (runUbootCommand command) := by
  refine detects_bind (detects_look _) (fun start => ?_)
  refine detects_bind (detects_look _) (fun resetWatchStart => ?_)
  refine detects_bind (detects_sendLine _) (fun _ => detects_forever (fun _ => ?_) ())
  refine detects_bind (detects_raiseIfReset _) (fun _ => ?_)
  refine detects_bind (detects_look _) (fun haystack => ?_)
  refine detects_ite (detects_bind (detects_note _) (fun _ => detects_pure _)) ?_
  exact detects_turn (detects_raise rfl) _

theorem detects_flashCommands (args : Args) : Detects (flashCommands args) := by
  have hsize : forall output size, Detects (parseTftpSizeHex output size) := by
    intro output size
    unfold parseTftpSizeHex
    cases (tftpSizes output).getLast? with
    | some hex =>
        exact detects_pure _
    | none =>
        exact detects_bind (detects_note _) (fun _ => detects_pure _)
  refine detects_bind (detects_runUbootCommand _) (fun _ => ?_)
  refine detects_bind (detects_runUbootCommand _) (fun _ => ?_)
  refine detects_bind (detects_runUbootCommand _) (fun output => ?_)
  refine detects_bind (hsize _ _) (fun sizeHex => ?_)
  refine detects_bind (detects_runUbootCommand _) (fun protectOutput => ?_)
  refine detects_bind (detects_runUbootCommand _) (fun eraseOutput => ?_)
  refine detects_bind (detects_runUbootCommand _) (fun copyOutput => ?_)
  refine detects_bind (detects_when (detects_note _)) (fun _ => ?_)
  refine detects_ite ?_ (detects_ite (detects_raise rfl) (detects_pure _))
  exact detects_bind (detects_note _) (fun _ => detects_raise rfl)

theorem detects_cycle (args : Args) (restartFrom : Option Nat) :
    Detects (cycle args restartFrom) := by
  refine detects_bind ?_ (fun start => ?_)
  · cases restartFrom with
    | none =>
        exact detects_bind (detects_when (detects_pulseReset _))
          (fun _ => detects_waitForResetMarker)
    | some position =>
        exact detects_bind (detects_note _) (fun _ => detects_pure _)
  refine detects_bind (detects_bind (detects_note _) (fun _ => ?_)) (fun _ => ?_)
  · refine detects_bind (detects_forever (detects_bootromPass _ _) _) (fun mark => ?_)
    exact detects_bind (detects_note _) (fun _ => detects_waitForQuiet _ _)
  refine detects_bind (detects_note _) (fun _ => ?_)
  refine detects_bind detects_sleepWithResetWatch (fun _ => ?_)
  refine detects_bind (detects_sendLine _) (fun _ => ?_)
  refine detects_bind (detects_bind (detects_note _) (fun _ => ?_)) (fun _ => ?_)
  · exact detects_bind (detects_look _) (fun _ => detects_forever (detects_promptPass args) _)
  exact detects_bind (detects_note _) (fun _ => detects_flashCommands args)

end Detection

/-!
# Every run
-/

theorem mainPass_atMarker (args : Args) (restartFrom : Option Nat) {w u : SerialConsole}
    {position : Nat} (h : mainPass args restartFrom w = (.ok (.again (some position)), u)) :
    AtMarker position u := by
  rcases bind_eq_ok h with ⟨result, v, hattempt, hrest⟩
  cases result with
  | ok value =>
      cases (Prod.mk.inj hrest).left
  | error found =>
      rcases bind_eq_ok hrest with ⟨_, x, hwarn, hagain⟩
      obtain rfl : found = position :=
        Option.some.inj (Pass.again.inj (Outcome.ok.inj (Prod.mk.inj hagain).left))
      have hbuffer : u.buffer = v.buffer := by
        rw [← (Prod.mk.inj hagain).right, ← (Prod.mk.inj hwarn).right]
      unfold attempt at hattempt
      rcases hcycle : cycle args restartFrom w with ⟨outcome, y⟩
      rw [hcycle] at hattempt
      cases outcome with
      | ok value =>
          cases Outcome.ok.inj (Prod.mk.inj hattempt).left
      | running =>
          cases (Prod.mk.inj hattempt).left
      | raised failure =>
          cases failure with
          | resetDetected place =>
              rcases Prod.mk.inj hattempt with ⟨hplace, rfl⟩
              obtain rfl : place = found := Except.error.inj (Outcome.ok.inj hplace)
              rcases detects_cycle args restartFrom w y place hcycle with
                ⟨marker, rest, hdrop, haccepts⟩
              exact ⟨marker, rest, by rw [hbuffer]; exact hdrop, haccepts⟩
          | _ =>
              cases (Prod.mk.inj hattempt).left

/--
In every run, whenever a command is sent or taken to have ended and every reset marker of
the current cycle lies whole behind the mark in force, there is none; and the cycle that
follows a reset starts at its marker and depends on nothing that was received before.
-/
theorem resets_seen (args : Args) :
    (forall (answers : Nat -> Answer) (limit : Nat) (before after : List Event)
        (event : Event), mainTrace args answers limit = before ++ event :: after ->
      acts event = true -> (viewOf before).BehindMark ->
      resetMarkerRe.found (viewOf before).region = false) ∧
    (forall (restartFrom : Option Nat) (w u : SerialConsole) (position : Nat),
      mainPass args restartFrom w = (.ok (.again (some position)), u) ->
      AtMarker position u ∧ forall v, SameFrom position u v ->
        (cycle args (some position) u).1 = (cycle args (some position) v).1 ∧
          (cycle args (some position) u).2.trace = (cycle args (some position) v).2.trace) := by
  constructor
  · intro answers limit before after event htrace hacts hbehind
    exact region_calm (mainTrace_guarded args answers limit before event after htrace hacts)
      hbehind
  · intro restartFrom w u position hpass
    refine ⟨mainPass_atMarker args restartFrom hpass, ?_⟩
    intro v hsame
    have hcycle := blind_cycle args position u v hsame
    exact ⟨hcycle.left, hcycle.right.left.trace⟩

/-- A board that says something with its memory-test prompt, and then asks for a command. -/
def bootromAnswers (more : String) (n : Nat) : Answer :=
  (readAnswers "Init MPU/MSR/FPU/Segment registers.\r\n" ++
    readAnswers ("Press any key to skip memory test\r\n" ++ more) ++
    readAnswers "[VxWorks Boot]: ").getD n lateAnswer

def bootromTrace (more : String) : List Event := mainTrace sampleArgs (bootromAnswers more) 4

/-- The place at which `main` starts over. -/
def restartPlace : Outcome Failure (Pass (Option Nat) Unit) -> Option Nat
  | .ok (.again restartFrom) => restartFrom
  | _ => none

theorem restarts_at {run : Outcome Failure (Pass (Option Nat) Unit) × SerialConsole}
    {position : Nat} (h : restartPlace run.1 = some position) :
    run = (.ok (.again (some position)), run.2) := by
  rcases run with ⟨outcome, u⟩
  rcases outcome with (restartFrom | value) | failure | _
  · exact congrArg (fun place => (Outcome.ok (Pass.again place), u)) h
  · cases h
  · cases h
  · cases h

def secondReset : SerialConsole :=
  startConsole sampleArgs (fun n => (readAnswers "Init MPU/MSR/FPU/Segment registers.\r\n" ++
    readAnswers "Press any key to skip memory test\r\n" ++
    readAnswers "BAB-PPC Monitor Version 1.2.1/2\r\n").getD n lateAnswer) 4

theorem resets_seen_bootrom :
    resetMarkerRe.found (viewOf ((bootromTrace "").take 11)).region = false ∧
      AtMarker 72 (mainPass sampleArgs none secondReset).2 := by
  constructor
  · have hsent : (bootromTrace "")[11]? = some (Event.sent (chars "l\r")) := by decide +kernel
    refine (resets_seen sampleArgs).left _ _ _ _ _ (split_at hsent) rfl ?_
    intro front marker back hsplit haccepts
    have hfound := found_of_accepts haccepts front back
    rw [← hsplit] at hfound
    have hnone : resetMarkerRe.found (viewOf ((bootromTrace "").take 11)).region = false := by
      decide +kernel
    rw [hnone] at hfound
    cases hfound
  · have hplace : restartPlace (mainPass sampleArgs none secondReset).1 = some 72 := by
      decide +kernel
    exact ((resets_seen sampleArgs).right none secondReset _ 72 (restarts_at hplace)).left

/-- A reset marker that comes in with the memory-test prompt is not seen. -/
theorem reset_unseen_with_prompt :
    ¬ forall (args : Args) (answers : Nat -> Answer) (limit : Nat)
        (before after : List Event) (event : Event),
      mainTrace args answers limit = before ++ event :: after -> acts event = true ->
        resetMarkerRe.found (viewOf before).region = false := by
  intro hclaim
  have hsent : (bootromTrace "Init MPU/MSR/FPU/Segment registers.\r\n")[11]? =
      some (Event.sent (chars "l\r")) := by
    decide +kernel
  have hnone := hclaim _ _ _ _ _ _ (split_at hsent) rfl
  have hfound : resetMarkerRe.found (viewOf ((bootromTrace
      "Init MPU/MSR/FPU/Segment registers.\r\n").take 11)).region = true := by
    decide +kernel
  exact absurd (hfound.symm.trans hnone) (by decide)

end Console
end Bab750
