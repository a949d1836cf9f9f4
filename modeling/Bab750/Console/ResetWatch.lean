import Bab750.Console.Download
import Mathlib.Data.List.Infix

/-!
# Watching for resets

Every phase of the flash script looks for reset markers behind a mark of its own.  What
the marks are can be read off the trace, and nothing is sent while a marker lies behind
the mark in force.  A marker in front of it is not seen.
-/

namespace Bab750
namespace Console

open Foundation
open Script
open Pattern

/-!
# The marks of a trace
-/

inductive Phase where
  /-- `wait_for_reset_marker`. -/
  | waiting
  /-- `wait_for_bootrom_loading`. -/
  | loading
  /-- `sleep_with_reset_watch`, and the command that starts U-Boot. -/
  | sleeping
  /-- `wait_for_u_boot_prompt`. -/
  | prompt
  /-- `run_uboot_command`. -/
  | commands
deriving DecidableEq

/-- What the events of a run say about the watch for resets. -/
structure View where
  buffer : Text
  /-- The mark in force. -/
  mark : Option Nat
  phase : Phase
  /-- What the board has said: in this cycle, or since the commands began. -/
  spoken : Text

def fromMarker (text : Text) : Text :=
  match resetMarkerRe.search text with
  | none => []
  | some n => text.drop n

def View.markHere (v : View) : View := { v with mark := some v.buffer.length }

def View.message (v : View) : Kind -> View
  | .other => v
  | .request => { v.markHere with phase := .waiting }
  | .cycle =>
      { v with
        phase := .loading
        mark := none
        spoken := fromMarker (v.buffer.drop (v.mark.getD 0)) }
  | .acquire => if v.phase = .loading ∧ v.mark = none then v.markHere else v
  | .sleep => { v.markHere with phase := .sleeping }
  | .boot => { v with phase := .prompt, mark := none }
  | .stop => if v.phase = .prompt then v.markHere else v
  | .commands => { v.markHere with phase := .commands, spoken := [] }

def View.step (v : View) : Event -> View
  | .received chunk =>
      { v with buffer := appendBuffer v.buffer chunk, spoken := v.spoken ++ chunk }
  | .message level text => v.message (kindOf level text)
  | .returned _ _ => v.markHere
  | _ => v

def View.initial : View where
  buffer := []
  mark := none
  phase := .waiting
  spoken := []

def viewOf (events : List Event) : View := events.foldl View.step View.initial

/-- The text in which the script looks for a reset. -/
def View.watched (v : View) : Text :=
  match v.phase, v.mark with
  | .loading, some n => v.buffer.drop n
  | .sleeping, some n => v.buffer.drop n
  | .commands, some n => v.buffer.drop n
  | _, _ => []

def behindMemoryTest (text : Text) : Text :=
  match memoryTestRe.search text with
  | none => []
  | some n => text.drop (n + (chars "Press any key to skip memory test").length)

/--
The text in which a reset marker is to be seen: what the board has said in this cycle
behind its memory-test prompt, outside `wait_for_u_boot_prompt`.
-/
def View.region (v : View) : Text :=
  match v.phase with
  | .loading => behindMemoryTest v.spoken
  | .sleeping => behindMemoryTest v.spoken
  | .commands => v.spoken
  | _ => []

/-- Every reset marker of the region lies whole behind the mark in force. -/
def View.BehindMark (v : View) : Prop :=
  forall front marker back, v.region = front ++ marker ++ back ->
    Accepts resetMarkerRe marker -> v.region.length <= front.length + v.watched.length

def View.Calm (v : View) : Prop := resetMarkerRe.found v.watched = false

/-- A command is sent, or is taken to have ended. -/
def acts : Event -> Bool
  | .sent _ => true
  | .returned _ _ => true
  | _ => false

/-- Nothing is done while a reset marker lies behind the mark in force. -/
def Guarded (trace : List Event) : Prop :=
  forall before event after, trace = before ++ event :: after -> acts event = true ->
    (viewOf before).Calm

theorem viewOf_append (events : List Event) (event : Event) :
    viewOf (events ++ [event]) = (viewOf events).step event := by
  unfold viewOf
  rw [List.foldl_append]
  rfl

theorem guarded_append {trace : List Event} {event : Event} (h : Guarded trace)
    (hevent : acts event = true -> (viewOf trace).Calm) : Guarded (trace ++ [event]) := by
  intro before other after hsplit hacts
  rcases List.eq_nil_or_concat after with rfl | ⟨rest, last, rfl⟩
  · have hlast := List.append_inj_right' hsplit rfl
    have hfront := List.append_inj_left' hsplit rfl
    rw [← hfront]
    exact hevent (by rw [(List.cons.inj hlast).left]; exact hacts)
  · have hlonger : trace ++ [event] = (before ++ other :: rest) ++ [last] := by
      rw [hsplit, List.concat_eq_append, List.append_assoc, List.cons_append]
    exact h before other rest (List.append_inj_left' hlonger rfl) hacts

/-!
# The region and the mark
-/

theorem appendBuffer_suffix (buffer chunk : Text) :
    appendBuffer buffer chunk <:+ buffer ++ chunk := by
  unfold appendBuffer
  dsimp only
  split
  · exact List.drop_suffix _ _
  · exact List.suffix_refl _

theorem fromMarker_suffix (text : Text) : fromMarker text <:+ text := by
  unfold fromMarker
  cases resetMarkerRe.search text with
  | none =>
      exact List.nil_suffix
  | some n =>
      exact List.drop_suffix _ _

theorem suffix_append {part text : Text} (h : part <:+ text) (more : Text) :
    part ++ more <:+ text ++ more := by
  rcases h with ⟨front, rfl⟩
  exact ⟨front, (List.append_assoc _ _ _).symm⟩

theorem receivedText_snoc (events : List Event) (event : Event) :
    receivedText (events ++ [event]) = receivedText events ++ receivedText [event] := by
  unfold receivedText
  rw [List.flatMap_append]

/-- Both texts of a view are the last part of what has come in. -/
theorem message_suffix {v : View} {text : Text} (hbuffer : v.buffer <:+ text)
    (hspoken : v.spoken <:+ text) (kind : Kind) :
    (v.message kind).buffer <:+ text ∧ (v.message kind).spoken <:+ text := by
  cases kind with
  | cycle =>
      refine ⟨hbuffer, (fromMarker_suffix _).trans ?_⟩
      exact (List.drop_suffix _ _).trans hbuffer
  | acquire =>
      dsimp only [View.message]
      split
      · exact ⟨hbuffer, hspoken⟩
      · exact ⟨hbuffer, hspoken⟩
  | stop =>
      dsimp only [View.message]
      split
      · exact ⟨hbuffer, hspoken⟩
      · exact ⟨hbuffer, hspoken⟩
  | commands =>
      exact ⟨hbuffer, List.nil_suffix⟩
  | _ =>
      exact ⟨hbuffer, hspoken⟩

theorem view_suffix (events : List Event) :
    (viewOf events).buffer <:+ receivedText events ∧
      (viewOf events).spoken <:+ receivedText events := by
  induction events using List.reverseRecOn with
  | nil =>
      exact ⟨List.nil_suffix, List.nil_suffix⟩
  | append_singleton events event ih =>
      rw [viewOf_append, receivedText_snoc]
      cases event with
      | received chunk =>
          have hchunk : receivedText [Event.received chunk] = chunk := List.append_nil chunk
          rw [hchunk]
          refine ⟨(appendBuffer_suffix _ _).trans (suffix_append ih.left chunk), ?_⟩
          exact suffix_append ih.right chunk
      | message level text =>
          have hnone : receivedText [Event.message level text] = [] := rfl
          rw [hnone, List.append_nil]
          exact message_suffix ih.left ih.right _
      | _ =>
          show _ <:+ receivedText events ++ [] ∧ _ <:+ receivedText events ++ []
          rw [List.append_nil]
          exact ih

theorem watched_suffix (v : View) : v.watched <:+ v.buffer := by
  unfold View.watched
  split
  · exact List.drop_suffix _ _
  · exact List.drop_suffix _ _
  · exact List.drop_suffix _ _
  · exact List.nil_suffix

theorem behindMemoryTest_suffix (text : Text) : behindMemoryTest text <:+ text := by
  unfold behindMemoryTest
  cases memoryTestRe.search text with
  | none =>
      exact List.nil_suffix
  | some n =>
      exact List.drop_suffix _ _

theorem region_suffix (v : View) : v.region <:+ v.spoken := by
  unfold View.region
  split
  · exact behindMemoryTest_suffix _
  · exact behindMemoryTest_suffix _
  · exact List.suffix_refl _
  · exact List.nil_suffix

/-- A marker in the region is a marker behind the mark, unless it starts in front of it. -/
theorem region_calm {events : List Event} (hcalm : (viewOf events).Calm)
    (hbehind : (viewOf events).BehindMark) :
    resetMarkerRe.found (viewOf events).region = false := by
  rcases view_suffix events with ⟨hbuffer, hspoken⟩
  have hwatched := (watched_suffix (viewOf events)).trans hbuffer
  have hregion := (region_suffix (viewOf events)).trans hspoken
  by_contra hfound
  rcases exists_accepts local_resetMarkerRe (Bool.not_eq_false _ ▸ hfound) with
    ⟨front, marker, back, hsplit, haccepts⟩
  have hlength := hbehind front marker back hsplit haccepts
  have hmark : resetMarkerRe.found (viewOf events).watched = true := by
    rcases Nat.le_total (viewOf events).region.length (viewOf events).watched.length with
      hshort | hlong
    · have hinside := List.suffix_of_suffix_length_le hregion hwatched hshort
      exact found_of_within local_resetMarkerRe hinside.isInfix (Bool.not_eq_false _ ▸ hfound)
    · -- the region reaches back in front of the mark, but the marker does not
      rcases List.suffix_of_suffix_length_le hwatched hregion hlong with ⟨early, hearly⟩
      have hcount := congrArg List.length hearly
      rw [List.length_append] at hcount
      have hdrop : (viewOf events).watched = front.drop early.length ++ marker ++ back := by
        have hboth := congrArg (List.drop early.length) (hearly.trans hsplit)
        rw [List.drop_left, List.append_assoc,
          List.drop_append_of_le_length (by omega)] at hboth
        rw [hboth, List.append_assoc]
      rw [hdrop]
      exact found_of_accepts haccepts _ _
  rw [show resetMarkerRe.found (viewOf events).watched = false from hcalm] at hmark
  cases hmark

/-!
# What a phase knows
-/

/-- The console holds what its trace says, the trace is guarded, and its view is as given. -/
def Sees (P : View -> Prop) (w : SerialConsole) : Prop :=
  w.buffer = (viewOf w.trace).buffer ∧ Guarded w.trace ∧ P (viewOf w.trace)

def Safe : SerialConsole -> Prop := Sees (fun _ => True)

theorem safe_of_sees {P : View -> Prop} (w : SerialConsole) (h : Sees P w) : Safe w :=
  ⟨h.left, h.right.left, trivial⟩

def Marked (phase : Phase) (mark : Option Nat) (v : View) : Prop :=
  v.phase = phase ∧ v.mark = mark

/-- The phase, its mark, and no reset marker behind it. -/
def Clear (phase : Phase) (mark : Option Nat) (v : View) : Prop :=
  Marked phase mark v ∧ v.Calm

theorem step_buffer (v : View) (event : Event) :
    (v.step event).buffer = bufferAfter v.buffer event := by
  cases event with
  | message level text =>
      show (v.message (kindOf level text)).buffer = v.buffer
      cases kindOf level text with
      | acquire =>
          dsimp only [View.message]
          split
          · rfl
          · rfl
      | stop =>
          dsimp only [View.message]
          split
          · rfl
          · rfl
      | _ =>
          rfl
  | _ =>
      rfl

theorem sees_event {P Q : View -> Prop} {event : Event} {w u : SerialConsole} (h : Sees P w)
    (hacts : acts event = true -> forall v, P v -> v.Calm)
    (hstep : forall v, P v -> Q (v.step event))
    (hbuffer : u.buffer = bufferAfter w.buffer event)
    (htrace : u.trace = w.trace ++ [event]) : Sees Q u := by
  rcases h with ⟨hsame, hguarded, hview⟩
  unfold Sees
  rw [htrace, viewOf_append]
  refine ⟨?_, guarded_append hguarded (fun h => hacts h _ hview), hstep _ hview⟩
  rw [hbuffer, step_buffer, hsame]

section Primitives

variable {P Q : View -> Prop}

theorem sees_note {event : Event} (hbuffer : forall buffer, bufferAfter buffer event = buffer)
    (hacts : acts event = true -> forall v, P v -> v.Calm)
    (hstep : forall v, P v -> Q (v.step event)) :
    Meets Safe (Sees P) (note event) (fun _ => Sees Q) := by
  have hnote : forall w, Sees P w ->
      Sees Q { w with trace := w.trace ++ [event] } := by
    intro w hw
    exact sees_event hw hacts hstep (hbuffer _).symm rfl
  exact ⟨fun w hw => safe_of_sees _ (hnote w hw), returns_change hnote⟩

theorem sees_other {level : Level} {text : Text} (hkind : kindOf level text = .other) :
    Meets Safe (Sees P) (note (.message level text)) (fun _ => Sees P) := by
  refine sees_note (fun _ => rfl) (fun h => by cases h) ?_
  intro v hv
  show P (v.message (kindOf level text))
  rw [hkind]
  exact hv

theorem sees_sent (hcalm : forall v, P v -> v.Calm) (data : Text) :
    Meets Safe (Sees P) (note (.sent data)) (fun _ => Sees P) :=
  sees_note (fun _ => rfl) (fun _ => hcalm) (fun _ hv => hv)

theorem sees_keeps {α : Type} {script : Serial α} (h : Keeps (Sees P) script) :
    Meets Safe (Sees P) script (fun _ => Sees P) :=
  h.meets safe_of_sees

theorem sees_late : Meets Safe (Sees P) late (fun _ => Sees P) :=
  sees_keeps (fun _ h => h)

theorem sees_pure {α : Type} (value : α) :
    Meets Safe (Sees P) (pure value : Serial α) (fun _ => Sees P) :=
  sees_keeps (keeps_pure value)

theorem sees_raise {α : Type} {post : α -> SerialConsole -> Prop} (failure : Failure) :
    Meets Safe (Sees P) (raise failure : Serial α) post :=
  meets_raise safe_of_sees

theorem sees_look {α : Type} (f : SerialConsole -> α) :
    Meets Safe (Sees P) (look f : Serial α) (fun _ => Sees P) :=
  sees_keeps (keeps_look f)

theorem sees_mark :
    Meets Safe (Sees P) mark (fun here => Sees (fun v => P v ∧ here = v.buffer.length)) :=
  meets_look safe_of_sees
    (fun _ hw => ⟨hw.left, hw.right.left, hw.right.right, congrArg List.length hw.left⟩)

theorem sees_readOnce (hread : forall v chunk, P v -> P (v.step (.received chunk))) :
    Meets Safe (Sees P) readOnce (fun _ => Sees P) := by
  refine sees_keeps ?_
  intro w hw
  unfold readOnce
  show Sees P (Script.bind ask _ w).2
  unfold Script.bind ask
  dsimp only
  split
  · exact hw
  · exact sees_event hw (fun h => by cases h) (fun v hv => hread v _ hv) rfl rfl

theorem sees_when {condition : Bool} {script : Serial Unit}
    (h : Meets Safe (Sees P) script (fun _ => Sees P)) :
    Meets Safe (Sees P) (when condition script) (fun _ => Sees P) := by
  unfold when
  exact meets_ite h (sees_pure ())

theorem sees_sendRaw (hcalm : forall v, P v -> v.Calm) (data description : Text)
    (logSend : Bool) :
    Meets Safe (Sees P) (sendRaw data description logSend) (fun _ => Sees P) :=
  meets_bind (sees_when (sees_other (kindOf_send description)))
    (fun _ => sees_sent hcalm data)

theorem sees_sendLine (hcalm : forall v, P v -> v.Calm) (line : Text) :
    Meets Safe (Sees P) (sendLine line) (fun _ => Sees P) :=
  meets_ite (sees_sendRaw hcalm _ _ _) (sees_raise _)

end Primitives

theorem clear_calm {phase : Phase} {mark : Option Nat} (v : View) (h : Clear phase mark v) :
    v.Calm :=
  h.right

theorem marked_received {phase : Phase} {mark : Option Nat} (v : View) (chunk : Text)
    (h : Marked phase mark v) : Marked phase mark (v.step (.received chunk)) :=
  h

theorem calm_of_watched_nil {v : View} (h : v.watched = []) : v.Calm := by
  unfold View.Calm
  rw [h]
  decide

theorem watched_some {v : View} {n : Nat} (hmark : v.mark = some n) :
    v.watched = v.buffer.drop n ∨ v.watched = [] := by
  unfold View.watched
  rw [hmark]
  cases v.phase with
  | waiting =>
      exact Or.inr rfl
  | prompt =>
      exact Or.inr rfl
  | _ =>
      exact Or.inl rfl

theorem sees_raiseIfReset (phase : Phase) (mark : Option Nat) :
    Meets Safe (Sees (Marked phase mark)) (raiseIfReset mark)
      (fun _ => Sees (Clear phase mark)) := by
  refine ⟨ensures_weaken (keeps_raiseIfReset mark) (fun _ h => h) safe_of_sees, ?_⟩
  cases mark with
  | none =>
      refine returns_pure ?_
      rintro w ⟨hbuffer, hguarded, hphase, hmark⟩
      refine ⟨hbuffer, hguarded, ⟨hphase, hmark⟩, calm_of_watched_nil ?_⟩
      unfold View.watched
      rw [hmark]
      cases (viewOf w.trace).phase with
      | _ =>
          rfl
  | some n =>
      refine returns_weaken (raiseIfReset_returns n) (fun _ h => h) ?_
      rintro _ w ⟨⟨hbuffer, hguarded, hphase, hmark⟩, hnone⟩
      refine ⟨hbuffer, hguarded, ⟨hphase, hmark⟩, ?_⟩
      rcases watched_some hmark with hwatched | hwatched
      · unfold View.Calm
        rw [hwatched, ← hbuffer]
        exact hnone
      · exact calm_of_watched_nil hwatched

/-!
# The boot ROM
-/

theorem markHere_calm (v : View) : v.markHere.Calm := by
  rcases watched_some (v := v.markHere) rfl with hwatched | hwatched
  · refine calm_of_watched_nil (hwatched.trans ?_)
    exact List.drop_length
  · exact calm_of_watched_nil hwatched

theorem sees_acquire {level : Level} {text : Text} (hkind : kindOf level text = .acquire)
    (mark : Option Nat) :
    Meets Safe (Sees (Clear .loading mark)) (note (.message level text))
      (fun _ => Sees (fun v => Clear .loading (some (mark.getD v.buffer.length)) v)) := by
  refine sees_note (fun _ => rfl) (fun h => by cases h) ?_
  rintro v ⟨⟨hphase, hmark⟩, hcalm⟩
  rw [show (v.step (.message level text)).buffer = v.buffer from step_buffer v _]
  show Clear .loading _ (v.message (kindOf level text))
  rw [hkind]
  dsimp only [View.message]
  cases mark with
  | none =>
      rw [if_pos ⟨hphase, hmark⟩]
      exact ⟨⟨hphase, rfl⟩, markHere_calm v⟩
  | some n =>
      rw [if_neg (fun h => by rw [hmark] at h; cases h.right)]
      exact ⟨⟨hphase, hmark⟩, hcalm⟩

def LoadingSees (s : LoadingState) : SerialConsole -> Prop :=
  Sees (Clear .loading s.resetWatchStart)

theorem sees_watchFromHere {level : Level} {text : Text}
    (hkind : kindOf level text = .acquire) {s next : LoadingState}
    (hnext : next.resetWatchStart = s.resetWatchStart) :
    Meets Safe (LoadingSees s) (do note (.message level text); watchFromHere next)
      LoadingSees := by
  refine meets_bind (sees_acquire hkind _) (fun _ => ?_)
  unfold watchFromHere
  cases hmark : next.resetWatchStart with
  | some n =>
      refine meets_pure safe_of_sees ?_
      intro w hw
      rw [← hnext, hmark] at hw
      unfold LoadingSees
      rw [hmark]
      exact hw
  | none =>
      refine meets_bind sees_mark (fun here => meets_pure safe_of_sees ?_)
      rintro w ⟨hbuffer, hguarded, hclear, hhere⟩
      rw [← hnext, hmark] at hclear
      refine ⟨hbuffer, hguarded, ?_⟩
      rw [hhere]
      exact hclear

theorem sees_state {s next : LoadingState} (hnext : next.resetWatchStart = s.resetWatchStart) :
    Meets Safe (LoadingSees s) (pure next : Serial LoadingState) LoadingSees := by
  refine meets_pure safe_of_sees ?_
  intro w hw
  unfold LoadingSees
  rw [hnext]
  exact hw

theorem sees_seeMemoryTest (haystack : Text) (s : LoadingState) :
    Meets Safe (LoadingSees s) (seeMemoryTest haystack s) LoadingSees :=
  meets_ite (sees_watchFromHere (by decide) rfl) (sees_state rfl)

theorem sees_seeNvramInvalid (haystack : Text) (s : LoadingState) :
    Meets Safe (LoadingSees s) (seeNvramInvalid haystack s) LoadingSees :=
  meets_ite (sees_watchFromHere (by decide) rfl) (sees_state rfl)

theorem sees_seeVxworksBanner (haystack : Text) (s : LoadingState) :
    Meets Safe (LoadingSees s) (seeVxworksBanner haystack s) LoadingSees :=
  meets_ite (sees_watchFromHere (by decide) rfl) (sees_state rfl)

theorem sees_seePressKey (haystack : Text) (s : LoadingState) :
    Meets Safe (LoadingSees s) (seePressKey haystack s) LoadingSees :=
  meets_ite (meets_bind (sees_sendLine clear_calm _) (fun _ => sees_state rfl))
    (sees_state rfl)

theorem sees_startEnterSpam (s : LoadingState) :
    Meets Safe (LoadingSees s) (startEnterSpam s) LoadingSees :=
  meets_ite (meets_bind (sees_other (by decide)) (fun _ => sees_state rfl)) (sees_state rfl)

theorem sees_requestLoad (haystack : Text) (s : LoadingState) :
    Meets Safe (LoadingSees s) (requestLoad haystack s) LoadingSees := by
  refine meets_ite (meets_bind (sees_other (by decide)) (fun _ => ?_)) (sees_state rfl)
  exact meets_bind (sees_sendLine clear_calm _) (fun _ => sees_state rfl)

theorem sees_warnAutostart (haystack : Text) (s : LoadingState) :
    Meets Safe (LoadingSees s) (warnAutostart haystack s) LoadingSees :=
  meets_ite (meets_bind (sees_other (by decide)) (fun _ => sees_state rfl)) (sees_state rfl)

theorem sees_spamEnter (s : LoadingState) :
    Meets Safe (LoadingSees s) (spamEnter s) (fun _ => LoadingSees s) := by
  refine meets_ite (meets_bind sees_late (fun due => ?_)) (sees_pure ())
  exact sees_when (sees_sendRaw clear_calm _ _ _)

theorem sees_setResetAsserted {P : View -> Prop} (asserted : Bool) :
    Meets Safe (Sees P) (setResetAsserted asserted) (fun _ => Sees P) := by
  refine meets_bind (sees_look _) (fun line => ?_)
  cases line with
  | none =>
      exact sees_pure ()
  | some _ =>
      exact meets_bind (sees_look _)
        (fun _ => sees_note (fun _ => rfl) (fun h => by cases h) (fun _ hv => hv))

theorem sees_openPort {P : View -> Prop} :
    Meets Safe (Sees P) openPort (fun _ => Sees P) := by
  refine meets_bind (sees_setResetAsserted false) (fun _ => ?_)
  refine meets_bind (sees_note (fun _ => rfl) (fun h => by cases h) (fun _ hv => hv))
    (fun _ => ?_)
  exact sees_setResetAsserted false

theorem sees_readOrReconnect (phase : Phase) (mark : Option Nat) (s : LoadingState) :
    Meets Safe (Sees (Marked phase mark)) (readOrReconnect s)
      (fun _ => Sees (Marked phase mark)) := by
  refine meets_bind (sees_readOnce marked_received) (fun chunk => ?_)
  refine meets_ite (meets_bind sees_late (fun halted => sees_when ?_)) (sees_pure ())
  refine meets_bind (sees_look _) (fun name => ?_)
  refine meets_bind (sees_other rfl) (fun _ => ?_)
  exact meets_bind (sees_setResetAsserted false) (fun _ => sees_openPort)

/-- The state goes with the view; a marker may have come in. -/
def LoadingMarked (s : LoadingState) : SerialConsole -> Prop :=
  Sees (Marked .loading s.resetWatchStart)

theorem marked_of_clear {phase : Phase} {mark : Option Nat} (w : SerialConsole)
    (h : Sees (Clear phase mark) w) : Sees (Marked phase mark) w :=
  ⟨h.left, h.right.left, h.right.right.left⟩

theorem sees_bootromPass (letter : Char -> Bool) (start : Nat) (s : LoadingState) :
    Meets Safe (LoadingMarked s) (bootromPass letter start s)
      (passHolds LoadingMarked (fun mark => Sees (Clear .loading mark))) := by
  refine meets_bind (sees_raiseIfReset _ _) (fun _ => ?_)
  refine meets_bind (sees_look _) (fun haystack => ?_)
  refine meets_ite ?_ ?_
  · exact meets_bind (sees_other (by decide))
      (fun _ => meets_pure safe_of_sees (fun _ hw => hw))
  refine meets_bind (sees_seeMemoryTest haystack s) (fun s => ?_)
  refine meets_bind (sees_seeNvramInvalid haystack s) (fun s => ?_)
  refine meets_bind (sees_seePressKey haystack s) (fun s => ?_)
  refine meets_bind (sees_seeVxworksBanner haystack s) (fun s => ?_)
  refine meets_bind (sees_startEnterSpam s) (fun s => ?_)
  refine meets_bind (sees_requestLoad haystack s) (fun s => ?_)
  refine meets_bind (sees_warnAutostart haystack s) (fun s => ?_)
  refine meets_bind (sees_spamEnter s) (fun _ => ?_)
  refine meets_bind sees_late (fun expired => ?_)
  refine meets_ite (sees_raise _) ?_
  refine meets_weaken (meets_bind (sees_readOrReconnect .loading s.resetWatchStart s)
    (fun _ => meets_pure safe_of_sees (fun _ hw => hw))) marked_of_clear (fun _ _ h => h)

theorem sees_forever {α : Type} {P : View -> Prop} {post : α -> SerialConsole -> Prop}
    {body : Unit -> Serial (Pass Unit α)}
    (hbody : Meets Safe (Sees P) (body ()) (passHolds (fun _ => Sees P) post)) :
    Meets Safe (Sees P) (forever body ()) post :=
  meets_loop (fun _ => Sees P) (fun _ => safe_of_sees) (fun _ => hbody) ()

theorem sees_waitForQuiet (description : Text) (resetWatchStart : Option Nat) :
    Meets Safe (Sees (fun v => Clear .loading (some (resetWatchStart.getD v.buffer.length)) v))
      (waitForQuiet description resetWatchStart) (fun _ => Safe) := by
  refine meets_bind sees_mark (fun here => ?_)
  have hbody : forall n, Meets Safe (Sees (Marked .loading (some n)))
      (do
        raiseIfReset (some n)
        let chunk ← readOnce
        let quiet ← quietFor chunk
        if quiet then pure (.done ())
        else do
          let expired ← late
          if expired then
            Script.raise (.timeoutError (chars "Timed out while waiting for " ++ description))
          else pure (.again ()))
      (passHolds (fun _ => Sees (Marked .loading (some n))) (fun _ => Safe)) := by
    intro n
    refine meets_bind (sees_raiseIfReset _ _) (fun _ => ?_)
    refine meets_weaken (meets_bind (sees_readOnce marked_received) (fun chunk => ?_))
      marked_of_clear (fun _ _ h => h)
    refine meets_bind (meets_ite sees_late (sees_pure _)) (fun quiet => ?_)
    refine meets_ite (meets_pure safe_of_sees safe_of_sees) ?_
    refine meets_bind sees_late (fun expired => ?_)
    exact meets_ite (sees_raise _) (meets_pure safe_of_sees (fun _ hw => hw))
  refine meets_weaken (sees_forever (hbody (resetWatchStart.getD here))) ?_ (fun _ _ h => h)
  rintro w ⟨hbuffer, hguarded, hclear, hhere⟩
  refine ⟨hbuffer, hguarded, ?_⟩
  rw [hhere]
  exact hclear.left

theorem sees_waitForBootromLoading (args : Args) (start : Nat) :
    Meets Safe (Sees (Marked .loading none)) (waitForBootromLoading args start)
      (fun _ => Safe) := by
  refine meets_bind (sees_other (by decide)) (fun _ => ?_)
  have hloop : forall s, Meets Safe (LoadingMarked s)
      (forever (bootromPass args.letter start) s) (fun mark => Sees (Clear .loading mark)) :=
    meets_loop LoadingMarked (fun _ => safe_of_sees) (sees_bootromPass args.letter start)
  refine meets_bind (meets_weaken (hloop _) (fun _ h => h) (fun _ _ h => h))
    (fun resetWatchStart => ?_)
  refine meets_bind (sees_acquire (by decide) resetWatchStart) (fun _ => ?_)
  exact sees_waitForQuiet _ resetWatchStart

/-!
# Up to the prompt
-/

def JustMarked (phase : Phase) (v : View) : Prop := Marked phase (some v.buffer.length) v

theorem justMarked_calm {phase : Phase} (v : View) (h : JustMarked phase v) : v.Calm := by
  rcases watched_some h.right with hwatched | hwatched
  · exact calm_of_watched_nil (hwatched.trans List.drop_length)
  · exact calm_of_watched_nil hwatched

theorem isSleep_delay (delay : Text) :
    isSleep (chars "Waiting " ++ delay ++ chars "s before starting U-Boot from RAM") =
      true := by
  unfold isSleep
  rw [Bool.and_eq_true, List.isPrefixOf_iff_prefix, List.isSuffixOf_iff_suffix]
  refine ⟨?_, List.suffix_append _ _⟩
  rw [List.append_assoc]
  exact List.prefix_append _ _

theorem kindOf_delay (delay : Text) :
    kindOf .log (chars "Waiting " ++ delay ++ chars "s before starting U-Boot from RAM") =
      .sleep := by
  have hne : forall telling, isSleep telling = false ->
      chars "Waiting " ++ delay ++ chars "s before starting U-Boot from RAM" ≠ telling := by
    intro telling htelling hsame
    rw [← hsame, isSleep_delay] at htelling
    cases htelling
  simp only [kindOf, isSleep_delay, if_true,
    if_neg (hne (chars "Reset marker detected") (by decide)),
    if_neg (hne (chars "Memory-test prompt detected") (by decide)),
    if_neg (hne (chars "VxWorks banner detected") (by decide)),
    if_neg (hne (chars "Waiting for Loading to finish") (by decide))]

theorem sees_sleepWithResetWatch :
    Meets Safe (Sees (JustMarked .sleeping)) sleepWithResetWatch
      (fun _ => Sees (fun v => v.phase = .sleeping ∧ v.Calm)) := by
  refine meets_bind sees_mark (fun here => ?_)
  refine meets_weaken (sees_forever (P := Marked .sleeping (some here)) ?_) ?_ (fun _ _ h => h)
  · refine meets_bind (sees_raiseIfReset _ _) (fun _ => ?_)
    refine meets_bind sees_late (fun expired => ?_)
    refine meets_ite (meets_pure safe_of_sees ?_) ?_
    · exact fun w hw => ⟨hw.left, hw.right.left, hw.right.right.left.left, hw.right.right.right⟩
    · refine meets_weaken (meets_bind (sees_readOnce marked_received) (fun _ => ?_))
        marked_of_clear (fun _ _ h => h)
      exact meets_pure safe_of_sees (fun _ hw => hw)
  · rintro w ⟨hbuffer, hguarded, hmarked, hhere⟩
    refine ⟨hbuffer, hguarded, ?_⟩
    rw [hhere]
    exact hmarked

/-- The events that leave `wait_for_u_boot_prompt` where it is. -/
def StaysInPrompt (event : Event) : Prop :=
  forall v : View, v.phase = .prompt -> (v.step event).phase = .prompt

theorem permits_staysInPrompt : PermitsPrompt StaysInPrompt where
  received := fun _ _ h => h
  message := by
    intro level text hkind v hv
    show (v.message (kindOf level text)).phase = .prompt
    cases hcase : kindOf level text with
    | other =>
        exact hv
    | acquire =>
        dsimp only [View.message]
        rw [if_neg (fun h => by rw [hv] at h; cases h.left)]
        exact hv
    | stop =>
        dsimp only [View.message]
        rw [if_pos hv]
        exact hv
    | _ =>
        rw [hcase] at hkind
        cases hkind
  enter := fun _ h => h
  ctrlC := fun _ h => h
  answer := fun _ h => h

theorem prompt_calm {v : View} (h : v.phase = .prompt) : v.Calm := by
  refine calm_of_watched_nil ?_
  unfold View.watched
  rw [h]

theorem sees_prompt {α : Type} {script : Serial α} (h : OnlyAppends StaysInPrompt script) :
    Meets Safe (Sees (fun v => v.phase = .prompt)) script
      (fun _ => Sees (fun v => v.phase = .prompt)) := by
  refine sees_keeps (h (fun buffer trace => buffer = (viewOf trace).buffer ∧ Guarded trace ∧
    (viewOf trace).phase = .prompt) ?_)
  rintro buffer trace event hevent ⟨hbuffer, hguarded, hphase⟩
  rw [viewOf_append]
  refine ⟨?_, guarded_append hguarded (fun _ => prompt_calm hphase), hevent _ hphase⟩
  rw [step_buffer, hbuffer]

theorem sees_waitForUBootPrompt (args : Args) :
    Meets Safe Safe (waitForUBootPrompt args) (fun _ => Sees (fun v => v.phase = .prompt)) := by
  refine meets_bind (sees_note (Q := fun v => v.phase = .prompt) (fun _ => rfl)
    (fun h => by cases h) ?_) (fun _ => ?_)
  · intro v _
    show (v.message (kindOf .log (chars "Waiting for U-Boot to start"))).phase = .prompt
    rw [show kindOf .log (chars "Waiting for U-Boot to start") = .boot by decide]
    rfl
  · refine meets_bind (sees_look _) (fun start => ?_)
    exact sees_prompt (onlyAppends_forever (permitted_promptPass permits_staysInPrompt args) _)

/-!
# Commands
-/

theorem sees_commandPass (command : Text) (start mark : Nat) :
    Meets Safe (Sees (Marked .commands (some mark))) (commandPass command start mark ())
      (passHolds (fun _ => Sees (Marked .commands (some mark)))
        (fun _ => Sees (JustMarked .commands))) := by
  refine meets_bind (sees_raiseIfReset _ _) (fun _ => ?_)
  refine meets_bind (sees_look _) (fun haystack => ?_)
  refine meets_ite ?_ ?_
  · refine meets_bind (sees_note (Q := JustMarked .commands) (fun _ => rfl)
      (fun _ => clear_calm) ?_) (fun _ => meets_pure safe_of_sees (fun _ hw => hw))
    exact fun v hv => ⟨hv.left.left, rfl⟩
  · refine meets_bind sees_late (fun expired => ?_)
    refine meets_ite (sees_raise _) ?_
    refine meets_weaken (meets_bind (sees_readOnce marked_received) (fun _ => ?_))
      marked_of_clear (fun _ _ h => h)
    exact meets_pure safe_of_sees (fun _ hw => hw)

theorem sees_runUbootCommand (command : Text) :
    Meets Safe (Sees (JustMarked .commands)) (runUbootCommand command)
      (fun _ => Sees (JustMarked .commands)) := by
  refine meets_bind (sees_look _) (fun start => ?_)
  refine meets_bind sees_mark (fun here => ?_)
  refine meets_bind (sees_sendLine (fun v hv => justMarked_calm v hv.left) _) (fun _ => ?_)
  refine meets_weaken (sees_forever (sees_commandPass command start here)) ?_
    (fun _ _ h => h)
  rintro w ⟨hbuffer, hguarded, hmarked, hhere⟩
  refine ⟨hbuffer, hguarded, ?_⟩
  rw [hhere]
  exact hmarked

theorem sees_parseTftpSizeHex {P : View -> Prop} (output : Text) (size : Nat) :
    Meets Safe (Sees P) (parseTftpSizeHex output size) (fun _ => Sees P) := by
  unfold parseTftpSizeHex
  cases (tftpSizes output).getLast? with
  | some hex =>
      exact sees_pure _
  | none =>
      exact meets_bind (sees_other (by decide)) (fun _ => sees_pure _)

theorem sees_validate {P : View -> Prop} (protectOutput eraseOutput copyOutput : Text) :
    Meets Safe (Sees P) (validateFlashProgramming protectOutput eraseOutput copyOutput)
      (fun _ => Sees P) := by
  refine meets_bind (sees_when (sees_other rfl)) (fun _ => ?_)
  refine meets_ite ?_ (meets_ite (sees_raise _) (sees_pure _))
  exact meets_bind (sees_other rfl) (fun _ => sees_raise _)

theorem sees_flashCommands (args : Args) :
    Meets Safe (Sees (JustMarked .commands)) (flashCommands args)
      (fun _ => Sees (JustMarked .commands)) := by
  refine meets_bind (sees_runUbootCommand _) (fun _ => ?_)
  refine meets_bind (sees_runUbootCommand _) (fun _ => ?_)
  refine meets_bind (sees_runUbootCommand _) (fun output => ?_)
  refine meets_bind (sees_parseTftpSizeHex _ _) (fun sizeHex => ?_)
  refine meets_bind (sees_runUbootCommand _) (fun protectOutput => ?_)
  refine meets_bind (sees_runUbootCommand _) (fun eraseOutput => ?_)
  refine meets_bind (sees_runUbootCommand _) (fun copyOutput => ?_)
  exact sees_validate _ _ _

/-!
# Whole runs
-/

/-- A message that sets the phase and a mark at the end of what has come in. -/
theorem sees_phase {P : View -> Prop} {text : Text} (phase : Phase)
    (hphase : forall v : View, JustMarked phase (v.message (kindOf .log text))) :
    Meets Safe (Sees P) (log text) (fun _ => Sees (JustMarked phase)) :=
  sees_note (fun _ => rfl) (fun h => by cases h) (fun v _ => hphase v)

theorem sees_waitForResetMarker :
    Meets Safe Safe waitForResetMarker (fun _ => Sees (Marked .loading none)) := by
  refine meets_bind (sees_look _) (fun line => ?_)
  refine meets_bind (sees_note (Q := fun _ => True) (fun _ => rfl) (fun h => by cases h)
    (fun _ _ => trivial)) (fun _ => ?_)
  refine meets_bind (sees_look _) (fun start => ?_)
  refine sees_forever ?_
  refine meets_bind (sees_keeps (fun _ h => h)) (fun position => ?_)
  cases position with
  | some position =>
      refine meets_bind (sees_note (Q := Marked .loading none) (fun _ => rfl)
        (fun h => by cases h) ?_) (fun _ => meets_pure safe_of_sees (fun _ hw => hw))
      exact fun v _ => ⟨rfl, rfl⟩
  | none =>
      refine meets_bind sees_late (fun expired => ?_)
      refine meets_ite (sees_raise _) ?_
      exact meets_bind (sees_readOnce (fun _ _ h => h))
        (fun _ => meets_pure safe_of_sees (fun _ hw => hw))

theorem sees_pulseReset (description : Text) :
    Meets Safe Safe (pulseReset description) (fun _ => Safe) := by
  refine meets_bind (sees_look _) (fun line => ?_)
  cases line with
  | none =>
      exact sees_pure ()
  | some _ =>
      refine meets_bind (sees_note (Q := fun _ => True) (fun _ => rfl) (fun h => by cases h)
        (fun _ _ => trivial)) (fun _ => ?_)
      exact meets_bind (sees_setResetAsserted true) (fun _ => sees_setResetAsserted false)

theorem sees_cycleStart (args : Args) (restartFrom : Option Nat) :
    Meets Safe Safe (cycleStart args restartFrom) (fun _ => Sees (Marked .loading none)) := by
  cases restartFrom with
  | none =>
      exact meets_bind (sees_when (sees_pulseReset _)) (fun _ => sees_waitForResetMarker)
  | some position =>
      refine meets_bind (sees_note (Q := Marked .loading none) (fun _ => rfl)
        (fun h => by cases h) ?_) (fun _ => meets_pure safe_of_sees (fun _ hw => hw))
      exact fun v _ => ⟨rfl, rfl⟩

theorem sees_cycle (args : Args) (restartFrom : Option Nat) :
    Meets Safe Safe (cycle args restartFrom) (fun _ => Safe) := by
  refine meets_bind (sees_cycleStart args restartFrom) (fun start => ?_)
  refine meets_bind (sees_waitForBootromLoading args start) (fun _ => ?_)
  refine meets_bind (sees_phase .sleeping ?_) (fun _ => ?_)
  · intro v
    rw [kindOf_delay]
    exact ⟨rfl, rfl⟩
  refine meets_bind sees_sleepWithResetWatch (fun _ => ?_)
  refine meets_bind (sees_sendLine (fun v hv => hv.right) _) (fun _ => ?_)
  refine meets_weaken (meets_bind (sees_waitForUBootPrompt args) (fun _ => ?_)) safe_of_sees
    (fun _ _ h => h)
  refine meets_bind (sees_phase .commands ?_) (fun _ => ?_)
  · intro v
    rw [show kindOf .log promptAcquired = .commands by decide]
    exact ⟨rfl, rfl⟩
  exact meets_weaken (sees_flashCommands args) (fun _ h => h) (fun _ => safe_of_sees)

theorem safe_main (args : Args) : Keeps Safe (main args) := by
  have hmessage : forall (level : Level) (text : Text),
      Keeps Safe (note (.message level text)) := by
    intro level text
    exact (sees_note (Q := fun _ => True) (fun _ => rfl) (fun h => by cases h)
      (fun _ _ => trivial)).ensures
  unfold main
  split
  · exact keeps_raise _
  refine keeps_bind sees_openPort.ensures (fun _ => ?_)
  refine keeps_bind (hmessage _ _) (fun _ => ?_)
  refine keeps_bind (keeps_when (hmessage _ _)) (fun _ => ?_)
  refine keeps_bind (keeps_loop (fun restartFrom => ?_) none) (fun _ => ?_)
  · refine keeps_bind (keeps_attempt (sees_cycle args restartFrom).ensures) (fun result => ?_)
    cases result with
    | ok value =>
        exact keeps_pure _
    | error position =>
        exact keeps_bind (hmessage _ _) (fun _ => keeps_pure _)
  refine keeps_bind (hmessage _ _) (fun _ => ?_)
  exact keeps_bind (hmessage _ _) (fun _ => keeps_pure _)

/-- In every run, nothing is done while a reset marker lies behind the mark in force. -/
theorem mainTrace_guarded (args : Args) (answers : Nat -> Answer) (limit : Nat) :
    Guarded (mainTrace args answers limit) := by
  have hstart : Safe (startConsole args answers limit) := by
    refine ⟨rfl, ?_, trivial⟩
    intro before event after hsplit
    exact absurd hsplit.symm (List.append_ne_nil_of_right_ne_nil _ (List.cons_ne_nil _ _))
  exact (safe_main args _ hstart).right.left

end Console
end Bab750
