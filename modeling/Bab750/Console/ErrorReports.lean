import Bab750.Console.ErrorLines
import Bab750.Console.LinuxBoot
import Bab750.Console.ResetWatch
import Bab750.Foundation.Endings

/-!
# Reported errors and read boundaries

`run_uboot_command` looks for lines with an error in all that the buffer has of the output, again
behind each read. What it has reported in the end is compared with the complete lines of the
output, over all runs and all the ways in which the output comes in chunks.
-/

namespace Bab750
namespace Console
namespace Linux

open Foundation
open Script

/-!
# What the buffer has of the output
-/

/-- The text behind the mark, when some chunks have come. -/
def windowAfter (buffer : Text) (chunks : List Text) : Text :=
  (chunks.foldl appendBuffer buffer).drop buffer.length

def Trimmed (buffer : Text) (chunks : List Text) : Prop :=
  bufferLimit < buffer.length + chunks.flatten.length

theorem appendBuffer_fits {buffer chunk : Text}
    (h : buffer.length + chunk.length <= bufferLimit) :
    appendBuffer buffer chunk = buffer ++ chunk := by
  unfold appendBuffer
  dsimp only
  rw [if_neg (by rw [List.length_append]; omega)]

theorem fold_suffix (chunks : List Text) (buffer : Text) :
    chunks.foldl appendBuffer buffer <:+ buffer ++ chunks.flatten ∧
      (¬ Trimmed buffer chunks ->
        chunks.foldl appendBuffer buffer = buffer ++ chunks.flatten) := by
  induction chunks generalizing buffer with
  | nil =>
      rw [List.flatten_nil, List.append_nil]
      exact ⟨List.suffix_rfl, fun _ => rfl⟩
  | cons chunk chunks ih =>
      rcases ih (appendBuffer buffer chunk) with ⟨hsuffix, hwhole⟩
      rw [List.foldl_cons, List.flatten_cons, ← List.append_assoc]
      refine ⟨hsuffix.trans (suffix_append (appendBuffer_suffix buffer chunk) _), ?_⟩
      intro hfits
      unfold Trimmed at hfits
      rw [List.flatten_cons, List.length_append] at hfits
      have happend : appendBuffer buffer chunk = buffer ++ chunk := appendBuffer_fits (by omega)
      rw [hwhole ?_, happend]
      unfold Trimmed
      rw [happend, List.length_append]
      omega

/-- The buffer has the end of the output, and all of it as long as it fits. -/
theorem window_split (buffer : Text) (chunks : List Text) : exists lost,
    chunks.flatten = lost ++ windowAfter buffer chunks ∧
      (¬ Trimmed buffer chunks -> lost = []) := by
  rcases fold_suffix chunks buffer with ⟨⟨front, hfront⟩, hwhole⟩
  refine ⟨chunks.flatten.take front.length, ?_, ?_⟩
  · have hwindow : windowAfter buffer chunks = chunks.flatten.drop front.length := by
      have hdrop := congrArg (List.drop (front.length + buffer.length)) hfront
      rw [List.drop_length_add_append, Nat.add_comm, List.drop_length_add_append] at hdrop
      exact hdrop
    rw [hwindow, List.take_append_drop]
  · intro hfits
    rw [hwhole hfits] at hfront
    have hnone : front = [] := List.append_left_eq_self.mp hfront
    rw [hnone]
    rfl

/-!
# Groups that are cut
-/

/--
A group that may not be a line of the output: it runs over the end of a line, or stands at the end
of what has been read, or at the start of what the buffer has left.
-/
def Cut (buffer : Text) (chunks : List Text) (group : Text) : Prop :=
  '\n' ∈ group ∨ group <:+ windowAfter buffer chunks ∨
    (Trimmed buffer chunks ∧ group <+: windowAfter buffer chunks)

theorem uncut_line {buffer group : Text} {chunks : List Text} (more : List Text)
    (hgroup : group ∈ serialErrorLines (windowAfter buffer chunks))
    (huncut : ¬ Cut buffer chunks group) :
    group ∈ (completeLines (chunks ++ more).flatten).filter isErrorLine := by
  unfold Cut at huncut
  rw [not_or, not_or] at huncut
  rcases huncut with ⟨hline, hend, hfront⟩
  rcases serialErrorLines_group hgroup with ⟨before, after, hplace⟩
  refine List.mem_filter.mpr ⟨?_, isErrorLine_of_found hline hplace.error⟩
  rcases window_split buffer chunks with ⟨lost, hsplit, hlost⟩
  rcases hplace.stop with rfl | ⟨rest, rfl⟩
  · refine absurd ⟨before, ?_⟩ hend
    rw [hplace.place, List.append_nil]
  · have hstart : AtLineStart (lost ++ before) := by
      rcases hplace.start with rfl | hlast
      · rw [List.append_nil, hlost ?_]
        · exact Or.inl rfl
        · intro htrimmed
          refine hfront ⟨htrimmed, '\n' :: rest, ?_⟩
          rw [hplace.place, List.nil_append]
      · refine Or.inr ?_
        rw [List.getLast?_append, hlast]
        rfl
    have hwhole : (chunks ++ more).flatten =
        (lost ++ before) ++ group ++ '\n' :: (rest ++ more.flatten) := by
      rw [List.flatten_append, hsplit, hplace.place]
      simp only [List.append_assoc, List.cons_append]
    rw [hwhole]
    exact mem_completeLines hstart hline

/-!
# What a run has reported
-/

def chunksOf (events : List Event) : List Text :=
  events.filterMap (fun
    | .received chunk => some chunk
    | _ => none)

def reportsOf (events : List Event) : List Text :=
  events.filterMap (fun
    | .message .error text => some text
    | _ => none)

/-- What can be reported when so many of the chunks have been searched. -/
def Seen (buffer : Text) (chunks : List Text) (searched : Nat) (text : Text) : Prop :=
  exists k, k <= searched ∧ text ∈ reportable (windowAfter buffer (chunks.take k))

/-- A run of `run_uboot_command` on the console `w`: the chunks so far, and what was reported. -/
structure Searched (w : SerialConsole) (chunks : List Text) (searched : Nat)
    (emitted : List Text) (u : SerialConsole) : Prop where
  trace : exists events, u.trace = w.trace ++ events ∧ chunksOf events = chunks ∧
    reportsOf events = emitted
  buffer : u.buffer = chunks.foldl appendBuffer w.buffer
  once : emitted.Nodup
  seen : forall text, text ∈ emitted <-> Seen w.buffer chunks searched text

theorem chunksOf_append (first second : List Event) :
    chunksOf (first ++ second) = chunksOf first ++ chunksOf second :=
  List.filterMap_append

theorem reportsOf_append (first second : List Event) :
    reportsOf (first ++ second) = reportsOf first ++ reportsOf second :=
  List.filterMap_append

theorem chunksOf_errorMessages (lines : List Text) : chunksOf (errorMessages lines) = [] := by
  induction lines with
  | nil =>
      rfl
  | cons line rest ih =>
      exact ih

theorem reportsOf_errorMessages (lines : List Text) :
    reportsOf (errorMessages lines) = lines := by
  induction lines with
  | nil =>
      rfl
  | cons line rest ih =>
      exact congrArg (List.cons line) ih

theorem reportLines_new (groups emitted : List Text) (w : SerialConsole) :
    exists lines, reportLines groups emitted w =
        (.ok (emitted ++ lines), withEvents w (errorMessages lines)) ∧
      (emitted.Nodup -> (emitted ++ lines).Nodup) ∧
      forall text, text ∈ lines -> exists group, group ∈ groups ∧ strip group = text ∧
        text.isEmpty = false ∧ envOverflowRe.found text = false := by
  induction groups generalizing emitted w with
  | nil =>
      refine ⟨[], ?_, ?_, fun text htext => absurd htext List.not_mem_nil⟩
      · unfold withEvents errorMessages
        rw [List.map_nil, List.append_nil, List.append_nil]
        rfl
      · rw [List.append_nil]
        exact id
  | cons group rest ih =>
      unfold reportLines
      dsimp only
      split
      case isTrue =>
          rcases ih emitted w with ⟨lines, hrun, honce, hnew⟩
          refine ⟨lines, hrun, honce, fun text htext => ?_⟩
          rcases hnew text htext with ⟨other, hother, hrest⟩
          exact ⟨other, List.mem_cons_of_mem group hother, hrest⟩
      case isFalse hfresh =>
          split
          case isTrue =>
              rcases ih emitted w with ⟨lines, hrun, honce, hnew⟩
              refine ⟨lines, hrun, honce, fun text htext => ?_⟩
              rcases hnew text htext with ⟨other, hother, hrest⟩
              exact ⟨other, List.mem_cons_of_mem group hother, hrest⟩
          case isFalse hkept =>
              rcases ih (emitted ++ [strip group])
                (withEvents w [Event.message .error (strip group)]) with
                ⟨lines, hrun, honce, hnew⟩
              rw [Bool.or_eq_true, not_or, Bool.not_eq_true, List.contains_iff_mem] at hfresh
              refine ⟨strip group :: lines, ?_, ?_, ?_⟩
              · show reportLines rest _ (withEvents w _) = _
                rw [hrun]
                unfold withEvents errorMessages
                rw [List.append_assoc, List.append_assoc, List.map_cons]
                rfl
              · intro hemitted
                rw [List.append_cons]
                exact honce (List.nodup_append.mpr ⟨hemitted, List.nodup_singleton _,
                  fun text htext other hother hsame => hfresh.2 (by
                    rw [List.mem_singleton.mp hother] at hsame
                    rw [← hsame]
                    exact htext)⟩)
              · intro text htext
                rcases List.mem_cons.mp htext with rfl | hlater
                · exact ⟨group, List.mem_cons_self, rfl, hfresh.1, Bool.not_eq_true _ ▸ hkept⟩
                · rcases hnew text hlater with ⟨other, hother, hrest⟩
                  exact ⟨other, List.mem_cons_of_mem group hother, hrest⟩

theorem reportSerialErrors_adds (haystack : Text) (emitted : List Text) (w : SerialConsole) :
    exists lines, reportSerialErrors haystack emitted w =
        (.ok (emitted ++ lines), withEvents w (errorMessages lines)) ∧
      (emitted.Nodup -> (emitted ++ lines).Nodup) ∧
      forall text, text ∈ emitted ++ lines <-> text ∈ emitted ∨ text ∈ reportable haystack := by
  rcases reportLines_new (serialErrorLines haystack) emitted w with ⟨lines, hrun, honce, hnew⟩
  rcases reportSerialErrors_eq haystack emitted w with ⟨others, hsame, hall⟩
  have hothers : others = lines := by
    have hpair := hsame.symm.trans hrun
    exact List.append_cancel_left (Outcome.ok.inj (Prod.mk.inj hpair).1)
  rw [hothers] at hall
  refine ⟨lines, hrun, honce, fun text => ⟨fun htext => ?_, fun htext => ?_⟩⟩
  · rcases List.mem_append.mp htext with hold | hlater
    · exact Or.inl hold
    · rcases hnew text hlater with ⟨group, hgroup, rfl, hblank, hoverflow⟩
      refine Or.inr (List.mem_filter.mpr ⟨List.mem_map_of_mem hgroup, ?_⟩)
      rw [hblank, hoverflow]
      rfl
  · rcases htext with hold | hreport
    · exact List.mem_append_left lines hold
    · exact hall text hreport

/-!
# One pass
-/

theorem Searched.quiet {w u v : SerialConsole} {chunks emitted : List Text} {searched : Nat}
    (h : Searched w chunks searched emitted u) (events : List Event)
    (htrace : v.trace = u.trace ++ events) (hbuffer : v.buffer = u.buffer)
    (hchunks : chunksOf events = []) (hreports : reportsOf events = []) :
    Searched w chunks searched emitted v := by
  refine ⟨?_, hbuffer.trans h.buffer, h.once, h.seen⟩
  rcases h.trace with ⟨before, hbefore, hread, hreported⟩
  refine ⟨before ++ events, ?_, ?_, ?_⟩
  · rw [htrace, hbefore, List.append_assoc]
  · rw [chunksOf_append, hchunks, List.append_nil, hread]
  · rw [reportsOf_append, hreports, List.append_nil, hreported]

theorem Searched.report {w u : SerialConsole} {chunks emitted lines : List Text} {searched : Nat}
    (h : Searched w chunks searched emitted u) (hle : searched <= chunks.length)
    (hlast : chunks.length <= searched + 1) (honce : emitted.Nodup -> (emitted ++ lines).Nodup)
    (hlines : forall text, text ∈ emitted ++ lines <->
      text ∈ emitted ∨ text ∈ reportable (windowAfter w.buffer chunks)) :
    Searched w chunks chunks.length (emitted ++ lines) (withEvents u (errorMessages lines)) := by
  refine ⟨?_, h.buffer, honce h.once, fun text => ?_⟩
  · rcases h.trace with ⟨before, hbefore, hread, hreported⟩
    refine ⟨before ++ errorMessages lines, ?_, ?_, ?_⟩
    · show u.trace ++ _ = _
      rw [hbefore, List.append_assoc]
    · rw [chunksOf_append, chunksOf_errorMessages, List.append_nil, hread]
    · rw [reportsOf_append, reportsOf_errorMessages, hreported]
  · rw [hlines, h.seen]
    constructor
    · intro hseen
      rcases hseen with ⟨k, hk, htext⟩ | hnow
      · exact ⟨k, Nat.le_trans hk hle, htext⟩
      · exact ⟨chunks.length, Nat.le_refl _, by rw [List.take_length]; exact hnow⟩
    · rintro ⟨k, hk, htext⟩
      by_cases hsearched : k <= searched
      · exact Or.inl ⟨k, hsearched, htext⟩
      · have hall : k = chunks.length := by omega
        rw [hall, List.take_length] at htext
        exact Or.inr htext

theorem Searched.read {w u v : SerialConsole} {chunks emitted : List Text}
    (h : Searched w chunks chunks.length emitted u) {chunk : Text}
    (htrace : v.trace = u.trace ++ [Event.received chunk])
    (hbuffer : v.buffer = appendBuffer u.buffer chunk) :
    Searched w (chunks ++ [chunk]) chunks.length emitted v := by
  refine ⟨?_, ?_, h.once, fun text => ?_⟩
  · rcases h.trace with ⟨before, hbefore, hread, hreported⟩
    refine ⟨before ++ [Event.received chunk], ?_, ?_, ?_⟩
    · rw [htrace, hbefore, List.append_assoc]
    · rw [chunksOf_append, hread]
      rfl
    · rw [reportsOf_append, hreported]
      exact List.append_nil _
  · rw [hbuffer, h.buffer, List.foldl_append]
    rfl
  · rw [h.seen]
    have htake : forall k, k <= chunks.length -> (chunks ++ [chunk]).take k = chunks.take k :=
      fun k hk => List.take_append_of_le_length hk
    constructor
    · rintro ⟨k, hk, htext⟩
      exact ⟨k, hk, by rw [htake k hk]; exact htext⟩
    · rintro ⟨k, hk, htext⟩
      exact ⟨k, hk, by rw [htake k hk] at htext; exact htext⟩

def AllSearched (w : SerialConsole) (emitted : List Text) (u : SerialConsole) : Prop :=
  exists chunks, Searched w chunks chunks.length emitted u ∧
    resetMarkerRe.found (windowAfter w.buffer chunks) = false

/-- At the head of a pass: there may be one chunk that has not been searched. -/
def AtHead (w : SerialConsole) (s : CommandState) (u : SerialConsole) : Prop :=
  AllSearched w s.emittedErrors u ∨
    exists chunks searched, Searched w chunks searched s.emittedErrors u ∧
      chunks.length = searched + 1

/-- The chunks that have been searched at an end; a reset is detected in front of the search. -/
def searchedAt {α : Type} (outcome : Outcome Failure α) (chunks : List Text) : Nat :=
  match outcome with
  | .raised (.resetDetected _) => chunks.length - 1
  | _ => chunks.length

def AtEnd (w : SerialConsole) (outcome : Outcome Failure Text) (u : SerialConsole) : Prop :=
  outcome = .running ∨
    exists chunks emitted, Searched w chunks (searchedAt outcome chunks) emitted u

theorem windowAfter_eq {w u : SerialConsole} {chunks emitted : List Text} {searched : Nat}
    (h : Searched w chunks searched emitted u) :
    u.buffer.drop w.buffer.length = windowAfter w.buffer chunks :=
  congrArg (List.drop w.buffer.length) h.buffer

theorem atHead_raiseIfReset (w : SerialConsole) (s : CommandState) :
    Ends (AtHead w s) (raiseIfReset (some w.buffer.length))
      (goesOn (fun _ u => exists chunks searched, Searched w chunks searched s.emittedErrors u ∧
          searched <= chunks.length ∧ chunks.length <= searched + 1 ∧
            resetMarkerRe.found (windowAfter w.buffer chunks) = false)
        (passEnds (AtHead w) (AtEnd w))) := by
  refine ends_of_eq (fun u hu => ?_)
  rw [raiseIfReset_some]
  cases hsearch : resetMarkerRe.search (u.buffer.drop w.buffer.length) with
  | none =>
      refine ⟨_, _, rfl, ?_⟩
      have hfound : resetMarkerRe.found (u.buffer.drop w.buffer.length) = false := by
        unfold Pattern.found
        rw [hsearch]
        rfl
      rcases hu with ⟨chunks, hsearched, hcalm⟩ | ⟨chunks, searched, hsearched, hlength⟩
      · exact ⟨chunks, chunks.length, hsearched, Nat.le_refl _, Nat.le_succ _, hcalm⟩
      · rw [windowAfter_eq hsearched] at hfound
        exact ⟨chunks, searched, hsearched, by omega, by omega, hfound⟩
  | some n =>
      refine ⟨_, _, rfl, ?_⟩
      rcases hu with ⟨chunks, hsearched, hcalm⟩ | ⟨chunks, searched, hsearched, hlength⟩
      · unfold Pattern.found at hcalm
        rw [← windowAfter_eq hsearched, hsearch] at hcalm
        cases hcalm
      · refine Or.inr ⟨chunks, s.emittedErrors, ?_⟩
        show Searched w chunks (chunks.length - 1) s.emittedErrors u
        rw [hlength, Nat.add_sub_cancel]
        exact hsearched

theorem AllSearched.events {w u : SerialConsole} {emitted : List Text}
    (h : AllSearched w emitted u) (events : List Event) (hchunks : chunksOf events = [])
    (hreports : reportsOf events = []) : AllSearched w emitted (withEvents u events) := by
  rcases h with ⟨chunks, hsearched, hcalm⟩
  exact ⟨chunks, hsearched.quiet events rfl rfl hchunks hreports, hcalm⟩

theorem AllSearched.asked {w u : SerialConsole} {emitted : List Text}
    (h : AllSearched w emitted u) : AllSearched w emitted { u with asked := u.asked + 1 } := by
  rcases h with ⟨chunks, hsearched, hcalm⟩
  exact ⟨chunks, hsearched.quiet [] (List.append_nil _).symm rfl rfl rfl, hcalm⟩

theorem AllSearched.atEnd {w u : SerialConsole} {emitted : List Text}
    (h : AllSearched w emitted u) (outcome : Outcome Failure Text)
    (houtcome : forall chunks : List Text, searchedAt outcome chunks = chunks.length) :
    AtEnd w outcome u := by
  rcases h with ⟨chunks, hsearched, _⟩
  refine Or.inr ⟨chunks, emitted, ?_⟩
  rw [houtcome]
  exact hsearched

theorem allSearched_idlePass (args : Args) (command haystack : Text) (w : SerialConsole)
    (s : CommandState) : Ends (AllSearched w s.emittedErrors) (idlePass args command haystack s)
      (passEnds (AtHead w) (AtEnd w)) := by
  refine ends_of_eq (fun u hu => ?_)
  unfold idlePass
  split
  case isTrue =>
      exact ⟨_, _, rfl, Or.inl ((hu.events [Event.message .log nudgeLog] rfl rfl).events
        [Event.sent ['\r']] rfl rfl)⟩
  case isFalse =>
      split
      case isTrue =>
          refine ⟨_, _, rfl, ?_⟩
          exact ((hu.events [Event.message .warn acceptWarning] rfl rfl).events
            [Event.returned command haystack] rfl rfl).atEnd (.ok haystack) (fun _ => rfl)
      case isFalse =>
          refine ⟨_, _, rfl, ?_⟩
          exact hu.atEnd (.raised (.timeoutError _)) (fun _ => rfl)

theorem readOnce_nothing {w : SerialConsole} (h : (w.answers w.asked).chunk = []) :
    readOnce w = (.ok [], { w with asked := w.asked + 1 }) := by
  show (if (w.answers w.asked).chunk.isEmpty then (pure [] : Serial Text) else _) _ = _
  rw [h]
  rfl

theorem readOnce_something {w : SerialConsole} (h : (w.answers w.asked).chunk ≠ []) :
    exists u, readOnce w = (.ok (w.answers w.asked).chunk, u) ∧
      u.buffer = appendBuffer w.buffer (w.answers w.asked).chunk ∧
      u.trace = w.trace ++ [Event.received (w.answers w.asked).chunk] := by
  rcases readOnce_cases w with ⟨u, hrun, ⟨hnone, _⟩ | hsome⟩
  · exact absurd hnone h
  · exact ⟨u, hrun, hsome⟩

theorem allSearched_commandPassRead (args : Args) (command haystack : Text) (w : SerialConsole)
    (s : CommandState) :
    Ends (AllSearched w s.emittedErrors) (commandPassRead args command haystack s)
      (passEnds (AtHead w) (AtEnd w)) := by
  unfold commandPassRead
  refine ends_bind (fun _ => AllSearched w s.emittedErrors) (ends_of_eq (fun u hu =>
    ⟨_, _, rfl, hu.asked⟩)) (fun expired => ?_)
  split
  case isTrue =>
      exact ends_of_eq (fun u hu =>
        ⟨_, _, rfl, hu.atEnd (.raised (.timeoutError _)) (fun _ => rfl)⟩)
  case isFalse =>
      refine ends_bind (fun chunk u => (chunk = [] ∧ AllSearched w s.emittedErrors u) ∨
        (chunk ≠ [] ∧ AtHead w s u)) (ends_of_eq (fun u hu => ?_)) (fun chunk => ?_)
      · by_cases hnone : (u.answers u.asked).chunk = []
        · exact ⟨_, _, readOnce_nothing hnone, Or.inl
            ⟨rfl, hu.asked⟩⟩
        · rcases readOnce_something hnone with ⟨v, hrun, hbuffer, htrace⟩
          rcases hu with ⟨chunks, hsearched, hcalm⟩
          refine ⟨_, _, hrun, Or.inr ⟨hnone, Or.inr ⟨_, _, hsearched.read htrace hbuffer, ?_⟩⟩⟩
          rw [List.length_append]
          rfl
      · refine ends_bind (fun idle u => AtHead w s u ∧
          (idle = true -> AllSearched w s.emittedErrors u)) (ends_of_eq (fun u hu => ?_))
          (fun idle => ?_)
        · unfold idleFor
          split
          case isTrue hidle =>
              rw [Bool.and_eq_true, List.isEmpty_iff] at hidle
              rcases hu with ⟨_, hsearched⟩ | ⟨hchunk, _⟩
              · exact ⟨_, _, rfl, Or.inl hsearched.asked, fun _ => hsearched.asked⟩
              · exact absurd hidle.1 hchunk
          case isFalse =>
              refine ⟨_, _, rfl, ?_, fun hidle => by cases hidle⟩
              rcases hu with ⟨_, hsearched⟩ | ⟨_, hhead⟩
              · exact Or.inl hsearched
              · exact hhead
        · split
          case isTrue hidle =>
              exact ends_of_eq (fun u hu => ⟨_, _, rfl,
                allSearched_idlePass args command haystack w s u (hu.2 hidle)⟩)
          case isFalse =>
              exact ends_of_eq (fun u hu => ⟨_, _, rfl, hu.1⟩)

theorem atHead_commandPass (args : Args) (command : Text) (w : SerialConsole)
    (s : CommandState) :
    Ends (AtHead w s) (commandPass args command w.buffer.length w.buffer.length s)
      (passEnds (AtHead w) (AtEnd w)) := by
  unfold commandPass
  refine ends_bind _ (atHead_raiseIfReset w s) (fun _ => ?_)
  refine ends_bind (fun haystack u => haystack = u.buffer.drop w.buffer.length ∧
    exists chunks searched, Searched w chunks searched s.emittedErrors u ∧
      searched <= chunks.length ∧ chunks.length <= searched + 1 ∧
        resetMarkerRe.found (windowAfter w.buffer chunks) = false)
    (ends_of_eq (fun u hu => ⟨_, _, rfl, rfl, hu⟩)) (fun haystack => ?_)
  refine ends_bind (fun emitted u => AllSearched w emitted u)
    (ends_of_eq (fun u hu => ?_)) (fun emitted => ?_)
  · rcases hu with ⟨rfl, chunks, searched, hsearched, hle, hlast, hcalm⟩
    rcases reportSerialErrors_adds (u.buffer.drop w.buffer.length) s.emittedErrors u with
      ⟨lines, hrun, honce, hlines⟩
    rw [windowAfter_eq hsearched] at hlines
    exact ⟨_, _, hrun, chunks, hsearched.report hle hlast honce hlines, hcalm⟩
  · split
    case isTrue =>
        exact ends_of_eq (fun u hu => ⟨_, _, rfl, (hu.events
          [Event.returned command haystack] rfl rfl).atEnd (.ok haystack) (fun _ => rfl)⟩)
    case isFalse =>
        exact allSearched_commandPassRead args command haystack w { s with
          emittedErrors := emitted
          sawTftpCompletion := s.sawTftpCompletion ||
            (isTftpCommand command && tftpTransferredRe.found haystack) }

theorem allSearched_start (w : SerialConsole) : AllSearched w [] w := by
  have hwindow : windowAfter w.buffer [] = [] := List.drop_length
  refine ⟨[], ⟨⟨[], (List.append_nil _).symm, rfl, rfl⟩, rfl, List.nodup_nil, ?_⟩, ?_⟩
  · intro text
    refine iff_of_false List.not_mem_nil ?_
    rintro ⟨k, _, htext⟩
    rw [List.take_nil, hwindow] at htext
    exact absurd htext List.not_mem_nil
  · rw [hwindow]
    decide

theorem runUbootCommand_atEnd (args : Args) (command : Text) (w : SerialConsole) :
    AtEnd w (runUbootCommand args command w).1 (runUbootCommand args command w).2 := by
  have hsend : Ends (fun u => u = w) (sendLine command) (goesOn
      (fun _ => AtHead w ⟨[], false, false⟩) (AtEnd w)) := by
    refine ends_of_eq (fun u hu => ?_)
    rw [hu]
    unfold sendLine
    split
    case isTrue =>
        exact ⟨_, _, rfl, Or.inl (((allSearched_start w).events
          [Event.message .log (chars "Serial send: " ++ command)] rfl rfl).events
          [Event.sent (command ++ ['\r'])] rfl rfl)⟩
    case isFalse =>
        exact ⟨_, _, rfl, (allSearched_start w).atEnd (.raised .unicodeEncodeError)
          (fun _ => rfl)⟩
  have hrun := ends_bind _ hsend (fun _ => ends_loop (fun u => u.limit)
    (atHead_commandPass args command w) (fun _ _ _ => Or.inl rfl) ⟨[], false, false⟩)
  exact hrun w rfl

/-!
# What is reported
-/

def commandTrace (args : Args) (command : Text) (w : SerialConsole) : List Event :=
  (runUbootCommand args command w).2.trace.drop w.trace.length

def commandChunks (args : Args) (command : Text) (w : SerialConsole) : List Text :=
  chunksOf (commandTrace args command w)

def commandReports (args : Args) (command : Text) (w : SerialConsole) : List Text :=
  reportsOf (commandTrace args command w)

def commandSearched (args : Args) (command : Text) (w : SerialConsole) : Nat :=
  searchedAt (runUbootCommand args command w).1 (commandChunks args command w)

theorem commandReports_mem (args : Args) (command : Text) (w : SerialConsole)
    (hend : (runUbootCommand args command w).1 ≠ .running) :
    (commandReports args command w).Nodup ∧ forall text,
      text ∈ commandReports args command w <->
        Seen w.buffer (commandChunks args command w) (commandSearched args command w) text := by
  rcases runUbootCommand_atEnd args command w with hrunning | ⟨chunks, emitted, hsearched⟩
  · exact absurd hrunning hend
  · rcases hsearched.trace with ⟨events, htrace, hchunks, hreports⟩
    have hevents : commandTrace args command w = events := by
      unfold commandTrace
      rw [htrace, List.drop_left]
    unfold commandSearched commandReports commandChunks
    rw [hevents, hchunks, hreports]
    exact ⟨hsearched.once, hsearched.seen⟩

/-- No search reports a text that is not the text of a complete line. -/
def NothingExtra (buffer : Text) (chunks : List Text) (searched : Nat) : Prop :=
  forall k, k <= searched -> forall group,
    group ∈ serialErrorLines (windowAfter buffer (chunks.take k)) ->
    Cut buffer (chunks.take k) group -> (strip group).isEmpty = false ->
    envOverflowRe.found (strip group) = false -> strip group ∈ errorTexts chunks.flatten

/-- The search may miss the line: it is not there as a whole, or a group has it among others. -/
def Hidden (window line : Text) : Prop :=
  line ∉ completeLines window ∨ exists group, group ∈ serialErrorLines window ∧
    '\n' ∈ group ∧ line ∈ completeLines (group ++ ['\n'])

/-- A line that each search may miss has the text of what some search finds. -/
def NothingMissed (buffer : Text) (chunks : List Text) (searched : Nat) : Prop :=
  forall line, line ∈ (completeLines chunks.flatten).filter isErrorLine ->
    (strip line).isEmpty = false -> envOverflowRe.found (strip line) = false ->
    (forall k, k <= searched -> Hidden (windowAfter buffer (chunks.take k)) line) ->
    Seen buffer chunks searched (strip line)

theorem mem_errorTexts {output line : Text}
    (hline : line ∈ (completeLines output).filter isErrorLine)
    (hblank : (strip line).isEmpty = false)
    (hoverflow : envOverflowRe.found (strip line) = false) :
    strip line ∈ errorTexts output := by
  refine List.mem_filter.mpr ⟨List.mem_map_of_mem hline, ?_⟩
  rw [hblank, hoverflow]
  rfl

theorem seen_errorTexts {buffer : Text} {chunks : List Text} {searched : Nat}
    (hextra : NothingExtra buffer chunks searched) {text : Text}
    (hseen : Seen buffer chunks searched text) : text ∈ errorTexts chunks.flatten := by
  rcases hseen with ⟨k, hk, htext⟩
  rcases List.mem_filter.mp htext with ⟨hmem, hkept⟩
  rcases List.mem_map.mp hmem with ⟨group, hgroup, rfl⟩
  rw [Bool.and_eq_true, Bool.not_eq_true', Bool.not_eq_true'] at hkept
  by_cases hcut : Cut buffer (chunks.take k) group
  · exact hextra k hk group hgroup hcut hkept.1 hkept.2
  · have hline := uncut_line (chunks.drop k) hgroup hcut
    rw [List.take_append_drop] at hline
    exact mem_errorTexts hline hkept.1 hkept.2

theorem errorTexts_seen {buffer : Text} {chunks : List Text} {searched : Nat}
    (hmissed : NothingMissed buffer chunks searched) {text : Text}
    (htext : text ∈ errorTexts chunks.flatten) : Seen buffer chunks searched text := by
  rcases List.mem_filter.mp htext with ⟨hmem, hkept⟩
  rcases List.mem_map.mp hmem with ⟨line, hline, rfl⟩
  have hparts := hkept
  rw [Bool.and_eq_true, Bool.not_eq_true', Bool.not_eq_true'] at hparts
  by_cases hall : forall k, k <= searched -> Hidden (windowAfter buffer (chunks.take k)) line
  · exact hmissed line hline hparts.1 hparts.2 hall
  · rw [not_forall] at hall
    rcases hall with ⟨k, hk⟩
    rw [Classical.not_imp] at hk
    rcases hk with ⟨hle, hshown⟩
    unfold Hidden at hshown
    rw [not_or, not_not, not_exists] at hshown
    refine ⟨k, hle, List.mem_filter.mpr ⟨List.mem_map_of_mem ?_, hkept⟩⟩
    rcases serialErrorLines_line (List.mem_filter.mpr
      ⟨hshown.1, (List.mem_filter.mp hline).2⟩) with ⟨group, hgroup, hmem⟩
    have hfeed : '\n' ∉ group := fun hfeed => hshown.2 group ⟨hgroup, hfeed, hmem⟩
    rw [completeLines_line hfeed] at hmem
    rw [List.mem_singleton.mp hmem]
    exact hgroup

theorem seen_iff {buffer : Text} {chunks : List Text} {searched : Nat} :
    (forall text, Seen buffer chunks searched text <-> text ∈ errorTexts chunks.flatten) <->
      NothingExtra buffer chunks searched ∧ NothingMissed buffer chunks searched := by
  constructor
  · intro h
    refine ⟨?_, fun line hline hblank hoverflow _ =>
      (h _).mpr (mem_errorTexts hline hblank hoverflow)⟩
    intro k hk group hgroup _ hblank hoverflow
    refine (h _).mp ⟨k, hk, List.mem_filter.mpr ⟨List.mem_map_of_mem hgroup, ?_⟩⟩
    rw [hblank, hoverflow]
    rfl
  · rintro ⟨hextra, hmissed⟩ text
    exact ⟨seen_errorTexts hextra, errorTexts_seen hmissed⟩

/--
For every run of a command that has come to its end: no text is reported twice, and the texts are
those of the complete lines with an error exactly when no group that is cut has another text and
no line is missed.
-/
theorem commandReports_iff (args : Args) (command : Text) (w : SerialConsole)
    (hend : (runUbootCommand args command w).1 ≠ .running) :
    (commandReports args command w).Nodup ∧
    ((forall text, text ∈ commandReports args command w <->
        text ∈ errorTexts (commandChunks args command w).flatten) <->
      NothingExtra w.buffer (commandChunks args command w) (commandSearched args command w) ∧
      NothingMissed w.buffer (commandChunks args command w)
        (commandSearched args command w)) := by
  rcases commandReports_mem args command w hend with ⟨honce, hseen⟩
  refine ⟨honce, ?_⟩
  rw [← seen_iff]
  simp only [hseen]

theorem nothingMissed_fits {buffer : Text} {chunks : List Text} (hfits : ¬ Trimmed buffer chunks)
    (hlines : forall group, group ∈ serialErrorLines (windowAfter buffer chunks) ->
      '\n' ∉ group) : NothingMissed buffer chunks chunks.length := by
  intro line hline _ _ hall
  rcases window_split buffer chunks with ⟨lost, hsplit, hlost⟩
  rw [hlost hfits, List.nil_append] at hsplit
  have hhidden := hall chunks.length (Nat.le_refl _)
  rw [List.take_length] at hhidden
  rcases hhidden with hnone | ⟨group, hgroup, hfeed, _⟩
  · rw [← hsplit] at hnone
    exact absurd (List.mem_filter.mp hline).1 hnone
  · exact absurd hfeed (hlines group hgroup)

/-- As long as all fits and is searched, only what a read cuts counts. -/
theorem commandReports_fits (args : Args) (command : Text) (w : SerialConsole)
    (hend : (runUbootCommand args command w).1 ≠ .running)
    (hfits : ¬ Trimmed w.buffer (commandChunks args command w))
    (hall : commandSearched args command w = (commandChunks args command w).length)
    (hlines : forall group,
      group ∈ serialErrorLines (windowAfter w.buffer (commandChunks args command w)) ->
      '\n' ∉ group) :
    (forall text, text ∈ commandReports args command w <->
        text ∈ errorTexts (commandChunks args command w).flatten) <->
      NothingExtra w.buffer (commandChunks args command w) (commandSearched args command w) := by
  have hmissed := nothingMissed_fits hfits hlines
  rw [← hall] at hmissed
  refine Iff.trans ?_ (and_iff_left hmissed)
  rw [← seen_iff]
  simp only [(commandReports_mem args command w hend).2]

/-- A command that comes to its prompt after two reads; the first ends within a line. -/
def cutConsole : SerialConsole where
  buffer := []
  trace := []
  answers := fun n => ⟨if n = 1 then chars "## Error: fla"
    else if n = 3 then chars "sh is protected\n=> " else [], false⟩
  asked := 0
  limit := 3
  resetLine := none
  resetActiveState := false
  displayName := []

theorem commandReports_cut :
    (runUbootCommand bootArgs (chars "erase 1:0") cutConsole).1 =
      .ok (chars "## Error: flash is protected\n=> ") ∧
    commandReports bootArgs (chars "erase 1:0") cutConsole =
      [chars "## Error: fla", chars "## Error: flash is protected"] ∧
    errorTexts (commandChunks bootArgs (chars "erase 1:0") cutConsole).flatten =
      [chars "## Error: flash is protected"] ∧
    ¬ (forall text, text ∈ commandReports bootArgs (chars "erase 1:0") cutConsole <->
      text ∈ errorTexts (commandChunks bootArgs (chars "erase 1:0") cutConsole).flatten) := by
  have hreports : commandReports bootArgs (chars "erase 1:0") cutConsole =
      [chars "## Error: fla", chars "## Error: flash is protected"] := by
    decide +kernel
  have hexpected : errorTexts (commandChunks bootArgs (chars "erase 1:0") cutConsole).flatten =
      [chars "## Error: flash is protected"] := by
    decide +kernel
  refine ⟨by decide +kernel, hreports, hexpected, fun h => ?_⟩
  have hextra := (h (chars "## Error: fla")).mp (by rw [hreports]; exact List.mem_cons_self)
  rw [hexpected, List.mem_singleton] at hextra
  revert hextra
  decide

/-- A command that comes to its prompt after three reads; no part of a line is an error yet. -/
def wholeConsole : SerialConsole where
  buffer := []
  trace := []
  answers := fun n => ⟨if n = 1 then chars "## Err"
    else if n = 3 then chars "or: flash is protected\r\n"
    else if n = 5 then chars "=> " else [], false⟩
  asked := 0
  limit := 4
  resetLine := none
  resetActiveState := false
  displayName := []

/-- The run with the two reads breaks the condition, the one with the three reads meets it. -/
theorem commandReports_iff_runs :
    ((commandReports bootArgs (chars "erase 1:0") cutConsole).Nodup ∧
      ¬ (NothingExtra cutConsole.buffer (commandChunks bootArgs (chars "erase 1:0") cutConsole)
          (commandSearched bootArgs (chars "erase 1:0") cutConsole) ∧
        NothingMissed cutConsole.buffer (commandChunks bootArgs (chars "erase 1:0") cutConsole)
          (commandSearched bootArgs (chars "erase 1:0") cutConsole))) ∧
    (commandReports bootArgs (chars "erase 1:0") wholeConsole).Nodup ∧
    commandChunks bootArgs (chars "erase 1:0") wholeConsole =
      [chars "## Err", chars "or: flash is protected\r\n", chars "=> "] ∧
    forall text, text ∈ commandReports bootArgs (chars "erase 1:0") wholeConsole <->
      text ∈ errorTexts (commandChunks bootArgs (chars "erase 1:0") wholeConsole).flatten := by
  have hcut : (runUbootCommand bootArgs (chars "erase 1:0") cutConsole).1 ≠ .running := by
    decide +kernel
  have hwhole : (runUbootCommand bootArgs (chars "erase 1:0") wholeConsole).1 ≠ .running := by
    decide +kernel
  have hchunks : commandChunks bootArgs (chars "erase 1:0") wholeConsole =
      [chars "## Err", chars "or: flash is protected\r\n", chars "=> "] := by
    decide +kernel
  have hsearched : commandSearched bootArgs (chars "erase 1:0") wholeConsole = 3 := by
    decide +kernel
  have hextra : NothingExtra wholeConsole.buffer
      (commandChunks bootArgs (chars "erase 1:0") wholeConsole)
      (commandSearched bootArgs (chars "erase 1:0") wholeConsole) := by
    have hfound : forall k, k < 4 -> forall group, group ∈ serialErrorLines (windowAfter []
        ([chars "## Err", chars "or: flash is protected\r\n", chars "=> "].take k)) ->
          strip group ∈ errorTexts (chars "## Error: flash is protected\r\n=> ") := by
      decide +kernel
    rw [hchunks, hsearched]
    exact fun k hk group hgroup _ _ _ => hfound k (Nat.lt_succ_of_le hk) group hgroup
  have hmissed : NothingMissed wholeConsole.buffer
      (commandChunks bootArgs (chars "erase 1:0") wholeConsole)
      (commandSearched bootArgs (chars "erase 1:0") wholeConsole) := by
    rw [hchunks, hsearched]
    refine nothingMissed_fits (by unfold Trimmed; decide) ?_
    decide +kernel
  have hbroken := commandReports_iff bootArgs (chars "erase 1:0") cutConsole hcut
  have hmet := commandReports_iff bootArgs (chars "erase 1:0") wholeConsole hwhole
  refine ⟨⟨hbroken.left, fun hcondition => ?_⟩, hmet.left, hchunks,
    hmet.right.mpr ⟨hextra, hmissed⟩⟩
  have hextra := (hbroken.right.mpr hcondition (chars "## Error: fla")).mp (by decide +kernel)
  revert hextra
  decide +kernel

end Linux
end Console
end Bab750
