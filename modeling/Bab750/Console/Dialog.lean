import Bab750.Console.Markers
import Bab750.Console.Monitor
import Mathlib.Data.List.Infix
import Mathlib.Logic.Function.Iterate

/-!
# The dialog about the revision info

`misc_init_r` prints a dialog that ends in a prompt of its own, and waits for an answer
before U-Boot goes on to its command prompt.  Both scripts answer it, set a new mark,
and ignore the next prompt.  Here both are one watcher of the text behind a mark, and
what it does depends on the places where the reads split the text.
-/

namespace Bab750
namespace Console

open Foundation
open Pattern

/-!
# What the board prints
-/

/-- The dialog of `misc_init_r` up to the text that is answered. -/
def dialogHead : Text :=
  puts (chars "Invalid revision info copy in nvram !\nPress key:")

def dialogTail : Text :=
  puts (chars ("\n  <c> to copy current revision info to nvram.\n" ++
    "  <r> to reenter revision info.\n"))

/-- The text in front of the dialog, the dialog, what follows, and the last prompt. -/
def dialogOutput (banner startup : Text) : Text :=
  banner ++ dialogHead ++ dialogTail ++ prompt ++ startup ++ prompt

def headEnd (banner : Text) : Nat := banner.length + dialogHead.length

def dialogPrompt (banner : Text) : Nat := headEnd banner + dialogTail.length

/-- A part of a text, from a place up to another one. -/
def window (text : Text) (first last : Nat) : Text := (text.take last).drop first

/--
A start-up with the dialog, for the expressions of a script.  The prompt of the dialog
is the only one in front of the last prompt, and a countdown is what `autoboot` finds
between two places.
-/
structure StartUp (autoboot autorun : Pattern) where
  banner : Text
  startup : Text
  countdown : Option (Nat × Nat)
  firstKey :
    nvramPressKeyRe.found (window (dialogOutput banner startup) 0 (headEnd banner - 1)) = false
  firstPrompt :
    promptRe.found (window (dialogOutput banner startup) 0 (dialogPrompt banner + 2)) = false
  onePrompt :
    promptRe.found (window (dialogOutput banner startup) (dialogPrompt banner + 1)
      ((dialogOutput banner startup).length - 1)) = false
  noAutorun : autorun.found (dialogOutput banner startup) = false
  noReset :
    resetMarkerRe.found ((dialogOutput banner startup).drop (dialogPrompt banner)) = false
  counted : match countdown with
    | none => autoboot.found (dialogOutput banner startup) = false
    | some (first, last) =>
        dialogPrompt banner + 3 <= first ∧ first <= last ∧
          last + 3 <= (dialogOutput banner startup).length ∧
          autoboot.found (window (dialogOutput banner startup) first last) = true ∧
          autoboot.found (window (dialogOutput banner startup) 0 (last - 1)) = false ∧
          autoboot.found ((dialogOutput banner startup).drop (first + 1)) = false

section Output

variable {autoboot autorun : Pattern}

def StartUp.output (o : StartUp autoboot autorun) : Text := dialogOutput o.banner o.startup

def StartUp.promptAt (o : StartUp autoboot autorun) : Nat := o.output.length - 3

end Output

/-!
# Reads
-/

def textRead (chunks : List Text) (k : Nat) : Text := (chunks.take k).flatten

def charsRead (chunks : List Text) (k : Nat) : Nat := (textRead chunks k).length

/-- The number of reads until a number of characters has come in. -/
def readsFor : List Text -> Nat -> Nat
  | [], _ => 0
  | chunk :: rest, n => if n = 0 then 0 else readsFor rest (n - chunk.length) + 1

/-- The number of characters that have come in when the first `n` have. -/
def receivedAt (chunks : List Text) (n : Nat) : Nat := charsRead chunks (readsFor chunks n)

/--
The reads split the output in time: the dialog is answered before its prompt comes in,
which then comes in before the last prompt does; or it has come in already, and the
countdown is seen whole before the last prompt comes in.
-/
def InTime {autoboot autorun : Pattern} (o : StartUp autoboot autorun)
    (chunks : List Text) : Prop :=
  (receivedAt chunks (headEnd o.banner) <= dialogPrompt o.banner ∧
      receivedAt chunks (dialogPrompt o.banner + 3) <= o.promptAt) ∨
    (dialogPrompt o.banner < receivedAt chunks (headEnd o.banner) ∧
      exists first last, o.countdown = some (first, last) ∧
        receivedAt chunks (headEnd o.banner) <= first ∧
          receivedAt chunks last < o.output.length)

theorem charsRead_mono (chunks : List Text) {i j : Nat} (h : i <= j) :
    charsRead chunks i <= charsRead chunks j := by
  have hstart : chunks.take i <+: chunks.take j := List.take_prefix_take_left h
  rcases hstart with ⟨rest, hrest⟩
  unfold charsRead textRead
  rw [← hrest, List.flatten_append, List.length_append]
  omega

theorem charsRead_cons (chunk : Text) (rest : List Text) (k : Nat) :
    charsRead (chunk :: rest) (k + 1) = chunk.length + charsRead rest k := by
  unfold charsRead textRead
  rw [List.take_succ_cons, List.flatten_cons, List.length_append]

theorem textRead_eq (chunks : List Text) (k : Nat) :
    textRead chunks k = chunks.flatten.take (charsRead chunks k) := by
  have hsplit : chunks.flatten = textRead chunks k ++ (chunks.drop k).flatten := by
    unfold textRead
    rw [← List.flatten_append, List.take_append_drop]
  rw [hsplit]
  exact (List.take_left).symm

theorem charsRead_le (chunks : List Text) (k : Nat) :
    charsRead chunks k <= chunks.flatten.length := by
  have hlength := congrArg List.length (textRead_eq chunks k)
  rw [List.length_take] at hlength
  unfold charsRead at hlength ⊢
  omega

theorem textRead_succ (chunks : List Text) (k : Nat) :
    textRead chunks (k + 1) = textRead chunks k ++ chunks.getD k [] := by
  unfold textRead
  rw [List.take_add_one, List.flatten_append, List.getD_eq_getElem?_getD]
  cases chunks[k]? with
  | none =>
      rfl
  | some chunk =>
      simp

theorem le_charsRead_iff (chunks : List Text) {n : Nat} (h : n <= chunks.flatten.length)
    (k : Nat) : n <= charsRead chunks k <-> readsFor chunks n <= k := by
  induction chunks generalizing n k with
  | nil =>
      have hn : n = 0 := Nat.le_zero.mp h
      rw [hn]
      exact iff_of_true (Nat.zero_le _) (Nat.zero_le _)
  | cons chunk rest ih =>
      rw [List.flatten_cons, List.length_append] at h
      unfold readsFor
      split
      case isTrue hn =>
          rw [hn]
          exact iff_of_true (Nat.zero_le _) (Nat.zero_le _)
      case isFalse hn =>
          cases k with
          | zero =>
              refine iff_of_false ?_ (Nat.not_succ_le_zero _)
              show ¬ n <= 0
              omega
          | succ k =>
              have hrest := ih (n := n - chunk.length) (by omega) k
              rw [charsRead_cons]
              constructor
              · intro hread
                have := hrest.mp (by omega)
                omega
              · intro hread
                have := hrest.mpr (by omega)
                omega

theorem le_receivedAt (chunks : List Text) {n : Nat} (h : n <= chunks.flatten.length) :
    n <= receivedAt chunks n :=
  (le_charsRead_iff chunks h _).mpr (Nat.le_refl _)

theorem receivedAt_nil_cons (chunks : List Text) (n : Nat) :
    receivedAt ([] :: chunks) n = receivedAt chunks n := by
  show charsRead ([] :: chunks) (if n = 0 then 0 else readsFor chunks n + 1) =
    charsRead chunks (readsFor chunks n)
  split
  case isTrue hn =>
      rw [hn]
      cases chunks with
      | nil =>
          rfl
      | cons chunk rest =>
          rfl
  case isFalse hn =>
      rw [charsRead_cons, List.length_nil, Nat.zero_add]

theorem inTime_nil_cons {autoboot autorun : Pattern} (o : StartUp autoboot autorun)
    (chunks : List Text) : InTime o ([] :: chunks) <-> InTime o chunks := by
  unfold InTime
  simp only [receivedAt_nil_cons]

/-!
# Windows
-/

theorem window_within (text : Text) {first last outer end_ : Nat} (hfirst : outer <= first)
    (hlast : last <= end_) : window text first last <:+: window text outer end_ := by
  have hsuffix : window text first last <:+ window text outer last := by
    refine ⟨(window text outer last).take (first - outer), ?_⟩
    have hdrop : window text first last = (window text outer last).drop (first - outer) := by
      unfold window
      rw [List.drop_drop]
      congr 1
      omega
    rw [hdrop, List.take_append_drop]
  have hstart : window text outer last <+: window text outer end_ :=
    List.IsPrefix.drop (List.take_prefix_take_left hlast) outer
  exact hsuffix.isInfix.trans hstart.isInfix

theorem window_all (text : Text) (first : Nat) {last : Nat} (h : text.length <= last) :
    window text first last = text.drop first := by
  unfold window
  rw [List.take_of_length_le h]

theorem window_min (text : Text) (first last : Nat) :
    window text first (min last text.length) = window text first last := by
  unfold window
  rw [← List.take_eq_take_min]

theorem window_middle (front part back : Text) :
    window (front ++ part ++ back) front.length (front.length + part.length) = part := by
  unfold window
  rw [← List.length_append, List.take_left, List.drop_left]

theorem window_unfound {pattern : Pattern} (hlocal : Local pattern) {text : Text}
    {first last outer end_ : Nat} (hnone : pattern.found (window text outer end_) = false)
    (hfirst : outer <= first) (hlast : last <= end_) :
    pattern.found (window text first last) = false := by
  cases hfound : pattern.found (window text first last) with
  | false =>
      rfl
  | true =>
      rw [found_of_within hlocal (window_within text hfirst hlast) hfound] at hnone
      cases hnone

section Windows

variable {autoboot autorun : Pattern} (o : StartUp autoboot autorun)

theorem output_length : o.output.length = dialogPrompt o.banner + 3 + o.startup.length + 3 := by
  show (dialogOutput o.banner o.startup).length = _
  unfold dialogOutput dialogPrompt headEnd
  simp only [List.length_append]
  rfl

theorem promptAt_add : o.promptAt + 3 = o.output.length := by
  have hlength := output_length o
  unfold StartUp.promptAt
  omega

theorem head_window : window o.output o.banner.length (headEnd o.banner) = dialogHead := by
  have hsplit : o.output = o.banner ++ dialogHead ++
      (dialogTail ++ prompt ++ o.startup ++ prompt) := by
    show dialogOutput o.banner o.startup = _
    unfold dialogOutput
    simp only [List.append_assoc]
  rw [hsplit]
  exact window_middle o.banner dialogHead _

theorem dialog_window :
    window o.output (dialogPrompt o.banner) (dialogPrompt o.banner + 3) = prompt := by
  have hsplit : o.output = (o.banner ++ dialogHead ++ dialogTail) ++ prompt ++
      (o.startup ++ prompt) := by
    show dialogOutput o.banner o.startup = _
    unfold dialogOutput
    simp only [List.append_assoc]
  have hplace : dialogPrompt o.banner = (o.banner ++ dialogHead ++ dialogTail).length := by
    unfold dialogPrompt headEnd
    rw [List.length_append, List.length_append]
  rw [hsplit, hplace]
  exact window_middle _ prompt _

theorem last_window : window o.output o.promptAt o.output.length = prompt := by
  rw [window_all _ _ (Nat.le_refl _)]
  have hsplit : o.output = (o.banner ++ dialogHead ++ dialogTail ++ prompt ++ o.startup) ++
      prompt := rfl
  have hplace : o.promptAt =
      (o.banner ++ dialogHead ++ dialogTail ++ prompt ++ o.startup).length := by
    unfold StartUp.promptAt
    rw [hsplit, List.length_append]
    exact Nat.add_sub_cancel _ 3
  rw [hplace, hsplit, List.drop_left]

theorem head_seen {last : Nat} (h : headEnd o.banner <= last) :
    nvramInvalidRe.found (window o.output 0 last) = true ∧
      nvramPressKeyRe.found (window o.output 0 last) = true := by
  have hinfix := window_within o.output (Nat.zero_le o.banner.length) h
  rw [head_window] at hinfix
  exact ⟨found_of_within local_nvramInvalidRe hinfix (by decide),
    found_of_within local_nvramPressKeyRe hinfix (by decide)⟩

theorem key_unseen {last : Nat} (h : last < headEnd o.banner) :
    nvramPressKeyRe.found (window o.output 0 last) = false :=
  window_unfound local_nvramPressKeyRe o.firstKey (Nat.le_refl 0) (by omega)

theorem prompt_unseen (first : Nat) {last : Nat} (h : last < dialogPrompt o.banner + 3) :
    promptRe.found (window o.output first last) = false :=
  window_unfound local_promptRe o.firstPrompt (Nat.zero_le first) (by omega)

theorem dialog_prompt_seen {first last : Nat} (hfirst : first <= dialogPrompt o.banner)
    (hlast : dialogPrompt o.banner + 3 <= last) :
    promptRe.found (window o.output first last) = true := by
  have hinfix := window_within o.output hfirst hlast
  rw [dialog_window] at hinfix
  exact found_of_within local_promptRe hinfix (by decide)

theorem between_prompts {first last : Nat} (hfirst : dialogPrompt o.banner < first)
    (hlast : last < o.output.length) : promptRe.found (window o.output first last) = false :=
  window_unfound local_promptRe o.onePrompt hfirst (Nat.le_sub_one_of_lt hlast)

theorem last_prompt_seen {first last : Nat} (hfirst : first <= o.promptAt)
    (hlast : o.output.length <= last) :
    promptRe.found (window o.output first last) = true := by
  have hinfix := window_within o.output hfirst hlast
  rw [last_window] at hinfix
  exact found_of_within local_promptRe hinfix (by decide)

theorem last_prompt_cut {first : Nat} (hfirst : o.promptAt < first) (last : Nat) :
    promptRe.found (window o.output first last) = false := by
  have hcut : window o.output (o.promptAt + 1) o.output.length = prompt.drop 1 := by
    rw [← last_window o]
    unfold window
    rw [List.drop_drop]
  have hnone : promptRe.found (window o.output (o.promptAt + 1) o.output.length) = false := by
    rw [hcut]
    decide
  rw [← window_min]
  exact window_unfound local_promptRe hnone hfirst (Nat.min_le_right _ _)

theorem autoboot_seen_iff (hlocal : Local autoboot) (first last : Nat) :
    autoboot.found (window o.output first last) = true <->
      exists from_ till, o.countdown = some (from_, till) ∧ first <= from_ ∧ till <= last := by
  have hcounted := o.counted
  cases hcountdown : o.countdown with
  | none =>
      rw [hcountdown] at hcounted
      refine iff_of_false ?_ (by rintro ⟨_, _, h, _⟩; cases h)
      intro hfound
      have hinfix : window o.output first last <:+: dialogOutput o.banner o.startup :=
        (List.drop_suffix _ _).isInfix.trans (List.take_prefix _ _).isInfix
      rw [found_of_within hlocal hinfix hfound] at hcounted
      cases hcounted
  | some places =>
      rcases places with ⟨from_, till⟩
      rw [hcountdown] at hcounted
      rcases hcounted with ⟨_, hplaces, hlength, hseen, hbefore, hbehind⟩
      change from_ <= till at hplaces
      constructor
      · intro hfound
        refine ⟨from_, till, rfl, ?_, ?_⟩
        · by_contra hlate
          have hrest : autoboot.found (window o.output (from_ + 1) o.output.length) = false := by
            rw [window_all _ _ (Nat.le_refl _)]
            exact hbehind
          have hnone : autoboot.found (window o.output first (min last o.output.length)) =
              false := window_unfound hlocal hrest (by omega) (Nat.min_le_right _ _)
          rw [window_min, hfound] at hnone
          cases hnone
        · by_contra hearly
          have hnone : autoboot.found (window o.output first last) = false :=
            window_unfound hlocal hbefore (Nat.zero_le _) (by omega)
          rw [hfound] at hnone
          cases hnone
      · rintro ⟨_, _, hsame, hfirst, hlast⟩
        cases hsame
        exact found_of_within hlocal (window_within o.output hfirst hlast) hseen

theorem countdown_places {from_ till : Nat} (h : o.countdown = some (from_, till)) :
    dialogPrompt o.banner + 3 <= from_ ∧ from_ <= till ∧ till <= o.promptAt := by
  have hcounted := o.counted
  rw [h] at hcounted
  rcases hcounted with ⟨hfrom, htill, hlength, _⟩
  have hprompt := promptAt_add o
  change till + 3 <= o.output.length at hlength
  exact ⟨hfrom, htill, by omega⟩

theorem autoboot_unseen (hlocal : Local autoboot) {first last : Nat}
    (h : forall from_ till, o.countdown = some (from_, till) -> first <= from_ ->
      last < till) :
    autoboot.found (window o.output first last) = false := by
  by_contra hfound
  rcases (autoboot_seen_iff o hlocal _ _).mp (Bool.not_eq_false _ ▸ hfound) with
    ⟨from_, till, hcountdown, hfirst, hlast⟩
  have := h from_ till hcountdown hfirst
  omega

end Windows

/-!
# The watcher
-/

/-- What either script knows while it waits, and what has come in. -/
structure Watcher where
  reads : Nat
  start : Nat
  /-- The dialog has been answered. -/
  answered : Bool
  /-- The next prompt is to be ignored. -/
  ignore : Bool
  /-- The autoboot is being stopped. -/
  spamming : Bool
  finished : Bool
deriving DecidableEq

/-- One pass: an answer, an ignored prompt, the return, the first `<Enter>`, or a read. -/
def Watcher.next (autoboot : Pattern) (chunks : List Text) (a : Watcher) : Watcher :=
  let haystack := (textRead chunks a.reads).drop a.start
  if a.finished then a
  else if a.spamming then
    if promptRe.found haystack then { a with finished := true }
    else { a with reads := a.reads + 1 }
  else if !a.answered && (nvramInvalidRe.found haystack && nvramPressKeyRe.found haystack) then
    { a with answered := true, ignore := true, start := charsRead chunks a.reads }
  else if promptRe.found haystack then
    if a.ignore then { a with ignore := false, start := charsRead chunks a.reads }
    else { a with finished := true }
  else if autoboot.found haystack then { a with spamming := true }
  else { a with reads := a.reads + 1 }

def Watcher.after (autoboot : Pattern) (chunks : List Text) (n : Nat) (a : Watcher) :
    Watcher :=
  (Watcher.next autoboot chunks)^[n] a

/-- The first state; what had come in before is the first chunk. -/
def Watcher.initial : Watcher where
  reads := 1
  start := 0
  answered := false
  ignore := false
  spamming := false
  finished := false

def Watcher.Finishes (autoboot : Pattern) (chunks : List Text) (a : Watcher) : Prop :=
  exists n, (a.after autoboot chunks n).finished = true

theorem after_succ (autoboot : Pattern) (chunks : List Text) (n : Nat) (a : Watcher) :
    a.after autoboot chunks (n + 1) = (a.next autoboot chunks).after autoboot chunks n :=
  Function.iterate_succ_apply _ _ _

theorem after_add (autoboot : Pattern) (chunks : List Text) (m n : Nat) (a : Watcher) :
    a.after autoboot chunks (m + n) =
      (a.after autoboot chunks n).after autoboot chunks m :=
  Function.iterate_add_apply _ _ _ _

theorem next_finished {autoboot : Pattern} {chunks : List Text} {a : Watcher}
    (h : a.finished = true) : a.next autoboot chunks = a := by
  unfold Watcher.next
  rw [if_pos h]

theorem after_finished {autoboot : Pattern} {chunks : List Text} {a : Watcher}
    (h : a.finished = true) (n : Nat) : a.after autoboot chunks n = a := by
  induction n with
  | zero =>
      rfl
  | succ n ih =>
      rw [after_succ, next_finished h, ih]

theorem finishes_next {autoboot : Pattern} {chunks : List Text} {a : Watcher} :
    a.Finishes autoboot chunks <-> (a.next autoboot chunks).Finishes autoboot chunks := by
  constructor
  · rintro ⟨n, hn⟩
    refine ⟨n, ?_⟩
    rw [← after_succ, Nat.add_comm, after_add, after_finished hn]
    exact hn
  · rintro ⟨n, hn⟩
    exact ⟨n + 1, by rw [after_succ]; exact hn⟩

section Passes

variable {autoboot autorun : Pattern} (o : StartUp autoboot autorun) {chunks : List Text}
  (hchunks : chunks.flatten = o.output)

include hchunks

theorem haystack_window (k start : Nat) :
    (textRead chunks k).drop start = window o.output start (charsRead chunks k) := by
  rw [textRead_eq, hchunks]
  rfl

theorem charsRead_le_output (k : Nat) : charsRead chunks k <= o.output.length := by
  rw [← hchunks]
  exact charsRead_le chunks k

theorem next_unanswered (k : Nat) (h : charsRead chunks k < headEnd o.banner)
    (hlocal : Local autoboot) :
    Watcher.next autoboot chunks ⟨k, 0, false, false, false, false⟩ =
      ⟨k + 1, 0, false, false, false, false⟩ := by
  have hplaces : headEnd o.banner <= dialogPrompt o.banner := Nat.le_add_right _ _
  have hauto : autoboot.found (window o.output 0 (charsRead chunks k)) = false := by
    refine autoboot_unseen o hlocal ?_
    intro from_ till hcountdown _
    have hplace := countdown_places o hcountdown
    omega
  unfold Watcher.next
  dsimp only
  rw [haystack_window o hchunks, key_unseen o h, prompt_unseen o 0 (by omega), hauto]
  simp

theorem next_answers (k : Nat) (h : headEnd o.banner <= charsRead chunks k) :
    Watcher.next autoboot chunks ⟨k, 0, false, false, false, false⟩ =
      ⟨k, charsRead chunks k, true, true, false, false⟩ := by
  unfold Watcher.next
  dsimp only
  rw [haystack_window o hchunks, (head_seen o h).left, (head_seen o h).right]
  rfl

theorem next_answered (k start : Nat) (ignore : Bool) :
    Watcher.next autoboot chunks ⟨k, start, true, ignore, false, false⟩ =
      if promptRe.found (window o.output start (charsRead chunks k)) then
        if ignore then ⟨k, charsRead chunks k, true, false, false, false⟩
        else ⟨k, start, true, false, false, true⟩
      else if autoboot.found (window o.output start (charsRead chunks k)) then
        ⟨k, start, true, ignore, true, false⟩
      else ⟨k + 1, start, true, ignore, false, false⟩ := by
  unfold Watcher.next
  dsimp only
  rw [haystack_window o hchunks]
  cases ignore with
  | true =>
      rfl
  | false =>
      rfl

theorem next_spamming (k start : Nat) (ignore : Bool) :
    Watcher.next autoboot chunks ⟨k, start, true, ignore, true, false⟩ =
      if promptRe.found (window o.output start (charsRead chunks k)) then
        ⟨k, start, true, ignore, true, true⟩
      else ⟨k + 1, start, true, ignore, true, false⟩ := by
  unfold Watcher.next
  dsimp only
  rw [haystack_window o hchunks]
  rfl

theorem finishes_spamming {start : Nat} (hstart : start <= o.promptAt) (ignore : Bool)
    (left k : Nat) (hleft : readsFor chunks o.output.length <= k + left) :
    Watcher.Finishes autoboot chunks ⟨k, start, true, ignore, true, false⟩ := by
  induction left generalizing k with
  | zero =>
      have hread : o.output.length <= charsRead chunks k :=
        (le_charsRead_iff chunks (by rw [hchunks]) k).mpr hleft
      rw [finishes_next, next_spamming o hchunks, last_prompt_seen o hstart hread]
      exact ⟨0, rfl⟩
  | succ left ih =>
      rw [finishes_next, next_spamming o hchunks]
      split
      · exact ⟨0, rfl⟩
      · exact ih (k + 1) (by omega)

theorem finishes_waiting {start : Nat} (hstart : start <= o.promptAt) (left k : Nat)
    (hleft : readsFor chunks o.output.length <= k + left) :
    Watcher.Finishes autoboot chunks ⟨k, start, true, false, false, false⟩ := by
  induction left generalizing k with
  | zero =>
      have hread : o.output.length <= charsRead chunks k :=
        (le_charsRead_iff chunks (by rw [hchunks]) k).mpr hleft
      rw [finishes_next, next_answered o hchunks, last_prompt_seen o hstart hread]
      exact ⟨0, rfl⟩
  | succ left ih =>
      rw [finishes_next, next_answered o hchunks]
      split
      · exact ⟨0, rfl⟩
      · split
        · exact finishes_spamming o hchunks hstart false (left + 1) k hleft
        · exact ih (k + 1) (by omega)

variable (hlocal : Local autoboot)

include hlocal

theorem never_behind {start : Nat} (hstart : o.promptAt < start) (ignore : Bool) (n k : Nat) :
    (Watcher.after autoboot chunks n ⟨k, start, true, ignore, false, false⟩).finished =
      false := by
  have hnone : forall last, autoboot.found (window o.output start last) = false := by
    intro last
    refine autoboot_unseen o hlocal ?_
    intro from_ till hcountdown _
    have hplace := countdown_places o hcountdown
    omega
  induction n generalizing k with
  | zero =>
      rfl
  | succ n ih =>
      rw [after_succ, next_answered o hchunks, last_prompt_cut o hstart, hnone]
      exact ih (k + 1)

theorem finishes_by_countdown {start from_ till : Nat}
    (hstart : dialogPrompt o.banner < start) (hcountdown : o.countdown = some (from_, till))
    (hfrom : start <= from_) (htill : receivedAt chunks till < o.output.length)
    (left k : Nat) (hleft : readsFor chunks till <= k + left)
    (hk : charsRead chunks k < o.output.length) :
    Watcher.Finishes autoboot chunks ⟨k, start, true, true, false, false⟩ := by
  have hplace := countdown_places o hcountdown
  have hprompt := promptAt_add o
  have hreads := le_charsRead_iff chunks (n := till) (by rw [hchunks]; omega)
  have hspam : forall k, charsRead chunks k < o.output.length ->
      till <= charsRead chunks k ->
        Watcher.Finishes autoboot chunks ⟨k, start, true, true, false, false⟩ := by
    intro k hk hseen
    rw [finishes_next, next_answered o hchunks, between_prompts o hstart hk,
      (autoboot_seen_iff o hlocal _ _).mpr ⟨from_, till, hcountdown, hfrom, hseen⟩]
    exact finishes_spamming o hchunks (by omega) true
      (readsFor chunks o.output.length) k (by omega)
  induction left generalizing k with
  | zero =>
      exact hspam k hk ((hreads k).mpr hleft)
  | succ left ih =>
      by_cases hseen : till <= charsRead chunks k
      · exact hspam k hk hseen
      · have hbefore : k + 1 <= readsFor chunks till := by
          have := mt (hreads k).mpr hseen
          omega
        have hnone : autoboot.found (window o.output start (charsRead chunks k)) = false := by
          refine autoboot_unseen o hlocal ?_
          intro _ _ hsame _
          rw [hcountdown] at hsame
          cases hsame
          omega
        rw [finishes_next, next_answered o hchunks, between_prompts o hstart hk, hnone]
        exact ih (k + 1) (by omega)
          (Nat.lt_of_le_of_lt (charsRead_mono chunks hbefore) htill)

theorem never_with_ignore {start : Nat} (hstart : dialogPrompt o.banner < start)
    (hlate : forall from_ till, o.countdown = some (from_, till) -> start <= from_ ->
      o.output.length <= receivedAt chunks till) (n k : Nat) :
    (Watcher.after autoboot chunks n ⟨k, start, true, true, false, false⟩).finished =
      false := by
  have hprompt := promptAt_add o
  induction n generalizing k with
  | zero =>
      rfl
  | succ n ih =>
      rw [after_succ, next_answered o hchunks]
      split
      · -- the mark behind the ignored prompt is the end of the output
        rename_i hfound
        have hall : o.output.length <= charsRead chunks k := by
          by_contra hless
          rw [between_prompts o hstart (by omega)] at hfound
          cases hfound
        exact never_behind o hchunks hlocal (by omega) false n k
      · rename_i hfound
        have hnone : autoboot.found (window o.output start (charsRead chunks k)) = false := by
          by_cases hcut : start <= o.promptAt
          · refine autoboot_unseen o hlocal ?_
            intro from_ till hcountdown hfrom
            have hplace := countdown_places o hcountdown
            by_contra hread
            have hreads := (le_charsRead_iff chunks (n := till)
              (by rw [hchunks]; omega) k).mp (by omega)
            have hless := charsRead_mono chunks hreads
            have hend := hlate from_ till hcountdown hfrom
            unfold receivedAt at hend
            exact hfound (last_prompt_seen o hcut (by omega))
          · refine autoboot_unseen o hlocal ?_
            intro from_ till hcountdown hfrom
            have hplace := countdown_places o hcountdown
            omega
        rw [hnone]
        exact ih (k + 1)

theorem ignores_dialog {start : Nat} (hstart : start <= dialogPrompt o.banner) (left k : Nat)
    (hleft : k + left = readsFor chunks (dialogPrompt o.banner + 3)) :
    Watcher.Finishes autoboot chunks ⟨k, start, true, true, false, false⟩ <->
      Watcher.Finishes autoboot chunks ⟨readsFor chunks (dialogPrompt o.banner + 3),
        receivedAt chunks (dialogPrompt o.banner + 3), true, false, false, false⟩ := by
  have hlength := output_length o
  have hreads := le_charsRead_iff chunks (n := dialogPrompt o.banner + 3)
    (by rw [hchunks]; omega)
  induction left generalizing k with
  | zero =>
      rw [finishes_next, next_answered o hchunks,
        dialog_prompt_seen o hstart ((hreads k).mpr (by omega)), ← hleft]
      unfold receivedAt
      rw [← hleft]
      rfl
  | succ left ih =>
      have hless : charsRead chunks k < dialogPrompt o.banner + 3 := by
        have := mt (hreads k).mp (by omega)
        omega
      have hnone : autoboot.found (window o.output start (charsRead chunks k)) = false := by
        refine autoboot_unseen o hlocal ?_
        intro from_ till hcountdown _
        have hplace := countdown_places o hcountdown
        omega
      rw [finishes_next, next_answered o hchunks, prompt_unseen o start hless, hnone]
      exact ih (k + 1) (by omega)

theorem answers_dialog (left k : Nat)
    (hleft : k + left = readsFor chunks (headEnd o.banner)) :
    Watcher.Finishes autoboot chunks ⟨k, 0, false, false, false, false⟩ <->
      Watcher.Finishes autoboot chunks ⟨readsFor chunks (headEnd o.banner),
        receivedAt chunks (headEnd o.banner), true, true, false, false⟩ := by
  have hlength := output_length o
  have hplaces : headEnd o.banner <= dialogPrompt o.banner := Nat.le_add_right _ _
  have hreads := le_charsRead_iff chunks (n := headEnd o.banner) (by rw [hchunks]; omega)
  induction left generalizing k with
  | zero =>
      rw [finishes_next, next_answers o hchunks k ((hreads k).mpr (by omega)), ← hleft]
      unfold receivedAt
      rw [← hleft]
      rfl
  | succ left ih =>
      have hless : charsRead chunks k < headEnd o.banner := by
        have := mt (hreads k).mp (by omega)
        omega
      rw [finishes_next, next_unanswered o hchunks k hless hlocal]
      exact ih (k + 1) (by omega)

theorem finishes_iff :
    Watcher.initial.Finishes autoboot chunks <-> InTime o chunks := by
  have hlength := output_length o
  have hprompt := promptAt_add o
  have hplaces : headEnd o.banner <= dialogPrompt o.banner := Nat.le_add_right _ _
  have hhead : 0 < headEnd o.banner := by
    have : 0 < dialogHead.length := by decide
    unfold headEnd
    omega
  have hfirst : 1 <= readsFor chunks (headEnd o.banner) := by
    by_contra hzero
    have := (le_charsRead_iff chunks (n := headEnd o.banner) (by rw [hchunks]; omega) 0).mpr
      (by omega)
    have hnothing : charsRead chunks 0 = 0 := rfl
    omega
  have hstart : Watcher.initial.Finishes autoboot chunks <->
      Watcher.Finishes autoboot chunks ⟨readsFor chunks (headEnd o.banner),
        receivedAt chunks (headEnd o.banner), true, true, false, false⟩ :=
    answers_dialog o hchunks hlocal (readsFor chunks (headEnd o.banner) - 1) 1 (by omega)
  rw [hstart]
  unfold InTime
  by_cases hanswer : receivedAt chunks (headEnd o.banner) <= dialogPrompt o.banner
  · have horder : readsFor chunks (headEnd o.banner) <=
        readsFor chunks (dialogPrompt o.banner + 3) := by
      refine (le_charsRead_iff chunks (by rw [hchunks]; omega) _).mp ?_
      have := le_receivedAt chunks (n := dialogPrompt o.banner + 3) (by rw [hchunks]; omega)
      unfold receivedAt at this
      omega
    rw [ignores_dialog o hchunks hlocal hanswer _ _ (Nat.add_sub_of_le horder)]
    constructor
    · intro hfinishes
      refine Or.inl ⟨hanswer, ?_⟩
      by_contra hlate
      rcases hfinishes with ⟨n, hn⟩
      rw [never_behind o hchunks hlocal (by omega)] at hn
      cases hn
    · rintro (⟨_, htime⟩ | ⟨hlate, _⟩)
      · exact finishes_waiting o hchunks htime (readsFor chunks o.output.length) _ (by omega)
      · omega
  · constructor
    · intro hfinishes
      refine Or.inr ⟨by omega, ?_⟩
      by_contra hnone
      rcases hfinishes with ⟨n, hn⟩
      rw [never_with_ignore o hchunks hlocal (by omega)] at hn
      · cases hn
      · intro from_ till hcountdown hfrom
        by_contra htill
        exact hnone ⟨from_, till, hcountdown, hfrom, by omega⟩
    · rintro (⟨htime, _⟩ | ⟨_, from_, till, hcountdown, hfrom, htill⟩)
      · omega
      · have hplace := countdown_places o hcountdown
        refine finishes_by_countdown o hchunks hlocal (by omega) hcountdown hfrom htill
          (readsFor chunks till) _ (by omega) ?_
        show receivedAt chunks (headEnd o.banner) < _
        omega

end Passes

/-!
# What holds while the watcher waits
-/

/-- Nothing is taken for the command prompt before it has come in behind the dialog. -/
structure Watcher.Sound {autoboot autorun : Pattern} (o : StartUp autoboot autorun)
    (chunks : List Text) (a : Watcher) : Prop where
  unanswered : a.answered = false ->
    a.start = 0 ∧ a.ignore = false ∧ a.spamming = false ∧ a.finished = false
  behind : a.answered = true -> dialogPrompt o.banner < a.start ∨
    (a.ignore = true ∧ a.spamming = false ∧ a.finished = false)
  whole : a.finished = true -> charsRead chunks a.reads = o.output.length

section Soundness

variable {autoboot autorun : Pattern} (o : StartUp autoboot autorun) {chunks : List Text}

theorem sound_initial : Watcher.initial.Sound o chunks where
  unanswered := fun _ => ⟨rfl, rfl, rfl, rfl⟩
  behind := fun h => by cases h
  whole := fun h => by cases h

variable (hchunks : chunks.flatten = o.output) (hlocal : Local autoboot)

include hchunks in
theorem whole_of_prompt {start k : Nat} (hstart : dialogPrompt o.banner < start)
    (h : promptRe.found (window o.output start (charsRead chunks k)) = true) :
    charsRead chunks k = o.output.length := by
  have hle := charsRead_le_output o hchunks k
  by_contra hless
  rw [between_prompts o hstart (by omega)] at h
  cases h

include hlocal in
/-- A countdown is seen behind the dialog only, and when the prompt of the dialog is. -/
theorem behind_of_countdown {start k : Nat}
    (hprompt : promptRe.found (window o.output start (charsRead chunks k)) = false)
    (h : autoboot.found (window o.output start (charsRead chunks k)) = true) :
    dialogPrompt o.banner < start ∧ dialogPrompt o.banner <= charsRead chunks k := by
  rcases (autoboot_seen_iff o hlocal _ _).mp h with ⟨from_, till, hcountdown, _, htill⟩
  have hplace := countdown_places o hcountdown
  refine ⟨?_, by omega⟩
  by_contra hearly
  rw [dialog_prompt_seen o (by omega) (by omega)] at hprompt
  cases hprompt

include hchunks hlocal

theorem sound_next {a : Watcher} (ha : a.Sound o chunks) :
    (a.next autoboot chunks).Sound o chunks := by
  rcases a with ⟨k, start, answered, ignore, spamming, finished⟩
  cases answered with
  | false =>
      obtain ⟨rfl, rfl, rfl, rfl⟩ := ha.unanswered rfl
      by_cases hhead : headEnd o.banner <= charsRead chunks k
      · rw [next_answers o hchunks k hhead]
        exact ⟨fun h => (by cases h), fun _ => Or.inr ⟨rfl, rfl, rfl⟩, fun h => (by cases h)⟩
      · rw [next_unanswered o hchunks k (by omega) hlocal]
        exact ⟨fun _ => ⟨rfl, rfl, rfl, rfl⟩, fun h => (by cases h), fun h => (by cases h)⟩
  | true =>
      have hbehind := ha.behind rfl
      cases finished with
      | true =>
          rw [next_finished rfl]
          exact ha
      | false =>
          cases spamming with
          | true =>
              have hstart : dialogPrompt o.banner < start := by
                rcases hbehind with h | ⟨_, h, _⟩
                · exact h
                · cases h
              rw [next_spamming o hchunks]
              split
              · rename_i hfound
                exact ⟨fun h => (by cases h), fun _ => Or.inl hstart,
                  fun _ => whole_of_prompt o hchunks hstart hfound⟩
              · exact ⟨fun h => (by cases h), fun _ => Or.inl hstart, fun h => (by cases h)⟩
          | false =>
              rw [next_answered o hchunks]
              split
              · rename_i hfound
                cases ignore with
                | true =>
                    have hread : dialogPrompt o.banner + 3 <= charsRead chunks k := by
                      by_contra hless
                      rw [prompt_unseen o start (by omega)] at hfound
                      cases hfound
                    refine ⟨fun h => (by cases h), fun _ => Or.inl ?_, fun h => (by cases h)⟩
                    show _ < charsRead chunks k
                    omega
                | false =>
                    have hstart : dialogPrompt o.banner < start := by
                      rcases hbehind with h | ⟨h, _⟩
                      · exact h
                      · cases h
                    exact ⟨fun h => (by cases h), fun _ => Or.inl hstart,
                      fun _ => whole_of_prompt o hchunks hstart hfound⟩
              · split
                · rename_i hprompt hauto
                  have hstart := behind_of_countdown o hlocal
                    (Bool.not_eq_true _ ▸ hprompt) hauto
                  exact ⟨fun h => (by cases h), fun _ => Or.inl hstart.left,
                    fun h => (by cases h)⟩
                · exact ⟨fun h => (by cases h), fun _ => hbehind, fun h => (by cases h)⟩

theorem sound_after {a : Watcher} (ha : a.Sound o chunks) (n : Nat) :
    (a.after autoboot chunks n).Sound o chunks := by
  induction n generalizing a with
  | zero =>
      exact ha
  | succ n ih =>
      rw [after_succ]
      exact ih (sound_next o hchunks hlocal ha)

end Soundness

end Console
end Bab750
