import Bab750.Console.LinuxMarkers

/-!
# Lines with an error

What `SERIAL_ERROR_LINE_RE` finds in a text, against the lines of the text. A group is made of
whole lines; it is more than one where an error text runs over the end of a line.
-/

namespace Bab750
namespace Console
namespace Linux

open Foundation

/-!
# Complete lines
-/

def completeLines : Text -> List Text
  | [] => []
  | c :: rest =>
      if c = '\n' then [] :: completeLines rest
      else (completeLines rest).modifyHead (fun line => c :: line)

def AtLineStart (before : Text) : Prop := before = [] ∨ before.getLast? = some '\n'

/-- `SERIAL_ERROR_LINE_RE` matches the line. -/
def isErrorLine (line : Text) : Bool := !(serialErrorLines line).isEmpty

/-- What is to be reported of an output: the stripped complete lines that match. -/
def errorTexts (output : Text) : List Text :=
  ((completeLines output).filter isErrorLine).map strip |>.filter
    (fun line => !line.isEmpty && !envOverflowRe.found line)

theorem completeLines_feed (rest : Text) :
    completeLines ('\n' :: rest) = [] :: completeLines rest :=
  if_pos rfl

theorem completeLines_cons {c : Char} (hc : c ≠ '\n') (rest : Text) :
    completeLines (c :: rest) = (completeLines rest).modifyHead (fun line => c :: line) :=
  if_neg hc

theorem completeLines_line {line : Text} (hline : '\n' ∉ line) (after : Text) :
    completeLines (line ++ '\n' :: after) = line :: completeLines after := by
  induction line with
  | nil =>
      exact completeLines_feed after
  | cons c line ih =>
      have hc : c ≠ '\n' := fun h => hline (by rw [h]; exact List.mem_cons_self)
      rw [List.cons_append, completeLines_cons hc,
        ih (fun h => hline (List.mem_cons_of_mem c h)), List.modifyHead_cons]

theorem completeLines_append (before after : Text) :
    exists line lines, completeLines (before ++ ['\n']) = line :: lines ∧
      completeLines (before ++ '\n' :: after) = line :: (lines ++ completeLines after) := by
  induction before with
  | nil =>
      exact ⟨[], [], completeLines_feed [], completeLines_feed after⟩
  | cons c before ih =>
      rcases ih with ⟨line, lines, hfront, hwhole⟩
      rw [List.cons_append, List.cons_append]
      by_cases hc : c = '\n'
      · rw [hc, completeLines_feed, completeLines_feed, hfront, hwhole]
        exact ⟨[], line :: lines, rfl, rfl⟩
      · rw [completeLines_cons hc, completeLines_cons hc, hfront, hwhole]
        exact ⟨c :: line, lines, rfl, rfl⟩

theorem completeLines_front (text after : Text) :
    completeLines text <+: completeLines (text ++ after) := by
  induction text with
  | nil =>
      exact List.nil_prefix
  | cons c text ih =>
      rcases ih with ⟨more, hmore⟩
      rw [List.cons_append]
      by_cases hc : c = '\n'
      · rw [hc, completeLines_feed, completeLines_feed, ← hmore]
        exact List.prefix_append ([] :: completeLines text) more
      · rw [completeLines_cons hc, completeLines_cons hc, ← hmore]
        cases completeLines text with
        | nil =>
            exact List.nil_prefix
        | cons first lines =>
            exact List.prefix_append ((c :: first) :: lines) more

/-- A line between the start of a line and a line feed is one of the complete lines. -/
theorem mem_completeLines {before line after : Text} (hstart : AtLineStart before)
    (hline : '\n' ∉ line) : line ∈ completeLines (before ++ line ++ '\n' :: after) := by
  have hfirst : line ∈ completeLines (line ++ '\n' :: after) := by
    rw [completeLines_line hline]
    exact List.mem_cons_self
  rcases hstart with rfl | hlast
  · rw [List.nil_append]
    exact hfirst
  · rcases List.getLast?_eq_some_iff.mp hlast with ⟨front, rfl⟩
    rcases completeLines_append front (line ++ '\n' :: after) with ⟨first, lines, _, hwhole⟩
    rw [List.append_assoc, List.append_assoc, List.singleton_append, hwhole]
    exact List.mem_cons_of_mem first (List.mem_append_right lines hfirst)

/-!
# What a search for errors finds
-/

theorem local_errorTextRe : Pattern.Local errorTextRe := by
  have hliteral : forall text, Pattern.Local (anyCase text) := fun text =>
    Pattern.local_literal _ _
  exact ⟨⟨hliteral _, trivial, hliteral _, trivial, hliteral _, trivial⟩,
    ⟨hliteral _, trivial, hliteral _, trivial⟩, hliteral _,
    hliteral _, hliteral _, hliteral _, hliteral _, hliteral _⟩

theorem errorTextEnd_some {text after : Text} (h : errorTextEnd text = some after) :
    exists before part, text = before ++ part ++ after ∧ '\n' ∉ before ∧
      Pattern.Accepts errorTextRe part := by
  induction text with
  | nil =>
      cases h
  | cons c rest ih =>
      unfold errorTextEnd at h
      split at h
      case isTrue =>
          cases h
      case isFalse hc =>
          split at h
          case h_1 behind hlater =>
              rcases ih (hlater.trans h) with ⟨before, part, hrest, hbefore, haccepts⟩
              refine ⟨c :: before, part, by rw [hrest]; rfl, ?_, haccepts⟩
              intro hmem
              rcases List.mem_cons.mp hmem with hfeed | hmem
              · exact hc hfeed.symm
              · exact hbefore hmem
          case h_2 =>
              rcases Option.map_eq_some_iff.mp h with ⟨place, hplace, rfl⟩
              rcases Pattern.accepts_of_ends local_errorTextRe (List.mem_of_mem_head? hplace)
                with ⟨part, htext, haccepts⟩
              exact ⟨[], part, htext, List.not_mem_nil, haccepts⟩

theorem errorTextEnd_none {line rest : Text} (h : errorTextEnd (line ++ rest) = none)
    (hline : '\n' ∉ line) : errorTextRe.found line = false := by
  induction line with
  | nil =>
      decide
  | cons c line ih =>
      have hc : c ≠ '\n' := fun hfeed => hline (by rw [hfeed]; exact List.mem_cons_self)
      rw [List.cons_append] at h
      unfold errorTextEnd at h
      rw [if_neg hc] at h
      split at h
      case h_1 =>
          cases h
      case h_2 hlater =>
          have hrest := ih hlater (fun hmem => hline (List.mem_cons_of_mem c hmem))
          rw [Option.map_eq_none_iff, List.head?_eq_none_iff] at h
          rw [← Bool.not_eq_true]
          intro hfound
          rcases Pattern.exists_accepts local_errorTextRe hfound with
            ⟨before, part, after, htext, haccepts⟩
          cases before with
          | nil =>
              rcases Pattern.ends_of_accepts haccepts none (after ++ rest) with ⟨last, hlast⟩
              have hwhole : c :: (line ++ rest) = part ++ (after ++ rest) := by
                rw [← List.cons_append, htext, List.nil_append, List.append_assoc]
              rw [hwhole] at h
              rw [h] at hlast
              exact List.not_mem_nil hlast
          | cons d before =>
              have hbehind : line = before ++ part ++ after := (List.cons.inj htext).2
              rw [hbehind, Pattern.found_of_accepts haccepts] at hrest
              cases hrest

/-!
# The groups
-/

/-- A group in a text: whole lines, and an error in them. -/
structure Group (text group before after : Text) : Prop where
  place : text = before ++ group ++ after
  start : AtLineStart before
  stop : after = [] ∨ exists rest, after = '\n' :: rest
  error : errorTextRe.found group = true

theorem atLineStart_behind {before : Text} (h : AtLineStart before) (front : Text) :
    AtLineStart (front ++ '\n' :: before) := by
  refine Or.inr ?_
  rcases h with rfl | hlast
  · exact List.getLast?_concat
  · rw [List.getLast?_append, List.getLast?_cons, hlast]
    rfl

theorem Group.behind {text group before after : Text} (h : Group text group before after)
    (front : Text) : Group (front ++ '\n' :: text) group (front ++ '\n' :: before) after := by
  refine ⟨?_, atLineStart_behind h.start front, h.stop, h.error⟩
  rw [h.place, List.append_assoc, List.append_assoc, List.append_assoc]
  rfl

theorem not_group_nil (group before after : Text) : ¬ Group [] group before after := by
  intro h
  rcases List.append_eq_nil_iff.mp h.place.symm with ⟨hfront, _⟩
  have herror := h.error
  rw [(List.append_eq_nil_iff.mp hfront).2] at herror
  revert herror
  decide

theorem endOfLine_split (text : Text) : exists line, text = line ++ endOfLine text ∧
    '\n' ∉ line ∧ (endOfLine text = [] ∨ exists rest, endOfLine text = '\n' :: rest) := by
  induction text with
  | nil =>
      exact ⟨[], rfl, List.not_mem_nil, Or.inl rfl⟩
  | cons c rest ih =>
      by_cases hc : c = '\n'
      · have hend : endOfLine (c :: rest) = c :: rest := by
          unfold endOfLine
          rw [hc]
          rfl
        exact ⟨[], hend.symm, List.not_mem_nil, Or.inr ⟨rest, by rw [hend, hc]⟩⟩
      · have hend : endOfLine (c :: rest) = endOfLine rest := by
          unfold endOfLine
          rw [List.dropWhile_cons_of_pos (by rw [bne_iff_ne]; exact hc)]
        rcases ih with ⟨line, hrest, hline, hstop⟩
        rw [hend]
        refine ⟨c :: line, by rw [List.cons_append, ← hrest], ?_, hstop⟩
        intro hmem
        rcases List.mem_cons.mp hmem with hfeed | hmem
        · exact hc hfeed.symm
        · exact hline hmem

/-- The group that is found from the start of a line on, and what is behind it. -/
theorem group_split {text behind : Text} (h : errorTextEnd text = some behind) :
    exists group, text.take (text.length - (endOfLine behind).length) = group ∧
      text = group ++ endOfLine behind ∧ errorTextRe.found group = true ∧
      (endOfLine behind = [] ∨ exists rest, endOfLine behind = '\n' :: rest) := by
  rcases errorTextEnd_some h with ⟨before, part, htext, _, haccepts⟩
  rcases endOfLine_split behind with ⟨line, hsplit, _, hstop⟩
  have hwhole : text = (before ++ part ++ line) ++ endOfLine behind := by
    rw [List.append_assoc, ← hsplit]
    exact htext
  refine ⟨before ++ part ++ line, ?_, hwhole, Pattern.found_of_accepts haccepts before line,
    hstop⟩
  have hlength : text.length =
      (before ++ part ++ line).length + (endOfLine behind).length :=
    (congrArg List.length hwhole).trans List.length_append
  rw [hlength, Nat.add_sub_cancel, hwhole]
  exact List.take_left

theorem serialErrorLinesFrom_group {fuel : Nat} : forall {text group : Text},
    group ∈ serialErrorLinesFrom fuel text -> exists before after,
      Group text group before after := by
  induction fuel with
  | zero =>
      intro text group h
      exact absurd h List.not_mem_nil
  | succ fuel ih =>
      intro text group h
      unfold serialErrorLinesFrom at h
      split at h
      case h_1 behind hbehind =>
          rcases group_split hbehind with ⟨first, htake, hwhole, hfound, hstop⟩
          rw [htake] at h
          rcases List.mem_cons.mp h with rfl | hlater
          · exact ⟨[], endOfLine behind, hwhole, Or.inl rfl, hstop, hfound⟩
          · rcases ih hlater with ⟨front, after, hgroup⟩
            rcases hstop with hnone | ⟨rest, hrest⟩
            · rw [hnone] at hgroup
              exact absurd hgroup (not_group_nil group front after)
            · rw [hrest] at hgroup hwhole
              rw [hwhole]
              exact ⟨_, after, hgroup.behind first⟩
      case h_2 =>
          rcases endOfLine_split text with ⟨line, hsplit, _, hstop⟩
          split at h
          case h_1 => exact absurd h List.not_mem_nil
          case h_2 c next hnext =>
              rcases ih h with ⟨front, after, hgroup⟩
              rw [hnext] at hsplit hstop
              rcases hstop with hnone | ⟨rest, hrest⟩
              · cases hnone
              · rw [hsplit, (List.cons.inj hrest).1]
                exact ⟨_, after, hgroup.behind line⟩

theorem serialErrorLines_group {text group : Text} (h : group ∈ serialErrorLines text) :
    exists before after, Group text group before after :=
  serialErrorLinesFrom_group h

theorem isErrorLine_of_found {line : Text} (hline : '\n' ∉ line)
    (h : errorTextRe.found line = true) : isErrorLine line = true := by
  cases hend : errorTextEnd line with
  | none =>
      rw [← List.append_nil line] at hend
      rw [errorTextEnd_none hend hline] at h
      cases h
  | some behind =>
      unfold isErrorLine serialErrorLines serialErrorLinesFrom
      rw [hend]
      rfl

theorem found_of_isErrorLine {line : Text} (h : isErrorLine line = true) :
    errorTextRe.found line = true := by
  cases hgroups : serialErrorLines line with
  | nil =>
      unfold isErrorLine at h
      rw [hgroups] at h
      cases h
  | cons group rest =>
      have hgroup : group ∈ serialErrorLines line := by
        rw [hgroups]
        exact List.mem_cons_self
      rcases serialErrorLines_group hgroup with ⟨before, after, hplace⟩
      exact Pattern.found_of_within local_errorTextRe ⟨before, after, hplace.place.symm⟩
        hplace.error

theorem completeLines_nil {text : Text} (h : '\n' ∉ text) : completeLines text = [] := by
  induction text with
  | nil =>
      rfl
  | cons c rest ih =>
      have hc : c ≠ '\n' := fun hfeed => h (by rw [hfeed]; exact List.mem_cons_self)
      rw [completeLines_cons hc, ih (fun hmem => h (List.mem_cons_of_mem c hmem))]
      rfl

theorem serialErrorLinesFrom_line {fuel : Nat} : forall {text line : Text}, text.length < fuel ->
    line ∈ completeLines text -> errorTextRe.found line = true ->
    exists group, group ∈ serialErrorLinesFrom fuel text ∧
      line ∈ completeLines (group ++ ['\n']) := by
  induction fuel with
  | zero =>
      intro text line hfuel
      exact absurd hfuel (Nat.not_lt_zero _)
  | succ fuel ih =>
      intro text line hfuel hline hfound
      unfold serialErrorLinesFrom
      split
      case h_1 behind hbehind =>
          rcases group_split hbehind with ⟨group, htake, hwhole, _, hstop⟩
          rw [htake]
          rcases hstop with hnone | ⟨more, hmore⟩
          · rw [hnone, List.append_nil] at hwhole
            refine ⟨group, List.mem_cons_self, ?_⟩
            rw [hwhole] at hline
            exact (completeLines_front group ['\n']).subset hline
          · rw [hmore] at hwhole ⊢
            have hshorter : more.length < fuel := by
              rw [hwhole, List.length_append, List.length_cons] at hfuel
              omega
            rcases completeLines_append group more with ⟨first, lines, hfront, hboth⟩
            rw [hwhole, hboth, ← List.cons_append, ← hfront] at hline
            rcases List.mem_append.mp hline with hinside | hlater
            · exact ⟨group, List.mem_cons_self, hinside⟩
            · rcases ih hshorter hlater hfound with ⟨other, hother, hmem⟩
              exact ⟨other, List.mem_cons_of_mem group hother, hmem⟩
      case h_2 hnone =>
          rcases endOfLine_split text with ⟨first, hsplit, hfirst, hlast | ⟨rest, hrest⟩⟩
          · rw [hsplit, hlast, List.append_nil, completeLines_nil hfirst] at hline
            exact absurd hline List.not_mem_nil
          · rw [hrest] at hsplit ⊢
            have hshorter : rest.length < fuel := by
              rw [hsplit, List.length_append, List.length_cons] at hfuel
              omega
            rw [hsplit, completeLines_line hfirst] at hline
            rcases List.mem_cons.mp hline with rfl | hlater
            · rw [hsplit] at hnone
              rw [errorTextEnd_none hnone hfirst] at hfound
              cases hfound
            · exact ih hshorter hlater hfound

theorem serialErrorLines_line {text line : Text}
    (hline : line ∈ (completeLines text).filter isErrorLine) :
    exists group, group ∈ serialErrorLines text ∧ line ∈ completeLines (group ++ ['\n']) := by
  rcases List.mem_filter.mp hline with ⟨hmem, herror⟩
  exact serialErrorLinesFrom_line (Nat.lt_succ_self _) hmem (found_of_isErrorLine herror)

end Linux
end Console
end Bab750
