import Bab750.Command.Run

/-!
# Quoted text on a command line

A line that ends with a text in single quotes.  Separators, escapes, and macros have no
meaning between the quotes; the quotes are taken away, and what was between them is split
into words like the rest of the line.
-/

namespace Bab750
namespace Command

open Foundation
open Console (cbSize)

structure Quotable (body : List Byte) : Prop where
  noQuote : singleQuote ∉ body
  noEscape : body.getLast? ≠ some backslash

theorem getLastD_ne {text : List Byte} {c prev : Byte} (hlast : text.getLast? ≠ some c)
    (hprev : prev ≠ c) : text.getLastD prev ≠ c := by
  rw [List.getLastD_eq_getLast?]
  cases hcase : text.getLast? with
  | none =>
      exact hprev
  | some d =>
      rintro rfl
      exact hlast hcase

def quoted (body : List Byte) : List Byte := singleQuote :: body ++ [singleQuote]

/-!
# Separators
-/

theorem splitCommand_inside (body : List Byte) (hbody : singleQuote ∉ body) (prev : Byte)
    (hlast : body.getLastD prev ≠ backslash) :
    splitCommand true prev false (body ++ [singleQuote]) =
      (body ++ [singleQuote], none) := by
  induction body generalizing prev with
  | nil =>
      have hprev : (prev != backslash) = true := bne_iff_ne.mpr hlast
      show splitCommand true prev false [singleQuote] = _
      unfold splitCommand
      simp only [hprev, beq_self_eq_true, Bool.and_self, if_true, Bool.and_false,
        show (singleQuote == semicolon) = false from rfl, Bool.false_and,
        Bool.false_eq_true, if_false]
      rfl
  | cons c body ih =>
      have hc : (c == singleQuote) = false := by
        refine beq_eq_false_iff_ne.mpr ?_
        rintro rfl
        exact hbody List.mem_cons_self
      rw [List.getLastD_cons] at hlast
      rw [List.cons_append]
      unfold splitCommand
      simp only [hc, Bool.false_and, Bool.false_eq_true, if_false, Bool.not_true]
      rw [ih (fun h => hbody (List.mem_cons_of_mem c h)) c hlast]

theorem splitCommand_quoted (front : List Byte)
    (hfront : forall c, c ∈ front -> isOrdinary c = true) {body : List Byte}
    (hbody : Quotable body) (prev : Byte) (atStart : Bool)
    (hprev : front.getLastD prev ≠ backslash) :
    splitCommand false prev atStart (front ++ quoted body) =
      (front ++ quoted body, none) := by
  induction front generalizing prev atStart with
  | nil =>
      have hopen : (prev != backslash) = true := bne_iff_ne.mpr hprev
      have hlast := getLastD_ne hbody.noEscape (show singleQuote ≠ backslash by decide)
      show splitCommand false prev atStart (singleQuote :: (body ++ [singleQuote])) = _
      unfold splitCommand
      simp only [hopen, beq_self_eq_true, Bool.and_self, if_true, Bool.not_false,
        Bool.not_true, Bool.false_and, Bool.false_eq_true, if_false]
      rw [splitCommand_inside body hbody.noQuote singleQuote hlast]
      rfl
  | cons c front ih =>
      have hc := hfront c List.mem_cons_self
      unfold isOrdinary at hc
      simp only [Bool.and_eq_true, bne_iff_ne, ne_eq] at hc
      have hquote : (c == singleQuote) = false := beq_eq_false_iff_ne.mpr hc.left.left.right
      have hsep : (c == semicolon) = false := beq_eq_false_iff_ne.mpr hc.left.right
      rw [List.getLastD_cons] at hprev
      rw [List.cons_append]
      unfold splitCommand
      simp only [hquote, hsep, Bool.false_and, Bool.and_false, Bool.false_eq_true, if_false]
      rw [ih (fun d hd => hfront d (List.mem_cons_of_mem c hd)) c false hprev]

/-!
# Macros
-/

theorem macroLoop_inside (getenv : List Byte -> Option (List Byte)) (body : List Byte)
    (hbody : singleQuote ∉ body) (prev : Byte) (out input : List Byte)
    (hroom : out.length + body.length <= cbSize) :
    macroLoop getenv ⟨.quote, prev, out⟩ (body ++ input) =
      macroLoop getenv ⟨.quote, body.getLastD prev, out ++ body⟩ input := by
  induction body generalizing prev out with
  | nil =>
      rw [List.append_nil]
      rfl
  | cons c body ih =>
      have hc : (c == singleQuote) = false := by
        refine beq_eq_false_iff_ne.mpr ?_
        rintro rfl
        exact hbody List.mem_cons_self
      rw [List.length_cons] at hroom
      have hchar : macroChar getenv ⟨.quote, prev, out⟩ [c] c =
          ⟨.quote, c, out ++ [c]⟩ := by
        unfold macroChar
        simp only [hc, Bool.false_and, Bool.false_eq_true, if_false]
      rw [List.cons_append, macroLoop_step getenv _ c _ (show out.length < cbSize by omega)
          (fun h => h.left rfl), hchar,
        ih (fun h => hbody (List.mem_cons_of_mem c h)), List.getLastD_cons,
        List.append_assoc, List.singleton_append]
      rw [List.length_append, List.length_singleton]
      omega

theorem processMacros_quoted (getenv : List Byte -> Option (List Byte)) (front : List Byte)
    (hfront : forall c, c ∈ front -> isOrdinary c = true) {body : List Byte}
    (hbody : Quotable body) (hroom : (front ++ quoted body).length < cbSize) :
    processMacros getenv (front ++ quoted body) = front ++ body := by
  have hlength : front.length + body.length + 2 < cbSize := by
    rw [List.length_append, quoted, List.length_append, List.length_cons,
      List.length_singleton] at hroom
    omega
  have hprev : front.getLastD 0#8 ≠ backslash := by
    refine getLastD_ne ?_ (by decide)
    intro hlast
    exact absurd (hfront _ (List.mem_of_getLast? hlast)) (by decide)
  have hopen : macroChar getenv ⟨.dollar, front.getLastD 0#8, front⟩ [singleQuote]
      singleQuote = ⟨.quote, singleQuote, front⟩ := by
    have hopens : (front.getLastD 0#8 != backslash) = true := bne_iff_ne.mpr hprev
    unfold macroChar
    simp only [hopens, beq_self_eq_true, Bool.and_self, if_true]
  have hclose : (macroLoop getenv ⟨.quote, body.getLastD singleQuote, front ++ body⟩
      [singleQuote]).out = front ++ body := by
    rw [macroLoop_step getenv _ _ _ (by
      show (front ++ body).length < cbSize
      rw [List.length_append]
      omega) (fun h => h.left rfl)]
    show (macroChar getenv _ [singleQuote] singleQuote).out = _
    have hlast : (body.getLastD singleQuote != backslash) = true :=
      bne_iff_ne.mpr (getLastD_ne hbody.noEscape (by decide))
    unfold macroChar
    simp only [hlast, beq_self_eq_true, Bool.and_self, if_true]
  have hloop : (macroLoop getenv ⟨.dollar, 0#8, []⟩ (front ++ quoted body)).out =
      front ++ body := by
    rw [macroLoop_ordinary getenv front hfront 0#8 [] _ (by rw [List.length_nil]; omega),
      List.nil_append, quoted, List.cons_append,
      macroLoop_step getenv _ _ _ (show front.length < cbSize by omega)
        (fun h => absurd h.right.left (by decide)),
      hopen, macroLoop_inside getenv body hbody.noQuote singleQuote front _ (by omega)]
    exact hclose
  unfold processMacros
  simp only [hloop]
  rw [if_pos]
  rw [List.length_append]
  omega

/-!
# The command
-/

theorem joinWords_append {first second : List (List Byte)} (hfirst : first ≠ [])
    (hsecond : second ≠ []) :
    joinWords (first ++ second) = joinWords first ++ 0x20#8 :: joinWords second := by
  induction first with
  | nil =>
      exact absurd rfl hfirst
  | cons word first ih =>
      cases first with
      | nil =>
          cases second with
          | nil =>
              exact absurd rfl hsecond
          | cons other second =>
              rfl
      | cons next first =>
          have hmore := ih (List.cons_ne_nil next first)
          show word ++ 0x20#8 :: joinWords ((next :: first) ++ second) = _
          rw [hmore]
          show _ = (word ++ 0x20#8 :: joinWords (next :: first)) ++ _
          rw [List.append_assoc, List.cons_append]

theorem runCommand_quoted {S : Type} (set : CommandSet S) (s : S) (flags : Flags)
    {name : List Byte} {rest words : List (List Byte)} {entry : Entry S}
    (hplain : forall word, word ∈ name :: rest -> PlainWord word)
    (hwords : words ≠ []) (hbare : forall word, word ∈ words -> BareWord word)
    (hquotable : Quotable (joinWords words))
    (hargs : (name :: rest ++ words).length <= maxArgs)
    (hlength : (joinWords (name :: rest) ++ 0x20#8 :: quoted (joinWords words)).length <
      cbSize)
    (hentry : findCmd set.table name = some entry)
    (hmax : (name :: rest ++ words).length <= entry.maxargs)
    (hbootd : entry.isBootd = false) :
    runCommand set s (joinWords (name :: rest) ++ 0x20#8 :: quoted (joinWords words))
        flags =
      ((entry.cmd s flags (name :: rest ++ words)).output,
        (entry.cmd s flags (name :: rest ++ words)).state,
        lineCode entry (entry.cmd s flags (name :: rest ++ words))) := by
  have hfront : forall c, c ∈ joinWords (name :: rest) ++ [0x20#8] ->
      isOrdinary c = true := by
    intro c hc
    rcases List.mem_append.mp hc with hc | hc
    · exact joinWords_ordinary (name :: rest) hplain c hc
    · rw [List.mem_singleton.mp hc]
      decide
  have hline : joinWords (name :: rest) ++ 0x20#8 :: quoted (joinWords words) =
      (joinWords (name :: rest) ++ [0x20#8]) ++ quoted (joinWords words) := by
    rw [List.append_assoc, List.singleton_append]
  rw [hline] at hlength ⊢
  refine runCommand_one set s flags (by simp) hlength
    (splitCommand_quoted _ hfront hquotable _ _ ?_) ?_ hentry hmax hbootd
  · rw [List.getLastD_concat]
    decide
  · rw [processMacros_quoted _ _ hfront hquotable hlength, List.append_assoc,
      List.singleton_append, ← joinWords_append (List.cons_ne_nil _ _) hwords]
    refine parseArgs_words _ (by simp) ?_ _ hargs
    intro word hword
    rcases List.mem_append.mp hword with hword | hword
    · exact (hplain word hword).bare
    · exact hbare word hword

end Command
end Bab750
