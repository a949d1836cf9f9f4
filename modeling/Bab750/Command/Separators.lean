import Bab750.Command.Expansion
import Mathlib.Data.List.Induction

/-!
# Separators and quotes

`run_command` looks for a separator before `process_macros` has seen the text, and follows
quotes and escapes with rules of its own.  Where both agree on the text in front of a semicolon.
-/

namespace Bab750
namespace Command

open Foundation
open Console (cbSize)

/-!
# The loop of `process_macros`, one character after the other
-/

/-- The loop of `process_macros`, and whether it is about to read the character of an escape. -/
structure MacroScan where
  loop : MacroLoop
  escape : Bool
deriving DecidableEq

section Scan

variable (getenv : List Byte -> Option (List Byte))

def scanChar (s : MacroScan) (c : Byte) : MacroScan :=
  if s.escape then ⟨macroChar getenv { s.loop with prev := backslash } [backslash, c] c, false⟩
  else if s.loop.state ≠ .quote ∧ c = backslash ∧ s.loop.prev ≠ backslash then ⟨s.loop, true⟩
  else ⟨macroChar getenv s.loop [c] c, false⟩

theorem macroChar_out_le (m : MacroLoop) (raw : List Byte) (c : Byte) :
    m.out.length <= (macroChar getenv m raw c).out.length := by
  unfold macroChar
  cases m.state with
  | dollar =>
      dsimp only
      split
      · exact Nat.le_refl _
      · split
        · exact Nat.le_refl _
        · rw [List.length_append]
          exact Nat.le_add_right _ _
  | opening =>
      dsimp only
      split
      · exact Nat.le_refl _
      · dsimp only
        split
        · rw [List.append_assoc, List.length_append]
          exact Nat.le_add_right _ _
        · rw [List.length_append]
          exact Nat.le_add_right _ _
  | closing name =>
      dsimp only
      split
      · rw [List.length_append]
        exact Nat.le_add_right _ _
      · exact Nat.le_refl _
  | quote =>
      dsimp only
      split
      · exact Nat.le_refl _
      · rw [List.length_append]
        exact Nat.le_add_right _ _

theorem scanChar_out_le (s : MacroScan) (c : Byte) :
    s.loop.out.length <= (scanChar getenv s c).loop.out.length := by
  unfold scanChar
  split
  · exact macroChar_out_le getenv { s.loop with prev := backslash } [backslash, c] c
  · split
    · exact Nat.le_refl _
    · exact macroChar_out_le getenv s.loop [c] c

theorem foldl_scanChar_out_le (s : MacroScan) (text : List Byte) :
    s.loop.out.length <= (text.foldl (scanChar getenv) s).loop.out.length := by
  induction text generalizing s with
  | nil =>
      exact Nat.le_refl _
  | cons c text ih =>
      exact Nat.le_trans (scanChar_out_le getenv s c) (ih (scanChar getenv s c))

theorem macroLoop_scan (m : MacroLoop) (text : List Byte)
    (hroom : (text.foldl (scanChar getenv) ⟨m, false⟩).loop.out.length < cbSize) :
    macroLoop getenv m text = (text.foldl (scanChar getenv) ⟨m, false⟩).loop := by
  induction hlength : text.length using Nat.strongRecOn generalizing m text with
  | ind n ih =>
      have hstart := Nat.lt_of_le_of_lt (foldl_scanChar_out_le getenv ⟨m, false⟩ text) hroom
      cases text with
      | nil =>
          rfl
      | cons c text =>
          rw [List.length_cons] at hlength
          by_cases hescape : m.state ≠ .quote ∧ c = backslash ∧ m.prev ≠ backslash
          · have hfirst : scanChar getenv ⟨m, false⟩ c = ⟨m, true⟩ := by
              unfold scanChar
              rw [if_neg Bool.false_ne_true, if_pos hescape]
            cases text with
            | nil =>
                unfold macroLoop
                rw [if_pos hstart, if_pos hescape, List.foldl_cons, hfirst]
                rfl
            | cons d text =>
                rw [List.length_cons] at hlength
                have hsecond : scanChar getenv ⟨m, true⟩ d =
                    ⟨macroChar getenv { m with prev := c } [c, d] d, false⟩ := by
                  rw [hescape.right.left]
                  rfl
                rw [List.foldl_cons, List.foldl_cons, hfirst, hsecond] at hroom ⊢
                rw [macroLoop, if_pos hstart, if_pos hescape]
                exact ih text.length (by omega) _ text hroom rfl
          · have hfirst : scanChar getenv ⟨m, false⟩ c =
                ⟨macroChar getenv m [c] c, false⟩ := by
              unfold scanChar
              rw [if_neg Bool.false_ne_true, if_neg hescape]
            rw [List.foldl_cons, hfirst] at hroom ⊢
            rw [macroLoop_step getenv m c text hstart hescape]
            exact ih text.length (by omega) _ text hroom rfl

end Scan

/-!
# The search for separators
-/

/-- `inquotes` behind a text. -/
def quotedAfter : Bool -> Byte -> List Byte -> Bool
  | inquotes, _, [] => inquotes
  | inquotes, prev, c :: text =>
      quotedAfter (if c == singleQuote && prev != backslash then !inquotes else inquotes) c text

theorem quotedAfter_append (inquotes : Bool) (prev : Byte) (text : List Byte) (c : Byte) :
    quotedAfter inquotes prev (text ++ [c]) =
      if c == singleQuote && text.getLastD prev != backslash then
        !quotedAfter inquotes prev text
      else quotedAfter inquotes prev text := by
  induction text generalizing inquotes prev with
  | nil =>
      rfl
  | cons d text ih =>
      rw [List.cons_append, quotedAfter, quotedAfter, ih, List.getLastD_cons]

section Agreement

variable (getenv : List Byte -> Option (List Byte))

/-- The search and the loop of `process_macros` behind the same text. -/
structure Agrees (front : Byte) (text : List Byte) (s : MacroScan) : Prop where
  quotes : quotedAfter false front text = true ↔ s.loop.state = .quote
  escape : s.escape = true -> text.getLastD front = backslash ∧ s.loop.state ≠ .quote
  start : text = [] -> s.loop.prev = 0#8
  prev : text ≠ [] -> s.escape = false -> s.loop.prev = text.getLastD front

theorem macroChar_prev (m : MacroLoop) (raw : List Byte) (c : Byte) :
    (macroChar getenv m raw c).prev = c := by
  unfold macroChar
  cases m.state with
  | dollar =>
      dsimp only
      split
      · rfl
      · split
        · rfl
        · rfl
  | opening =>
      dsimp only
      split
      · rfl
      · rfl
  | closing name =>
      dsimp only
      split
      · rfl
      · rfl
  | quote =>
      dsimp only
      split
      · rfl
      · rfl

theorem macroChar_quote_iff (m : MacroLoop) (raw : List Byte) (c : Byte) :
    (macroChar getenv m raw c).state = .quote ↔
      (m.state = .dollar ∧ c = singleQuote ∧ m.prev ≠ backslash) ∨
        (m.state = .quote ∧ ¬ (c = singleQuote ∧ m.prev ≠ backslash)) := by
  have htest : (c == singleQuote && m.prev != backslash) = true ↔
      c = singleQuote ∧ m.prev ≠ backslash := by
    rw [Bool.and_eq_true, beq_iff_eq, bne_iff_ne]
  unfold macroChar
  cases m.state with
  | dollar =>
      dsimp only
      split
      case isTrue hquote =>
          simp [htest.mp hquote]
      case isFalse hplain =>
          have hnot : ¬ (c = singleQuote ∧ m.prev ≠ backslash) := fun h => hplain (htest.mpr h)
          split
          · simp [hnot]
          · simp [hnot]
  | opening =>
      dsimp only
      split
      · simp
      · simp
  | closing name =>
      dsimp only
      split
      · simp
      · simp
  | quote =>
      dsimp only
      split
      case isTrue hquote =>
          simp [htest.mp hquote]
      case isFalse hplain =>
          have hnot : ¬ (c = singleQuote ∧ m.prev ≠ backslash) := fun h => hplain (htest.mpr h)
          simp [hnot]

theorem Agrees.step {front : Byte} {text : List Byte} {s : MacroScan}
    (h : Agrees front text s) (c : Byte)
    (hmet : c = singleQuote -> (text = [] -> front ≠ backslash) ∧
      (text.getLastD front ≠ backslash -> s.loop.state = .dollar ∨ s.loop.state = .quote)) :
    Agrees front (text ++ [c]) (scanChar getenv s c) := by
  have hsome : text ++ [c] ≠ [] := List.append_ne_nil_of_right_ne_nil _ (List.cons_ne_nil _ _)
  have hlast : (text ++ [c]).getLastD front = c := List.getLastD_concat
  have hsearch := quotedAfter_append false front text c
  cases hescape : s.escape with
  | true =>
      -- the character of an escape
      rcases h.escape hescape with ⟨hbackslash, hstate⟩
      have hnext : scanChar getenv s c =
          ⟨macroChar getenv { s.loop with prev := backslash } [backslash, c] c, false⟩ :=
        if_pos hescape
      rw [hbackslash, show (backslash != backslash) = false from rfl, Bool.and_false,
        if_neg Bool.false_ne_true] at hsearch
      rw [hnext]
      refine ⟨?_, fun hf => Bool.noConfusion hf, fun hnil => absurd hnil hsome, ?_⟩
      · rw [hsearch, h.quotes, macroChar_quote_iff]
        simp [hstate]
      · intro _ _
        rw [hlast]
        exact macroChar_prev getenv _ _ _
  | false =>
      by_cases hstarts : s.loop.state ≠ .quote ∧ c = backslash ∧ s.loop.prev ≠ backslash
      · have hnext : scanChar getenv s c = ⟨s.loop, true⟩ := by
          unfold scanChar
          rw [hescape, if_neg Bool.false_ne_true, if_pos hstarts]
        have hplain : (c == singleQuote) = false := by
          rw [hstarts.right.left]
          rfl
        rw [hplain, Bool.false_and, if_neg Bool.false_ne_true] at hsearch
        rw [hnext]
        refine ⟨?_, fun _ => ?_, fun hnil => absurd hnil hsome, fun _ hf => ?_⟩
        · rw [hsearch]
          exact h.quotes
        · rw [hlast]
          exact ⟨hstarts.right.left, hstarts.left⟩
        · cases hf
      · have hnext : scanChar getenv s c = ⟨macroChar getenv s.loop [c] c, false⟩ := by
          unfold scanChar
          rw [hescape, if_neg Bool.false_ne_true, if_neg hstarts]
        rw [hnext]
        refine ⟨?_, fun hf => Bool.noConfusion hf, fun hnil => absurd hnil hsome, ?_⟩
        · rw [hsearch, macroChar_quote_iff]
          by_cases hquote : c = singleQuote
          · rcases hmet hquote with ⟨hfront, hstate⟩
            by_cases hbehind : text.getLastD front = backslash
            · have hprev : s.loop.prev = backslash := by
                rw [← hbehind]
                apply h.prev _ hescape
                rintro rfl
                exact hfront rfl hbehind
              rw [hbehind, hprev, show (backslash != backslash) = false from rfl, Bool.and_false,
                if_neg Bool.false_ne_true, h.quotes]
              simp
            · have hprev : s.loop.prev ≠ backslash := by
                cases htext : text with
                | nil =>
                    rw [h.start htext]
                    decide
                | cons d rest =>
                    rw [h.prev (by rw [htext]; exact List.cons_ne_nil _ _) hescape]
                    exact hbehind
              rw [bne_iff_ne.mpr hbehind, Bool.and_true, beq_iff_eq.mpr hquote, if_pos rfl,
                Bool.not_eq_true', ← Bool.not_eq_true, h.quotes]
              rcases hstate hbehind with hdollar | hquoted
              · simp [hdollar, hquote, hprev]
              · simp [hquoted, hquote, hprev]
          · rw [beq_eq_false_iff_ne.mpr hquote, Bool.false_and, if_neg Bool.false_ne_true,
              h.quotes]
            simp [hquote]
        · intro _ _
          rw [hlast]
          exact macroChar_prev getenv _ _ _

end Agreement

end Command
end Bab750
