import Mathlib.Tactic.Common

/-!
# Regular expressions over text

The part of a backtracking matcher that scripts use on console text: character
classes, greedy repetition of one class, sequences, alternatives, and word
boundaries.  A match from a place is given by the places where it can end, in the
order in which a backtracking matcher tries them.
-/

namespace Bab750
namespace Foundation

abbrev Text := List Char

def chars (literal : String) : Text := literal.toList

/-- A place in a text: the character in front of it, and the text behind it. -/
abbrev Place := Option Char × Text

inductive Pattern where
  | empty
  | char (p : Char -> Bool)
  | many (p : Char -> Bool)
  | boundary (isWord : Char -> Bool)
  | seq (first second : Pattern)
  | alt (first second : Pattern)

namespace Pattern

def manyEnds (p : Char -> Bool) (prev : Option Char) : Text -> List Place
  | [] => [(prev, [])]
  | c :: rest =>
      if p c then manyEnds p (some c) rest ++ [(prev, c :: rest)]
      else [(prev, c :: rest)]

def ends : Pattern -> Option Char -> Text -> List Place
  | .empty, prev, text => [(prev, text)]
  | .char _, _, [] => []
  | .char p, _, c :: rest => if p c then [(some c, rest)] else []
  | .many p, prev, text => manyEnds p prev text
  | .boundary isWord, prev, text =>
      if prev.any isWord ≠ text.head?.any isWord then [(prev, text)] else []
  | .seq first second, prev, text =>
      (ends first prev text).flatMap (fun place => ends second place.1 place.2)
  | .alt first second, prev, text => ends first prev text ++ ends second prev text

/-- The number of characters in front of the first match. -/
def searchFrom (pattern : Pattern) (prev : Option Char) : Text -> Option Nat
  | [] => if (ends pattern prev []).isEmpty then none else some 0
  | c :: rest =>
      if (ends pattern prev (c :: rest)).isEmpty then
        (searchFrom pattern (some c) rest).map (fun n => n + 1)
      else some 0

def search (pattern : Pattern) (text : Text) : Option Nat :=
  searchFrom pattern none text

def found (pattern : Pattern) (text : Text) : Bool :=
  (search pattern text).isSome

def oneOrMore (p : Char -> Bool) : Pattern := .seq (.char p) (.many p)

/-- The characters of a literal, compared by `same`. -/
def literal (same : Char -> Char -> Bool) : Text -> Pattern
  | [] => .empty
  | c :: rest => .seq (.char (same c)) (literal same rest)

def sequence : List Pattern -> Pattern
  | [] => .empty
  | pattern :: rest => .seq pattern (sequence rest)

/-!
# Where a match is found
-/

def lastOf (prev : Option Char) (before : Text) : Option Char :=
  before.getLast?.or prev

theorem lastOf_cons (prev : Option Char) (c : Char) (before : Text) :
    lastOf prev (c :: before) = lastOf (some c) before := by
  unfold lastOf
  rw [List.getLast?_cons]
  cases before.getLast? with
  | none =>
      rfl
  | some d =>
      rfl

theorem searchFrom_isSome_iff (pattern : Pattern) (prev : Option Char) (text : Text) :
    (searchFrom pattern prev text).isSome <->
      exists before after, text = before ++ after ∧
        ends pattern (lastOf prev before) after ≠ [] := by
  induction text generalizing prev with
  | nil =>
      unfold searchFrom
      constructor
      · intro h
        refine ⟨[], [], rfl, ?_⟩
        intro hnone
        have hprev : lastOf prev [] = prev := rfl
        rw [hprev] at hnone
        simp [hnone] at h
      · rintro ⟨before, after, htext, hends⟩
        rcases List.append_eq_nil_iff.mp htext.symm with ⟨rfl, rfl⟩
        have hprev : lastOf prev [] = prev := rfl
        rw [hprev] at hends
        simp [hends]
  | cons c rest ih =>
      unfold searchFrom
      constructor
      · intro h
        split at h
        case isTrue hhere =>
            rw [Option.isSome_map] at h
            rcases (ih _).mp h with ⟨before, after, hrest, hends⟩
            refine ⟨c :: before, after, by rw [hrest]; rfl, ?_⟩
            rw [lastOf_cons]
            exact hends
        case isFalse hhere =>
            refine ⟨[], c :: rest, rfl, ?_⟩
            intro hnone
            exact hhere (List.isEmpty_iff.mpr hnone)
      · rintro ⟨before, after, htext, hends⟩
        split
        case isTrue hhere =>
            rw [Option.isSome_map]
            cases before with
            | nil =>
                rw [List.nil_append] at htext
                rw [← htext] at hends
                exact absurd (List.isEmpty_iff.mp hhere) hends
            | cons d before =>
                rw [List.cons_append] at htext
                rcases List.cons.inj htext with ⟨rfl, hrest⟩
                rw [lastOf_cons] at hends
                exact (ih _).mpr ⟨before, after, hrest, hends⟩
        case isFalse hhere =>
            rfl

theorem found_iff (pattern : Pattern) (text : Text) :
    pattern.found text = true <-> exists before after, text = before ++ after ∧
      ends pattern (lastOf none before) after ≠ [] :=
  searchFrom_isSome_iff pattern none text

/-!
# Matching a given text
-/

/-- The pattern can match exactly the given text, wherever it stands. -/
def Accepts : Pattern -> Text -> Prop
  | .empty, text => text = []
  | .char p, text => exists c, p c = true ∧ text = [c]
  | .many p, text => forall c, c ∈ text -> p c = true
  | .boundary _, _ => False
  | .seq first second, text =>
      exists front back, text = front ++ back ∧ Accepts first front ∧ Accepts second back
  | .alt first second, text => Accepts first text ∨ Accepts second text

theorem manyEnds_mem {p : Char -> Bool} {text : Text} (h : forall c, c ∈ text -> p c = true)
    (prev : Option Char) (rest : Text) :
    exists last, (last, rest) ∈ manyEnds p prev (text ++ rest) := by
  induction text generalizing prev with
  | nil =>
      refine ⟨prev, ?_⟩
      rw [List.nil_append]
      cases rest with
      | nil =>
          exact List.mem_singleton_self _
      | cons c rest =>
          unfold manyEnds
          split
          · exact List.mem_append_right _ (List.mem_singleton_self _)
          · exact List.mem_singleton_self _
  | cons c text ih =>
      rcases ih (fun d hd => h d (List.mem_cons_of_mem c hd)) (some c) with
        ⟨last, hlast⟩
      refine ⟨last, ?_⟩
      rw [List.cons_append]
      unfold manyEnds
      rw [if_pos (h c List.mem_cons_self)]
      exact List.mem_append_left _ hlast

theorem ends_of_accepts {pattern : Pattern} {text : Text} (h : Accepts pattern text)
    (prev : Option Char) (rest : Text) :
    exists last, (last, rest) ∈ ends pattern prev (text ++ rest) := by
  induction pattern generalizing text prev rest with
  | empty =>
      rw [show text = [] from h]
      exact ⟨prev, List.mem_singleton_self _⟩
  | char p =>
      rcases h with ⟨c, hc, rfl⟩
      refine ⟨some c, ?_⟩
      show _ ∈ if p c then _ else _
      rw [if_pos hc]
      exact List.mem_singleton_self _
  | many p =>
      exact manyEnds_mem h prev rest
  | boundary isWord =>
      exact absurd h id
  | seq first second ihfirst ihsecond =>
      rcases h with ⟨front, back, rfl, hfront, hback⟩
      rcases ihfirst hfront prev (back ++ rest) with ⟨middle, hmiddle⟩
      rcases ihsecond hback middle rest with ⟨last, hlast⟩
      refine ⟨last, ?_⟩
      rw [List.append_assoc]
      exact List.mem_flatMap.mpr ⟨_, hmiddle, hlast⟩
  | alt first second ihfirst ihsecond =>
      rcases h with hfirst | hsecond
      · rcases ihfirst hfirst prev rest with ⟨last, hlast⟩
        exact ⟨last, List.mem_append_left _ hlast⟩
      · rcases ihsecond hsecond prev rest with ⟨last, hlast⟩
        exact ⟨last, List.mem_append_right _ hlast⟩

theorem found_of_accepts {pattern : Pattern} {text : Text} (h : Accepts pattern text)
    (before after : Text) : pattern.found (before ++ text ++ after) = true := by
  rcases ends_of_accepts h (lastOf none before) after with ⟨last, hlast⟩
  refine (found_iff _ _).mpr ⟨before, text ++ after, List.append_assoc _ _ _, ?_⟩
  exact List.ne_nil_of_mem hlast

/-!
# Matches in a larger text
-/

/-- The pattern looks at nothing but the text that it matches. -/
def Local : Pattern -> Prop
  | .boundary _ => False
  | .seq first second => Local first ∧ Local second
  | .alt first second => Local first ∧ Local second
  | _ => True

theorem manyEnds_accepts {p : Char -> Bool} {prev : Option Char} {text : Text}
    {place : Place} (h : place ∈ manyEnds p prev text) :
    exists part, text = part ++ place.2 ∧ forall c, c ∈ part -> p c = true := by
  induction text generalizing prev with
  | nil =>
      rw [List.mem_singleton.mp h]
      exact ⟨[], rfl, fun c hc => absurd hc List.not_mem_nil⟩
  | cons c rest ih =>
      unfold manyEnds at h
      split at h
      case isTrue hc =>
          rcases List.mem_append.mp h with hlonger | hhere
          · rcases ih hlonger with ⟨part, hrest, hpart⟩
            refine ⟨c :: part, by rw [hrest]; rfl, ?_⟩
            intro d hd
            rcases List.mem_cons.mp hd with rfl | hd
            · exact hc
            · exact hpart d hd
          · rw [List.mem_singleton.mp hhere]
            exact ⟨[], rfl, fun c hc => absurd hc List.not_mem_nil⟩
      case isFalse =>
          rw [List.mem_singleton.mp h]
          exact ⟨[], rfl, fun c hc => absurd hc List.not_mem_nil⟩

theorem accepts_of_ends {pattern : Pattern} (hlocal : Local pattern) {prev : Option Char}
    {text : Text} {place : Place} (h : place ∈ ends pattern prev text) :
    exists part, text = part ++ place.2 ∧ Accepts pattern part := by
  induction pattern generalizing prev text place with
  | empty =>
      rw [List.mem_singleton.mp h]
      exact ⟨[], rfl, rfl⟩
  | char p =>
      cases text with
      | nil =>
          exact absurd h List.not_mem_nil
      | cons c rest =>
          unfold ends at h
          split at h
          case isTrue hc =>
              rw [List.mem_singleton.mp h]
              exact ⟨[c], rfl, c, hc, rfl⟩
          case isFalse =>
              exact absurd h List.not_mem_nil
  | many p =>
      exact manyEnds_accepts h
  | boundary isWord =>
      exact absurd hlocal id
  | seq first second ihfirst ihsecond =>
      rcases List.mem_flatMap.mp h with ⟨middle, hmiddle, hplace⟩
      rcases ihfirst hlocal.left hmiddle with ⟨front, htext, hfront⟩
      rcases ihsecond hlocal.right hplace with ⟨back, hrest, hback⟩
      refine ⟨front ++ back, ?_, front, back, rfl, hfront, hback⟩
      rw [htext, hrest, List.append_assoc]
  | alt first second ihfirst ihsecond =>
      rcases List.mem_append.mp h with hfirst | hsecond
      · rcases ihfirst hlocal.left hfirst with ⟨part, htext, hpart⟩
        exact ⟨part, htext, Or.inl hpart⟩
      · rcases ihsecond hlocal.right hsecond with ⟨part, htext, hpart⟩
        exact ⟨part, htext, Or.inr hpart⟩

theorem exists_accepts {pattern : Pattern} (hlocal : Local pattern) {text : Text}
    (h : pattern.found text = true) :
    exists before part after, text = before ++ part ++ after ∧ Accepts pattern part := by
  rcases (found_iff pattern text).mp h with ⟨before, after, hsplit, hends⟩
  rcases List.exists_mem_of_ne_nil _ hends with ⟨place, hplace⟩
  rcases accepts_of_ends hlocal hplace with ⟨part, hpart, haccepts⟩
  exact ⟨before, part, place.2, by rw [hsplit, hpart, List.append_assoc], haccepts⟩

/-- A match in a part of a text is a match in the text. -/
theorem found_of_within {pattern : Pattern} (hlocal : Local pattern) {part text : Text}
    (hpart : part <:+: text) (h : pattern.found part = true) :
    pattern.found text = true := by
  rcases exists_accepts hlocal h with ⟨before, match_, after, rfl, haccepts⟩
  rcases hpart with ⟨front, back, rfl⟩
  have hfound := found_of_accepts haccepts (front ++ before) (after ++ back)
  simpa only [List.append_assoc] using hfound

theorem searchFrom_accepts {pattern : Pattern} (hlocal : Local pattern)
    {prev : Option Char} {text : Text} {n : Nat}
    (h : searchFrom pattern prev text = some n) :
    exists part rest, text.drop n = part ++ rest ∧ Accepts pattern part := by
  have hhere : forall (prev : Option Char) (text : Text),
      ¬ (ends pattern prev text).isEmpty = true ->
        exists part rest, text = part ++ rest ∧ Accepts pattern part := by
    intro prev text hends
    rcases List.exists_mem_of_ne_nil _ (mt List.isEmpty_iff.mpr hends) with ⟨place, hplace⟩
    rcases accepts_of_ends hlocal hplace with ⟨part, htext, haccepts⟩
    exact ⟨part, place.2, htext, haccepts⟩
  induction text generalizing prev n with
  | nil =>
      unfold searchFrom at h
      split at h
      case isTrue =>
          cases h
      case isFalse hends =>
          rw [← Option.some.inj h]
          exact hhere prev [] hends
  | cons c rest ih =>
      unfold searchFrom at h
      split at h
      case isTrue =>
          rcases Option.map_eq_some_iff.mp h with ⟨m, hm, rfl⟩
          exact ih hm
      case isFalse hends =>
          rw [← Option.some.inj h]
          exact hhere prev (c :: rest) hends

theorem search_accepts {pattern : Pattern} (hlocal : Local pattern) {text : Text} {n : Nat}
    (h : pattern.search text = some n) :
    exists part rest, text.drop n = part ++ rest ∧ Accepts pattern part :=
  searchFrom_accepts hlocal h

theorem local_literal (same : Char -> Char -> Bool) (text : Text) :
    Local (literal same text) := by
  induction text with
  | nil =>
      exact trivial
  | cons c rest ih =>
      exact ⟨trivial, ih⟩

end Pattern

end Foundation
end Bab750
