import Bab750.Foundation.Bytes

/-!
# Tables of NUL-terminated strings

A string table is a sequence of nonempty strings, each followed by a NUL, with
one further NUL behind the last.  This module has the scans that walk such a
table and the facts about where its first double NUL stands.
-/

namespace Bab750
namespace Foundation

/-!
# Scans to the next terminator
-/

/-- Index of the first NUL at or behind an index, looking at most `fuel` bytes. -/
def scanNul (get : Nat -> Option Byte) : Nat -> Nat -> Option Nat
  | 0, _ => none
  | fuel + 1, i =>
      match get i with
      | none => none
      | some b => if b = 0#8 then some i else scanNul get fuel (i + 1)

/-- The string that starts at an index, looking at most `fuel` bytes. -/
def readString (get : Nat -> Option Byte) : Nat -> Nat -> Option (List Byte)
  | 0, _ => none
  | fuel + 1, i =>
      match get i with
      | none => none
      | some b =>
          if b = 0#8 then some []
          else (readString get fuel (i + 1)).map (fun text => b :: text)

theorem scanNul_readsAt {get : Nat -> Option Byte} {text : List Byte}
    (fuel off : Nat) (hnul : 0#8 ∉ text)
    (hread : ReadsAt get off (text ++ [0#8])) (hfuel : text.length < fuel) :
    scanNul get fuel off = some (off + text.length) := by
  induction text generalizing fuel off with
  | nil =>
      cases fuel with
      | zero =>
          simp at hfuel
      | succ fuel =>
          have hhead := (readsAt_cons.mp hread).left
          simp [scanNul, hhead]
  | cons b text ih =>
      cases fuel with
      | zero =>
          simp at hfuel
      | succ fuel =>
          rcases readsAt_cons.mp hread with ⟨hhead, htail⟩
          have hb : b ≠ 0#8 := by
            intro hb
            exact hnul (by simp [hb])
          have hrest := ih fuel (off + 1)
            (fun h => hnul (List.mem_cons_of_mem _ h)) htail
            (by simpa using hfuel)
          simp only [scanNul, hhead, if_neg hb, hrest, List.length_cons]
          congr 1
          omega

theorem readString_readsAt {get : Nat -> Option Byte} {text : List Byte}
    (fuel off : Nat) (hnul : 0#8 ∉ text)
    (hread : ReadsAt get off (text ++ [0#8])) (hfuel : text.length < fuel) :
    readString get fuel off = some text := by
  induction text generalizing fuel off with
  | nil =>
      cases fuel with
      | zero =>
          simp at hfuel
      | succ fuel =>
          have hhead := (readsAt_cons.mp hread).left
          simp [readString, hhead]
  | cons b text ih =>
      cases fuel with
      | zero =>
          simp at hfuel
      | succ fuel =>
          rcases readsAt_cons.mp hread with ⟨hhead, htail⟩
          have hb : b ≠ 0#8 := by
            intro hb
            exact hnul (by simp [hb])
          have hrest := ih fuel (off + 1)
            (fun h => hnul (List.mem_cons_of_mem _ h)) htail
            (by simpa using hfuel)
          simp [readString, hhead, hb, hrest]

/-!
# Tables
-/

def TableStrings (strs : List (List Byte)) : Prop :=
  forall s, s ∈ strs -> s ≠ [] ∧ 0#8 ∉ s

/-- The strings with their terminators, without the final NUL of the table. -/
def encodeStrings (strs : List (List Byte)) : List Byte :=
  strs.flatMap (fun s => s ++ [0#8])

@[simp] theorem encodeStrings_nil : encodeStrings [] = [] := rfl

@[simp] theorem encodeStrings_cons (s : List Byte) (strs : List (List Byte)) :
    encodeStrings (s :: strs) = s ++ 0#8 :: encodeStrings strs := by
  simp [encodeStrings]

@[simp] theorem encodeStrings_append (left right : List (List Byte)) :
    encodeStrings (left ++ right) =
      encodeStrings left ++ encodeStrings right := by
  simp [encodeStrings]

theorem encodeStrings_ne_nil {strs : List (List Byte)} (h : strs ≠ []) :
    encodeStrings strs ≠ [] := by
  cases strs with
  | nil =>
      exact absurd rfl h
  | cons s strs =>
      simp

theorem encodeStrings_head_ne_nul {strs : List (List Byte)}
    (hstrs : TableStrings strs) (hne : strs ≠ []) (rest : List Byte) :
    (encodeStrings strs ++ rest).head? ≠ some 0#8 := by
  cases strs with
  | nil =>
      exact absurd rfl hne
  | cons s strs =>
      rcases hstrs s (by simp) with ⟨hsne, hsnul⟩
      cases s with
      | nil =>
          exact absurd rfl hsne
      | cons b s =>
          intro hhead
          simp at hhead
          exact hsnul (by simp [hhead])

/-!
# Double NULs

The end of a table is found by looking for two NULs in a row.  A prefix is
free of double NULs in front of a rest when no NUL of the prefix is followed by
another one.
-/

/-- No NUL of the first list is directly followed by another NUL. -/
def NoDoubleNul : List Byte -> List Byte -> Prop
  | [], _ => True
  | b :: bytes, rest =>
      ¬(b = 0#8 ∧ (bytes ++ rest).head? = some 0#8) ∧ NoDoubleNul bytes rest

theorem noDoubleNul_append {left right rest : List Byte} :
    NoDoubleNul (left ++ right) rest <->
      NoDoubleNul left (right ++ rest) ∧ NoDoubleNul right rest := by
  induction left with
  | nil =>
      simp [NoDoubleNul]
  | cons b left ih =>
      simp only [List.cons_append, NoDoubleNul, ih, List.append_assoc]
      exact and_assoc.symm

theorem noDoubleNul_of_noNul {text : List Byte} (hnul : 0#8 ∉ text)
    (rest : List Byte) : NoDoubleNul text rest := by
  induction text with
  | nil =>
      trivial
  | cons b text ih =>
      refine ⟨?_, ih (fun h => hnul (by simp [h]))⟩
      intro h
      exact hnul (by simp [h.left])

theorem noDoubleNul_encodeStrings {strs : List (List Byte)}
    (hstrs : TableStrings strs) {rest : List Byte}
    (hrest : rest.head? ≠ some 0#8) :
    NoDoubleNul (encodeStrings strs) rest := by
  induction strs with
  | nil =>
      trivial
  | cons s strs ih =>
      have htail : TableStrings strs := fun t ht => hstrs t (by simp [ht])
      rw [encodeStrings_cons, noDoubleNul_append]
      refine ⟨noDoubleNul_of_noNul (hstrs s (by simp)).right _, ?_, ih htail⟩
      intro hdouble
      by_cases hne : strs = []
      · subst strs
        exact hrest (by simpa using hdouble.right)
      · exact encodeStrings_head_ne_nul htail hne rest hdouble.right

/--
A nonempty table ends in a NUL, and the bytes in front of that NUL are free of
double NULs.
-/
theorem encodeStrings_eq_body_nul {strs : List (List Byte)}
    (hstrs : TableStrings strs) (hne : strs ≠ []) :
    exists body : List Byte,
      encodeStrings strs = body ++ [0#8] ∧ body ≠ [] ∧
        forall rest, NoDoubleNul body (0#8 :: rest) := by
  rcases List.eq_nil_or_concat strs with hnil | ⟨front, last, hstrsEq⟩
  · exact absurd hnil hne
  · have hlast := hstrs last (by simp [hstrsEq])
    have hfront : TableStrings front :=
      fun t ht => hstrs t (by simp [hstrsEq, ht])
    have hhead : forall rest : List Byte,
        (last ++ rest).head? ≠ some 0#8 := by
      intro rest h
      cases last with
      | nil =>
          exact hlast.left rfl
      | cons b last =>
          simp at h
          exact hlast.right (by simp [h])
    refine ⟨encodeStrings front ++ last, ?_, ?_, ?_⟩
    · simp [hstrsEq]
    · simp [hlast.left]
    · intro rest
      rw [noDoubleNul_append]
      exact ⟨noDoubleNul_encodeStrings hfront (hhead _),
        noDoubleNul_of_noNul hlast.right _⟩

end Foundation
end Bab750
