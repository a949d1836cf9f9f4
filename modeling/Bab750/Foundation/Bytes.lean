import Mathlib.Data.List.Basic
import Mathlib.Tactic.Common

/-!
# Bytes, C strings, and bounded memory objects

The firmware keeps its data in byte arrays and walks them with pointers.  This
module fixes the vocabulary used for that: bytes, strings without their
terminator, reads through an accessor that may leave the object, and stores
into a list of bytes.  A read or store outside the object has no result, which
is written `none` throughout.
-/

namespace Bab750
namespace Foundation

abbrev Byte := BitVec 8

instance : LawfulBEq Byte := inferInstance

/-- The bytes of a text of the source that uses 7-bit characters only. -/
def ascii (text : String) : List Byte :=
  text.toList.map (fun c => BitVec.ofNat 8 c.toNat)

structure CString where
  bytes : List Byte
  noNul : 0#8 ∉ bytes
deriving DecidableEq

/-!
# Reading through an accessor

An accessor answers the byte at an index, or nothing when the index is outside
the object.  A list of bytes is seen at an offset when the accessor answers
each of its bytes there.
-/

/-- The accessor answers the given bytes from the given offset on. -/
def ReadsAt (get : Nat -> Option Byte) (off : Nat) (bytes : List Byte) : Prop :=
  forall k, k < bytes.length -> get (off + k) = bytes[k]?

theorem readsAt_cons {get : Nat -> Option Byte} {off : Nat} {b : Byte}
    {bytes : List Byte} :
    ReadsAt get off (b :: bytes) <->
      get off = some b ∧ ReadsAt get (off + 1) bytes := by
  constructor
  · intro h
    constructor
    · simpa using h 0 (by simp)
    · intro k hk
      have hk' := h (k + 1) (by simpa using hk)
      rw [List.getElem?_cons_succ] at hk'
      rw [← hk']
      congr 1
      omega
  · intro h k hk
    rcases h with ⟨hhead, htail⟩
    cases k with
    | zero =>
        simpa using hhead
    | succ k =>
        rw [List.getElem?_cons_succ, ← htail k (by simpa using hk)]
        congr 1
        omega

theorem readsAt_append {get : Nat -> Option Byte} {off : Nat}
    {left right : List Byte} :
    ReadsAt get off (left ++ right) <->
      ReadsAt get off left ∧ ReadsAt get (off + left.length) right := by
  induction left generalizing off with
  | nil =>
      simp [ReadsAt]
  | cons b left ih =>
      rw [List.cons_append, readsAt_cons, readsAt_cons, ih, and_assoc,
        List.length_cons, Nat.add_right_comm off 1 left.length,
        Nat.add_assoc off left.length 1]

theorem readsAt_getElem? (left bytes right : List Byte) :
    ReadsAt (fun i => (left ++ bytes ++ right)[i]?) left.length bytes := by
  intro k hk
  simp only [List.append_assoc]
  rw [List.getElem?_append_right (by omega),
    List.getElem?_append_left (by omega)]
  congr 1
  omega

/-!
# Stores into a byte array
-/

def store (data : List Byte) (i : Nat) (b : Byte) : Option (List Byte) :=
  if i < data.length then some (data.set i b) else none

theorem store_middle (left right : List Byte) (old b : Byte) :
    store (left ++ old :: right) left.length b =
      some (left ++ b :: right) := by
  simp [store]

theorem store_length {data data' : List Byte} {i : Nat} {b : Byte}
    (h : store data i b = some data') : data'.length = data.length := by
  unfold store at h
  split at h
  · cases h
    simp
  · cases h

/--
Copy a string and its terminator to an index, as `while ((*p = *s++) != 0) p++`
does.  The second component is the index of the terminator.
-/
def copyString (data : List Byte) (i : Nat) : List Byte -> Option (List Byte × Nat)
  | [] => (store data i 0#8).map (fun data' => (data', i))
  | b :: rest =>
      match store data i b with
      | none => none
      | some data' => copyString data' (i + 1) rest

theorem copyString_length {data data' : List Byte} {i j : Nat} {text : List Byte}
    (h : copyString data i text = some (data', j)) : data'.length = data.length := by
  induction text generalizing data i with
  | nil =>
      rcases Option.map_eq_some_iff.mp h with ⟨stored, hstore, hpair⟩
      cases hpair
      exact store_length hstore
  | cons b text ih =>
      rw [copyString] at h
      cases hstore : store data i b with
      | none =>
          simp [hstore] at h
      | some stored =>
          simp only [hstore] at h
          rw [ih h, store_length hstore]

theorem copyString_middle (left right : List Byte) (old text : List Byte)
    (hold : old.length = text.length + 1) :
    copyString (left ++ old ++ right) left.length text =
      some (left ++ text ++ 0#8 :: right, left.length + text.length) := by
  induction text generalizing left old with
  | nil =>
      rcases List.length_eq_one_iff.mp hold with ⟨b, rfl⟩
      simp [copyString, store_middle]
  | cons c text ih =>
      cases old with
      | nil =>
          simp at hold
      | cons b old =>
          have hstep : store (left ++ (b :: old) ++ right) left.length c =
              some (left ++ c :: (old ++ right)) := by
            simpa using store_middle left (old ++ right) b c
          have hnext := ih (left ++ [c]) old (by simpa using hold)
          rw [copyString, hstep]
          simpa [Nat.add_assoc, Nat.add_comm 1] using hnext

end Foundation
end Bab750
