import Bab750.Foundation.Bytes
import Mathlib.Data.BitVec

/-!
# Words in memory

The processor and the network store words with the most significant byte first.
-/

namespace Bab750
namespace Foundation

def wordBytes (w : BitVec 32) : List Byte :=
  [w.extractLsb' 24 8, w.extractLsb' 16 8, w.extractLsb' 8 8, w.extractLsb' 0 8]

def bytesWord : List Byte -> BitVec 32
  | [a, b, c, d] => a ++ b ++ c ++ d
  | _ => 0#32

theorem bytesWord_wordBytes (w : BitVec 32) : bytesWord (wordBytes w) = w := by
  unfold wordBytes bytesWord
  apply BitVec.eq_of_getLsbD_eq
  intro i hi
  simp
  grind

theorem wordBytes_bytesWord {bytes : List Byte} (h : bytes.length = 4) :
    wordBytes (bytesWord bytes) = bytes := by
  cases bytes with
  | nil =>
      simp at h
  | cons a bytes =>
      rcases List.length_eq_three.mp (by simpa using h) with ⟨b, c, d, rfl⟩
      have ha : (a ++ b ++ c ++ d).extractLsb' 24 8 = a := by
        apply BitVec.eq_of_getLsbD_eq
        intro i hi
        simp
        grind
      have hb : (a ++ b ++ c ++ d).extractLsb' 16 8 = b := by
        apply BitVec.eq_of_getLsbD_eq
        intro i hi
        simp
        grind
      have hc : (a ++ b ++ c ++ d).extractLsb' 8 8 = c := by
        apply BitVec.eq_of_getLsbD_eq
        intro i hi
        simp
        grind
      have hd : (a ++ b ++ c ++ d).extractLsb' 0 8 = d := by
        apply BitVec.eq_of_getLsbD_eq
        intro i hi
        simp
        grind
      simp only [bytesWord, wordBytes]
      rw [ha, hb, hc, hd]

@[simp] theorem wordBytes_length (w : BitVec 32) : (wordBytes w).length = 4 := rfl

theorem wordTable_slice {words : List (BitVec 32)} {i : Nat} {w : BitVec 32}
    (h : words[i]? = some w) (rest : List Byte) :
    ((words.flatMap wordBytes ++ rest).drop (4 * i)).take 4 = wordBytes w := by
  induction words generalizing i with
  | nil =>
      cases h
  | cons v words ih =>
      rw [List.flatMap_cons, List.append_assoc]
      cases i with
      | zero =>
          cases h
          rw [Nat.mul_zero, List.drop_zero]
          exact List.take_left' (wordBytes_length w)
      | succ i =>
          rw [Nat.mul_succ, Nat.add_comm, <- List.drop_drop,
            List.drop_left' (wordBytes_length v)]
          exact ih h

theorem wordTable_length (words : List (BitVec 32)) :
    (words.flatMap wordBytes).length = 4 * words.length := by
  induction words with
  | nil =>
      rfl
  | cons v words ih =>
      rw [List.flatMap_cons, List.length_append, ih, wordBytes_length, List.length_cons]
      omega

end Foundation
end Bab750
