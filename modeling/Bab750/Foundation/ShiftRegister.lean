import Mathlib.Data.BitVec
import Mathlib.Data.List.GetD

/-!
# Registers with feedback

A register that moves down by one place for each bit of its input, and takes a polynomial
in whenever the bit that falls out differs from the bit that comes in.
-/

namespace Bab750
namespace Foundation

variable {w : Nat} {poly : BitVec w}

def feedbackBit (poly accu : BitVec w) (bit : Bool) : BitVec w :=
  if bit != accu.getLsbD 0 then (accu >>> 1) ^^^ poly else accu >>> 1

def feedbackBits (poly accu : BitVec w) (bits : List Bool) : BitVec w :=
  bits.foldl (feedbackBit poly) accu

theorem feedbackBits_append (accu : BitVec w) (first second : List Bool) :
    feedbackBits poly accu (first ++ second) =
      feedbackBits poly (feedbackBits poly accu first) second := List.foldl_append

theorem feedbackBit_getLsbD (accu : BitVec w) (bit : Bool) (i : Nat) :
    (feedbackBit poly accu bit).getLsbD i =
      (accu.getLsbD (i + 1) ^^ ((bit != accu.getLsbD 0) && poly.getLsbD i)) := by
  unfold feedbackBit
  split
  case isTrue h =>
      rw [BitVec.getLsbD_xor, BitVec.getLsbD_ushiftRight, h, Bool.true_and, Nat.add_comm 1 i]
  case isFalse h =>
      rw [BitVec.getLsbD_ushiftRight, Bool.eq_false_of_not_eq_true h, Bool.false_and,
        Bool.xor_false, Nat.add_comm 1 i]

/-!
# Inputs that are loaded at once

A register takes an exclusive or with its whole input at once, and then moves down without one.
-/

/-- The input stands in the low bits of a register. -/
def Loads (bits : List Bool) (loaded : BitVec w) : Prop :=
  forall i, i < w -> loaded.getLsbD i = bits.getD i false

theorem feedbackBit_load {accu loaded : BitVec w} {bit : Bool}
    (hbit : loaded.getLsbD 0 = bit) :
    feedbackBit poly (accu ^^^ loaded) false = feedbackBit poly accu bit ^^^ (loaded >>> 1) := by
  apply BitVec.eq_of_getLsbD_eq
  intro i _
  rw [BitVec.getLsbD_xor, feedbackBit_getLsbD, feedbackBit_getLsbD, BitVec.getLsbD_xor,
    BitVec.getLsbD_xor, BitVec.getLsbD_ushiftRight, hbit, Nat.add_comm 1 i]
  cases accu.getLsbD (i + 1) <;> cases loaded.getLsbD (i + 1) <;> cases bit <;>
    cases accu.getLsbD 0 <;> cases poly.getLsbD i <;> rfl

theorem feedbackBits_load {bits : List Bool} (hlength : bits.length <= w)
    {accu loaded : BitVec w} (hloaded : Loads bits loaded) :
    feedbackBits poly accu bits =
      feedbackBits poly (accu ^^^ loaded) (List.replicate bits.length false) := by
  induction bits generalizing accu loaded with
  | nil =>
      have hzero : loaded = 0#w := by
        apply BitVec.eq_of_getLsbD_eq
        intro i hi
        rw [hloaded i hi, BitVec.getLsbD_zero]
        rfl
      rw [hzero, BitVec.xor_zero]
      rfl
  | cons bit bits ih =>
      rw [List.length_cons] at hlength
      have hfirst : loaded.getLsbD 0 = bit := hloaded 0 (by omega)
      have hrest : Loads bits (loaded >>> 1) := by
        intro i hi
        rw [BitVec.getLsbD_ushiftRight]
        by_cases hlast : 1 + i < w
        · rw [hloaded _ hlast, Nat.add_comm 1 i, List.getD_cons_succ]
        · rw [BitVec.getLsbD_of_ge _ _ (by omega), List.getD_eq_default _ _ (by omega)]
      rw [List.length_cons, List.replicate_succ]
      calc feedbackBits poly accu (bit :: bits)
          = feedbackBits poly (feedbackBit poly accu bit) bits := rfl
        _ = feedbackBits poly (feedbackBit poly accu bit ^^^ (loaded >>> 1))
              (List.replicate bits.length false) := ih (by omega) hrest
        _ = feedbackBits poly (feedbackBit poly (accu ^^^ loaded) false)
              (List.replicate bits.length false) := by rw [feedbackBit_load hfirst]

theorem feedbackBits_high (n : Nat) {accu high : BitVec w}
    (hlow : forall i, i < n -> high.getLsbD i = false) :
    feedbackBits poly (accu ^^^ high) (List.replicate n false) =
      feedbackBits poly accu (List.replicate n false) ^^^ (high >>> n) := by
  induction n generalizing accu high with
  | zero =>
      rw [BitVec.ushiftRight_zero]
      rfl
  | succ n ih =>
      have hrest : forall i, i < n -> (high >>> 1).getLsbD i = false := by
        intro i hi
        rw [BitVec.getLsbD_ushiftRight]
        exact hlow _ (by omega)
      rw [List.replicate_succ]
      calc feedbackBits poly (accu ^^^ high) (false :: List.replicate n false)
          = feedbackBits poly (feedbackBit poly (accu ^^^ high) false)
              (List.replicate n false) := rfl
        _ = feedbackBits poly (feedbackBit poly accu false ^^^ (high >>> 1))
              (List.replicate n false) := by rw [feedbackBit_load (hlow 0 (by omega))]
        _ = feedbackBits poly (feedbackBit poly accu false) (List.replicate n false) ^^^
              ((high >>> 1) >>> n) := ih hrest
        _ = feedbackBits poly accu (false :: List.replicate n false) ^^^ (high >>> (n + 1)) := by
            rw [← BitVec.shiftRight_add, Nat.add_comm 1 n]
            rfl

/-!
# Polynomials with a top coefficient

Then the top bit of the register tells whether the polynomial was taken in, so a step can be
undone.
-/

section Top

variable (htop : poly.getLsbD (w - 1) = true)

include htop

theorem feedbackBit_top (accu : BitVec w) (bit : Bool) :
    (feedbackBit poly accu bit).getLsbD (w - 1) = (bit != accu.getLsbD 0) := by
  have hout : accu.getLsbD (w - 1 + 1) = false := BitVec.getLsbD_of_ge accu _ (by omega)
  rw [feedbackBit_getLsbD, hout, htop, Bool.and_true, Bool.false_xor]

/-- Registers that agree at the top and from some place on agreed from the place above it on. -/
theorem feedbackBit_agree {a b : BitVec w} {x y : Bool} {n : Nat}
    (htopAgree : (feedbackBit poly a x).getLsbD (w - 1) =
      (feedbackBit poly b y).getLsbD (w - 1))
    (hagree : forall i, n <= i ->
      (feedbackBit poly a x).getLsbD i = (feedbackBit poly b y).getLsbD i) :
    forall i, n + 1 <= i -> a.getLsbD i = b.getLsbD i := by
  rw [feedbackBit_top htop, feedbackBit_top htop] at htopAgree
  intro i hi
  have hbit := hagree (i - 1) (by omega)
  rw [feedbackBit_getLsbD, feedbackBit_getLsbD, htopAgree, Nat.sub_add_cancel (by omega)] at hbit
  exact Bool.xor_left_inj.mp hbit

/-- Equal registers behind a short input agreed above its length, whatever the bits were. -/
theorem feedbackBits_agree (xs : List Bool) :
    forall (ys : List Bool) (a b : BitVec w), xs.length = ys.length -> xs.length <= w ->
      feedbackBits poly a xs = feedbackBits poly b ys ->
      forall i, xs.length <= i -> a.getLsbD i = b.getLsbD i := by
  induction xs with
  | nil =>
      intro ys a b hlength _ heq i _
      cases ys with
      | nil =>
          rw [show a = b from heq]
      | cons y ys =>
          cases hlength
  | cons x xs ih =>
      intro ys a b hlength hw heq
      cases ys with
      | nil =>
          cases hlength
      | cons y ys =>
          rw [List.length_cons] at hw
          have hrest := ih ys (feedbackBit poly a x) (feedbackBit poly b y)
            (Nat.succ.inj hlength) (by omega) heq
          exact feedbackBit_agree htop (hrest (w - 1) (by omega)) hrest

theorem feedbackBit_injective {a b : BitVec w} {bit : Bool}
    (h : feedbackBit poly a bit = feedbackBit poly b bit) : a = b := by
  have hzero := congrArg (fun v => v.getLsbD (w - 1)) h
  simp only [feedbackBit_top htop] at hzero
  have habove : forall i, 0 + 1 <= i -> a.getLsbD i = b.getLsbD i :=
    feedbackBit_agree htop (congrArg (fun v => v.getLsbD (w - 1)) h)
      (fun i _ => congrArg (fun v => v.getLsbD i) h)
  apply BitVec.eq_of_getLsbD_eq
  intro i _
  cases i with
  | zero =>
      exact Bool.bne_right_inj.mp hzero
  | succ i =>
      exact habove (i + 1) (by omega)

theorem feedbackBits_injective (bits : List Bool) :
    forall a b : BitVec w, feedbackBits poly a bits = feedbackBits poly b bits -> a = b := by
  induction bits with
  | nil =>
      intro a b h
      exact h
  | cons bit bits ih =>
      intro a b h
      exact feedbackBit_injective htop (ih _ _ h)

/-- Inputs that differ first in some bit and agree `w` places later give different registers. -/
theorem feedbackBits_burst_head (hw : 0 < w) {x y : Bool} (hxy : x ≠ y) {xs ys : List Bool}
    (hlength : xs.length = ys.length) (hbehind : xs.drop (w - 1) = ys.drop (w - 1))
    (accu : BitVec w) :
    feedbackBits poly accu (x :: xs) ≠ feedbackBits poly accu (y :: ys) := by
  intro h
  change feedbackBits poly (feedbackBit poly accu x) xs =
    feedbackBits poly (feedbackBit poly accu y) ys at h
  rw [← List.take_append_drop (w - 1) xs, ← List.take_append_drop (w - 1) ys, hbehind,
    feedbackBits_append, feedbackBits_append] at h
  have hfront := feedbackBits_injective htop _ _ _ h
  have htake : (xs.take (w - 1)).length <= w - 1 := List.length_take_le _ _
  have hagree := feedbackBits_agree htop (xs.take (w - 1)) (ys.take (w - 1)) _ _
    (by rw [List.length_take, List.length_take, hlength]) (by omega) hfront (w - 1) htake
  rw [feedbackBit_top htop, feedbackBit_top htop] at hagree
  exact hxy (Bool.bne_left_inj.mp hagree)

theorem feedbackBits_burst (hw : 0 < w) (xs : List Bool) :
    forall (ys : List Bool) (start : Nat) (accu : BitVec w), xs.length = ys.length -> xs ≠ ys ->
      (forall i, i < start ∨ start + w <= i -> xs[i]? = ys[i]?) ->
      feedbackBits poly accu xs ≠ feedbackBits poly accu ys := by
  induction xs with
  | nil =>
      intro ys start accu hlength hne _
      exact absurd (List.length_eq_zero_iff.mp hlength.symm).symm hne
  | cons x xs ih =>
      intro ys start accu hlength hne hagree
      cases ys with
      | nil =>
          cases hlength
      | cons y ys =>
          have hlength' : xs.length = ys.length := Nat.succ.inj hlength
          by_cases hxy : x = y
          · subst hxy
            apply ih ys (start - 1) (feedbackBit poly accu x) hlength'
              (fun h => hne (by rw [h]))
            intro i hi
            have hnext := hagree (i + 1) (by omega)
            rwa [List.getElem?_cons_succ, List.getElem?_cons_succ] at hnext
          · have hstart : start = 0 := by
              by_contra hpos
              have hfirst := hagree 0 (by omega)
              rw [List.getElem?_cons_zero, List.getElem?_cons_zero, Option.some.injEq] at hfirst
              exact hxy hfirst
            apply feedbackBits_burst_head htop hw hxy hlength'
            apply List.ext_getElem?
            intro i
            have hnext := hagree (w + i) (by omega)
            rw [show w + i = w - 1 + i + 1 by omega, List.getElem?_cons_succ,
              List.getElem?_cons_succ] at hnext
            rw [List.getElem?_drop, List.getElem?_drop, hnext]

end Top

end Foundation
end Bab750
