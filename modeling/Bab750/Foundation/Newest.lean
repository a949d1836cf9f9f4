import Mathlib.Data.List.MinMax

/-!
# The newest element of a list

An element with the greatest key, and the last one of these.
-/

namespace Bab750
namespace Foundation

variable {α κ : Type} [LinearOrder κ]

/-- The last one of the elements with the greatest key. -/
def newest (key : α -> κ) (l : List α) : Option α := l.reverse.argmax key

/-- An element takes the place of an older one, or of one that is as old. -/
def newer (key : α -> κ) : Option α -> α -> Option α
  | none, a => some a
  | some best, a => if key a < key best then some best else some a

theorem newest_append_singleton (key : α -> κ) (l : List α) (a : α) :
    newest key (l ++ [a]) = newer key (newest key l) a := by
  unfold newest
  rw [List.reverse_append, List.reverse_singleton, List.singleton_append, List.argmax_cons]
  cases List.argmax key l.reverse <;> rfl

theorem newest_eq_none_iff (key : α -> κ) (l : List α) : newest key l = none <-> l = [] := by
  unfold newest
  rw [List.argmax_eq_none, List.reverse_eq_nil_iff]

theorem newest_mem (key : α -> κ) {l : List α} {a : α} (h : newest key l = some a) : a ∈ l :=
  List.mem_reverse.mp (List.argmax_mem h)

theorem le_newest (key : α -> κ) {l : List α} {a b : α} (h : newest key l = some a)
    (hb : b ∈ l) : key b ≤ key a :=
  List.le_of_mem_argmax (List.mem_reverse.mpr hb) h

/-- An element that is not older than the others is the newest one behind them. -/
theorem newest_of_le (key : α -> κ) {l : List α} {a : α} (h : forall b, b ∈ l -> key b ≤ key a) :
    newest key (l ++ [a]) = some a := by
  rw [newest_append_singleton]
  cases hbest : newest key l with
  | none => rfl
  | some b => exact if_neg (not_lt_of_ge (h b (newest_mem key hbest)))

theorem newest_filter (key : α -> κ) (p : α -> Bool) {l : List α} {a : α}
    (h : newest key l = some a) (hp : p a = true) : newest key (l.filter p) = some a := by
  induction l using List.reverseRecOn generalizing a with
  | nil => cases h
  | append_singleton l c ih =>
      have hle := fun b (hb : b ∈ l) => le_newest key h (List.mem_append_left [c] hb)
      rw [newest_append_singleton] at h
      rw [List.filter_append]
      cases hbest : newest key l with
      | none =>
          rw [hbest] at h
          rw [(newest_eq_none_iff key l).mp hbest, Option.some.inj h, List.filter_cons_of_pos hp]
          rfl
      | some b =>
          rw [hbest] at h
          by_cases hlt : key c < key b
          · have heq : b = a := Option.some.inj ((if_pos hlt).symm.trans h)
            rw [heq] at hbest hlt
            cases hc : p c with
            | false => simpa [hc] using ih hbest hp
            | true =>
                rw [List.filter_cons_of_pos hc, List.filter_nil, newest_append_singleton,
                  ih hbest hp]
                exact if_pos hlt
          · have heq : c = a := Option.some.inj ((if_neg hlt).symm.trans h)
            rw [heq, List.filter_cons_of_pos hp]
            exact newest_of_le key (fun d hd => hle d (List.mem_filter.mp hd).1)

/-!
# Loops that look for the newest element
-/

/--
A loop over a list looks for the newest element with a property: what it says of the best element
so far, it says in the end of the newest one.
-/
theorem foldl_newest {β σ : Type} (key : α -> κ) (f : β -> α) (p : α -> Prop) [DecidablePred p]
    (Says : Option α -> σ -> Prop) (step : σ -> β -> σ) {l : List β}
    (hstep : forall b, b ∈ l -> forall best st, Says best st ->
      Says (if p (f b) then newer key best (f b) else best) (step st b))
    {st : σ} (h : Says none st) :
    Says (newest key ((l.map f).filter p)) (l.foldl step st) := by
  induction l using List.reverseRecOn with
  | nil => exact h
  | append_singleton l b ih =>
      have hlast := hstep b (by simp) _ _ (ih (fun c hc => hstep c (List.mem_append_left _ hc)))
      rw [List.foldl_append, List.map_append, List.map_singleton, List.filter_append,
        List.filter_singleton]
      by_cases hb : p (f b)
      · rw [if_pos hb] at hlast
        rw [decide_eq_true hb, cond_true, newest_append_singleton]
        exact hlast
      · rw [if_neg hb] at hlast
        rw [decide_eq_false hb, cond_false, List.append_nil]
        exact hlast

def BestKey (key : α -> Nat) (best : Option α) (version : Nat) : Prop :=
  version = (best.map key).getD 0

variable {key : α -> Nat} {best : Option α} {version : Nat} {a : α}

theorem BestKey.old (h : BestKey key best version) (hlt : key a < version) :
    newer key best a = best := by
  unfold BestKey at h
  cases best with
  | none => exact absurd (h ▸ hlt) (Nat.not_lt_zero _)
  | some b =>
      rw [h] at hlt
      exact if_pos hlt

theorem BestKey.new (h : BestKey key best version) (hlt : ¬ key a < version) :
    newer key best a = some a := by
  unfold BestKey at h
  cases best with
  | none => rfl
  | some b =>
      rw [h] at hlt
      exact if_neg hlt

end Foundation
end Bab750
