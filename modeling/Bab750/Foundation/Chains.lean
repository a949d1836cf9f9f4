import Mathlib.Data.Set.Finite.Basic
import Mathlib.Logic.Relation

/-!
# Chains that come back

Where only finitely many things have a next one, the chains from a thing are finite if and only
if they come to nothing that they come to again.
-/

namespace Bab750
namespace Foundation

universe u

open Relation

variable {α : Type u} {next : α -> α -> Prop} {a b : α}

/-- A chain from `a` comes to something that it comes to again. -/
def ComesBack (next : α -> α -> Prop) (a : α) : Prop :=
  exists b, ReflTransGen next a b ∧ TransGen next b b

def ChainsEnd (next : α -> α -> Prop) (a : α) : Prop :=
  Acc (fun y x => next x y) a

theorem ComesBack.step (h : ComesBack next a) : exists b, next a b ∧ ComesBack next b := by
  rcases h with ⟨c, hreach, hcycle⟩
  rcases ReflTransGen.cases_head hreach with rfl | ⟨b, hstep, hrest⟩
  · rcases TransGen.head'_iff.mp hcycle with ⟨b, hstep, hrest⟩
    exact ⟨b, hstep, a, hrest, hcycle⟩
  · exact ⟨b, hstep, c, hrest, hcycle⟩

theorem reached_card_lt {places : Finset α} [DecidablePred (TransGen next a)]
    [DecidablePred (TransGen next b)] (hstep : next a b) (hb : b ∈ places)
    (hcycle : ¬ TransGen next b b) :
    (places.filter (TransGen next b)).card < (places.filter (TransGen next a)).card := by
  apply Finset.card_lt_card
  rw [Finset.ssubset_iff_of_subset]
  · refine ⟨b, Finset.mem_filter.mpr ⟨hb, .single hstep⟩, ?_⟩
    rw [Finset.mem_filter]
    exact fun hmem => hcycle hmem.2
  · intro c hc
    rw [Finset.mem_filter] at hc ⊢
    exact ⟨hc.1, .head hstep hc.2⟩

theorem unseen_card_lt [DecidableEq α] {things : Finset α} {seen seen' : List α}
    (ha : a ∈ things) (hnew : a ∉ seen) (hseen : seen' = seen ++ [a]) :
    (things.filter (fun b => b ∉ seen')).card < (things.filter (fun b => b ∉ seen)).card := by
  apply Finset.card_lt_card
  rw [Finset.ssubset_iff_of_subset]
  · refine ⟨a, Finset.mem_filter.mpr ⟨ha, hnew⟩, ?_⟩
    rw [Finset.mem_filter, hseen]
    exact fun hmem => hmem.2 (List.mem_append_right _ (List.mem_singleton_self a))
  · intro b hb
    rw [Finset.mem_filter, hseen] at hb
    exact Finset.mem_filter.mpr ⟨hb.1, fun hold => hb.2 (List.mem_append_left _ hold)⟩

theorem chainsEnd_of_not_comesBack {places : Set α} (hfinite : places.Finite)
    (hplaces : forall a b, next a b -> a ∈ places) (h : ¬ ComesBack next a) :
    ChainsEnd next a := by
  classical
  have hall : forall n b, (hfinite.toFinset.filter (TransGen next b)).card < n ->
      ReflTransGen next a b -> ChainsEnd next b := by
    intro n
    induction n with
    | zero =>
        intro b hcard
        exact absurd hcard (Nat.not_lt_zero _)
    | succ n ih =>
        intro b hcard hreach
        constructor
        intro c hstep
        have hreach' : ReflTransGen next a c := hreach.tail hstep
        by_cases hc : c ∈ places
        · have hcycle : ¬ TransGen next c c := fun hcycle => h ⟨c, hreach', hcycle⟩
          have hless := reached_card_lt hstep (hfinite.mem_toFinset.mpr hc) hcycle
          exact ih c (Nat.lt_of_lt_of_le hless (Nat.le_of_lt_succ hcard)) hreach'
        · -- nothing comes after it
          exact ⟨c, fun d hd => absurd (hplaces c d hd) hc⟩
  exact hall _ a (Nat.lt_succ_self _) .refl

end Foundation
end Bab750
