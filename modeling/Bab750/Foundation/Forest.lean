import Mathlib.Data.List.Infix

/-!
# Forests that are laid out one after the other

A forest is a list of nodes, each with the forest behind it. When its nodes take their ranges
from a cursor that only moves up, and the window of a node begins and ends where the cursor is
in front of and behind the forest behind the node, then a window holds the ranges behind its
node and no others.
-/

namespace Bab750
namespace Foundation

universe u v

inductive Forest (α : Type u) where
  | empty
  | node (value : α) (behind rest : Forest α)
deriving DecidableEq

/-- From a node to the first one behind it, or to the next one. -/
inductive ForestStep where
  | down
  | next
deriving DecidableEq

/-- The way to a node from the first node of a forest. -/
abbrev Position := List ForestStep

variable {α : Type u} {β : Type v}

def Forest.at? : Forest α -> Position -> Option α
  | .empty, _ => none
  | .node value _ _, [] => some value
  | .node _ behind _, .down :: p => behind.at? p
  | .node _ _ rest, .next :: p => rest.at? p

def Forest.map (f : α -> β) : Forest α -> Forest β
  | .empty => .empty
  | .node value behind rest => .node (f value) (behind.map f) (rest.map f)

def Forest.toList : Forest α -> List α
  | .empty => []
  | .node value behind rest => value :: (behind.toList ++ rest.toList)

theorem Forest.mem_of_at? {forest : Forest α} {p : Position} {value : α}
    (h : forest.at? p = some value) : value ∈ forest.toList := by
  induction forest generalizing p with
  | empty => cases h
  | node value' behind rest ihb ihr =>
      cases p with
      | nil =>
          cases h
          exact List.mem_cons_self
      | cons step p =>
          cases step with
          | down => exact List.mem_cons_of_mem _ (List.mem_append_left _ (ihb h))
          | next => exact List.mem_cons_of_mem _ (List.mem_append_right _ (ihr h))

/-- The second node is behind the first, at any depth. -/
def Behind (p q : Position) : Prop := p ++ [.down] <+: q

instance (p q : Position) : Decidable (Behind p q) := inferInstanceAs (Decidable (_ <+: _))

@[simp] theorem behind_nil_nil : ¬ Behind [] [] := by
  decide

@[simp] theorem behind_nil_down (q : Position) : Behind [] (.down :: q) := ⟨q, rfl⟩

@[simp] theorem behind_nil_next (q : Position) : ¬ Behind [] (.next :: q) := by
  intro h
  cases (List.cons_prefix_cons.mp h).1

@[simp] theorem behind_cons_nil (s : ForestStep) (p : Position) : ¬ Behind (s :: p) [] := by
  intro h
  cases List.prefix_nil.mp h

@[simp] theorem behind_cons (s t : ForestStep) (p q : Position) :
    Behind (s :: p) (t :: q) <-> s = t ∧ Behind p q :=
  List.cons_prefix_cons

/-- A range of numbers, from the first to behind the last. -/
structure Span where
  first : Nat
  limit : Nat
deriving DecidableEq

def Span.Has (a : Span) (n : Nat) : Prop := a.first ≤ n ∧ n < a.limit

def Span.Inside (a b : Span) : Prop := b.first ≤ a.first ∧ a.limit ≤ b.limit

def Span.Apart (a b : Span) : Prop := forall n, a.Has n -> ¬ b.Has n

theorem Span.apart_of_le {a b : Span} (h : a.limit ≤ b.first) : a.Apart b :=
  fun _ ha hb => absurd (Nat.lt_of_lt_of_le ha.2 (Nat.le_trans h hb.1)) (Nat.lt_irrefl _)

theorem Span.Apart.symm {a b : Span} (h : a.Apart b) : b.Apart a :=
  fun n hb ha => h n ha hb

theorem Span.Apart.mono {a b c d : Span} (h : c.Apart d) (ha : a.Inside c) (hb : b.Inside d) :
    a.Apart b :=
  fun n hn hn' => h n ⟨Nat.le_trans ha.1 hn.1, Nat.lt_of_lt_of_le hn.2 ha.2⟩
    ⟨Nat.le_trans hb.1 hn'.1, Nat.lt_of_lt_of_le hn'.2 hb.2⟩

/-- The forest takes its spans between two positions of the cursor. -/
inductive LaidOut (spans : α -> List Span) (window : α -> Option Span) :
    Forest α -> Nat -> Nat -> Prop
  | empty {c c' : Nat} (h : c ≤ c') : LaidOut spans window .empty c c'
  | node {value : α} {behind rest : Forest α} {c c₁ c₂ c₃ c' : Nat}
      (hspans : forall s, s ∈ spans value -> c ≤ s.first ∧ s.limit ≤ c₁) (hown : c ≤ c₁)
      (halign : c₁ ≤ c₂) (hwindow : forall w, window value = some w -> w = ⟨c₂, c₃⟩)
      (hbehind : LaidOut spans window behind c₂ c₃) (hrest : LaidOut spans window rest c₃ c') :
      LaidOut spans window (.node value behind rest) c c'

section LaidOut

variable {spans : α -> List Span} {window : α -> Option Span} {forest : Forest α} {c c' : Nat}

theorem LaidOut.le (h : LaidOut spans window forest c c') : c ≤ c' := by
  induction h with
  | empty h => exact h
  | node _ hown halign _ _ _ hbehind hrest => omega

theorem LaidOut.bounds (h : LaidOut spans window forest c c') {p : Position} {value : α}
    (hvalue : forest.at? p = some value) :
    (forall s, s ∈ spans value -> c ≤ s.first ∧ s.limit ≤ c') ∧
      forall w, window value = some w -> c ≤ w.first ∧ w.first ≤ w.limit ∧ w.limit ≤ c' := by
  induction h generalizing p with
  | empty =>
      cases hvalue
  | @node value' behind rest c c₁ c₂ c₃ c' hspans hown halign hwindow hbehind hrest ihb ihr =>
      have hin := hbehind.le
      have hout := hrest.le
      cases p with
      | nil =>
          cases hvalue
          constructor
          · intro s hs
            have hs' := hspans s hs
            omega
          · intro w hw
            rw [hwindow w hw]
            dsimp only
            omega
      | cons step p =>
          cases step with
          | down =>
              rcases ihb hvalue with ⟨hall, hwin⟩
              constructor
              · intro s hs
                have hs' := hall s hs
                omega
              · intro w hw
                have hw' := hwin w hw
                omega
          | next =>
              rcases ihr hvalue with ⟨hall, hwin⟩
              constructor
              · intro s hs
                have hs' := hall s hs
                omega
              · intro w hw
                have hw' := hwin w hw
                omega

theorem LaidOut.inside (h : LaidOut spans window forest c c') {p q : Position} {v u : α}
    {w : Span} (hv : forest.at? p = some v) (hw : window v = some w) (hu : forest.at? q = some u)
    (hbehind : Behind p q) :
    (forall s, s ∈ spans u -> s.Inside w) ∧ forall w', window u = some w' -> w'.Inside w := by
  induction h generalizing p q with
  | empty =>
      cases hv
  | @node value behind rest c c₁ c₂ c₃ c' hspans hown halign hwindow hbelow hrest ihb ihr =>
      cases p with
      | nil =>
          cases hv
          cases q with
          | nil =>
              exact absurd hbehind behind_nil_nil
          | cons step q =>
              cases step with
              | next =>
                  exact absurd hbehind (behind_nil_next q)
              | down =>
                  rw [hwindow w hw]
                  have hbounds := hbelow.bounds hu
                  exact ⟨hbounds.1, fun w' hw' =>
                    ⟨(hbounds.2 w' hw').1, (hbounds.2 w' hw').2.2⟩⟩
      | cons step p =>
          cases q with
          | nil =>
              exact absurd hbehind (behind_cons_nil step p)
          | cons step' q =>
              rcases (behind_cons step step' p q).mp hbehind with ⟨rfl, hbehind'⟩
              cases step with
              | down => exact ihb hv hu hbehind'
              | next => exact ihr hv hu hbehind'

/-- A window holds no span of a node that is not behind its node. -/
theorem LaidOut.outside (h : LaidOut spans window forest c c') {p q : Position} {v u : α}
    {w : Span} (hv : forest.at? p = some v) (hw : window v = some w) (hu : forest.at? q = some u)
    (hbehind : ¬ Behind p q) : forall s, s ∈ spans u -> s.Apart w := by
  induction h generalizing p q with
  | empty =>
      cases hv
  | @node value behind rest c c₁ c₂ c₃ c' hspans hown halign hwindow hbelow hrest ihb ihr =>
      have hin := hbelow.le
      intro s hs
      cases p with
      | nil =>
          cases hv
          rw [hwindow w hw]
          cases q with
          | nil =>
              cases hu
              exact Span.apart_of_le (Nat.le_trans (hspans s hs).2 halign)
          | cons step q =>
              cases step with
              | down =>
                  exact absurd (behind_nil_down q) hbehind
              | next =>
                  exact (Span.apart_of_le ((hrest.bounds hu).1 s hs).1).symm
      | cons step p =>
          -- the window is in the forest behind the node or in the rest
          cases step with
          | down =>
              have hwindows := (hbelow.bounds hv).2 w hw
              cases q with
              | nil =>
                  cases hu
                  have hs' := hspans s hs
                  exact Span.apart_of_le (by omega)
              | cons step' q =>
                  cases step' with
                  | down =>
                      exact ihb hv hu (fun h => hbehind ((behind_cons _ _ p q).mpr ⟨rfl, h⟩)) s hs
                  | next =>
                      have hs' := (hrest.bounds hu).1 s hs
                      exact (Span.apart_of_le (by omega)).symm
          | next =>
              have hwindows := (hrest.bounds hv).2 w hw
              cases q with
              | nil =>
                  cases hu
                  have hs' := hspans s hs
                  exact Span.apart_of_le (by omega)
              | cons step' q =>
                  cases step' with
                  | down =>
                      have hs' := (hbelow.bounds hu).1 s hs
                      exact Span.apart_of_le (by omega)
                  | next =>
                      exact ihr hv hu (fun h => hbehind ((behind_cons _ _ p q).mpr ⟨rfl, h⟩)) s hs

def LaidNode (spans : α -> List Span) (window : α -> Option Span) (value : α)
    (behind : Forest α) (c c' : Nat) : Prop :=
  exists c₁ c₂, (forall s, s ∈ spans value -> c ≤ s.first ∧ s.limit ≤ c₁) ∧ c ≤ c₁ ∧ c₁ ≤ c₂ ∧
    (forall w, window value = some w -> w = ⟨c₂, c'⟩) ∧ LaidOut spans window behind c₂ c'

theorem LaidOut.cons {value : α} {behind rest : Forest α} {c'' : Nat}
    (hnode : LaidNode spans window value behind c c') (hrest : LaidOut spans window rest c' c'') :
    LaidOut spans window (.node value behind rest) c c'' := by
  rcases hnode with ⟨c₁, c₂, hspans, hown, halign, hwindow, hbehind⟩
  exact .node hspans hown halign hwindow hbehind hrest

end LaidOut

end Foundation
end Bab750
