import Mathlib.Tactic.Common

/-!
# Runs of a labelled transition system

A component takes one step for each call, packet, or event.  A run is a list of
labels together with the states between them, and an invariant of the single
steps is an invariant of every run.
-/

namespace Bab750
namespace Foundation

/-- The steps with the given labels lead from one state to another. -/
inductive Run {State Label : Type} (step : State -> Label -> State -> Prop) :
    State -> List Label -> State -> Prop where
  | nil (s : State) : Run step s [] s
  | cons {s t u : State} {label : Label} {labels : List Label}
      (head : step s label t) (tail : Run step t labels u) :
      Run step s (label :: labels) u

variable {State Label : Type} {step : State -> Label -> State -> Prop}

theorem Run.invariant (holds : State -> Prop)
    (hstep : forall s label t, holds s -> step s label t -> holds t)
    {s t : State} {labels : List Label} (hrun : Run step s labels t)
    (hs : holds s) : holds t := by
  induction hrun with
  | nil s =>
      exact hs
  | cons head tail ih =>
      exact ih (hstep _ _ _ hs head)

theorem Run.snoc {s t u : State} {labels : List Label} {label : Label}
    (hrun : Run step s labels t) (hlast : step t label u) :
    Run step s (labels ++ [label]) u := by
  induction hrun with
  | nil s =>
      exact .cons hlast (.nil u)
  | cons head tail ih =>
      exact .cons head (ih hlast)

theorem Run.mono {other : State -> Label -> State -> Prop}
    (hstep : forall s label t, step s label t -> other s label t)
    {s t : State} {labels : List Label} (hrun : Run step s labels t) :
    Run other s labels t := by
  induction hrun with
  | nil s =>
      exact .nil s
  | cons head tail ih =>
      exact .cons (hstep _ _ _ head) ih

/-!
# Runs of a function

Where each label has one next state, the labels alone tell the run.
-/

def Allowed (ok : State -> Label -> Prop) (next : State -> Label -> State) :
    State -> List Label -> Prop
  | _, [] => True
  | s, label :: labels => ok s label ∧ Allowed ok next (next s label) labels

def decideAllowed (ok : State -> Label -> Prop) [forall s label, Decidable (ok s label)]
    (next : State -> Label -> State) :
    forall (labels : List Label) (s : State), Decidable (Allowed ok next s labels)
  | [], _ => isTrue trivial
  | label :: labels, s =>
      @instDecidableAnd _ _ _ (decideAllowed ok next labels (next s label))

instance (ok : State -> Label -> Prop) [forall s label, Decidable (ok s label)]
    (next : State -> Label -> State) (s : State) (labels : List Label) :
    Decidable (Allowed ok next s labels) :=
  decideAllowed ok next labels s

theorem Run.of_allowed {ok : State -> Label -> Prop} {next : State -> Label -> State}
    (hstep : forall s label, ok s label -> step s label (next s label))
    {s : State} {labels : List Label} (hallowed : Allowed ok next s labels) :
    Run step s labels (labels.foldl next s) := by
  induction labels generalizing s with
  | nil =>
      exact .nil s
  | cons label labels ih =>
      rcases hallowed with ⟨hlabel, hrest⟩
      exact .cons (hstep s label hlabel) (ih hrest)

end Foundation
end Bab750
