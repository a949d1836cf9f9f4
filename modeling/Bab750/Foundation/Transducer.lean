import Mathlib.Tactic.Common

/-!
# Transducers

A machine that reads one symbol after the other and answers each with some output.
-/

namespace Bab750
namespace Foundation

variable {State Input Output : Type}

/-- The output for a whole input, and the state behind it. -/
def feed (step : State -> Input -> List Output × State) (s : State) :
    List Input -> List Output × State
  | [] => ([], s)
  | c :: rest =>
      ((step s c).1 ++ (feed step (step s c).2 rest).1, (feed step (step s c).2 rest).2)

variable {step : State -> Input -> List Output × State}

theorem feed_append (s : State) (first second : List Input) :
    feed step s (first ++ second) =
      ((feed step s first).1 ++ (feed step (feed step s first).2 second).1,
        (feed step (feed step s first).2 second).2) := by
  induction first generalizing s with
  | nil =>
      rfl
  | cons c rest ih =>
      rw [List.cons_append, feed, ih, feed]
      dsimp only
      rw [List.append_assoc]

end Foundation
end Bab750
