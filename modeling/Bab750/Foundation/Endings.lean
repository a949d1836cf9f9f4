import Bab750.Foundation.Script

/-!
# What holds at each kind of end

A condition on the outcome together with the last world, for scripts whose runs are told apart by
how they end.
-/

namespace Bab750
namespace Foundation
namespace Script

variable {W E α β σ : Type}

/-- From `pre`, the outcome and the last world meet `post`. -/
def Ends (pre : W -> Prop) (script : Script W E α) (post : Outcome E α -> W -> Prop) : Prop :=
  forall w, pre w -> post (script w).1 (script w).2

/-- `mid` at a return, and otherwise what is to hold of the script that goes on. -/
def goesOn (mid : α -> W -> Prop) (post : Outcome E β -> W -> Prop) : Outcome E α -> W -> Prop
  | .ok value, w => mid value w
  | .raised error, w => post (.raised error) w
  | .running, w => post .running w

section Ends

variable {pre : W -> Prop} {post : Outcome E β -> W -> Prop}

theorem ends_of_eq {script : Script W E α} {post : Outcome E α -> W -> Prop}
    (h : forall w, pre w -> exists outcome u, script w = (outcome, u) ∧ post outcome u) :
    Ends pre script post := by
  intro w hw
  rcases h w hw with ⟨outcome, u, hrun, hpost⟩
  rw [hrun]
  exact hpost

theorem ends_bind {script : Script W E α} {rest : α -> Script W E β} (mid : α -> W -> Prop)
    (hscript : Ends pre script (goesOn mid post))
    (hrest : forall value, Ends (mid value) (rest value) post) :
    Ends pre (script >>= rest) post := by
  intro w hw
  have hfirst := hscript w hw
  show post (Script.bind script rest w).1 (Script.bind script rest w).2
  unfold Script.bind
  generalize script w = run at hfirst
  rcases run with ⟨outcome, u⟩
  cases outcome with
  | ok value =>
      exact hrest value u hfirst
  | raised error =>
      exact hfirst
  | running =>
      exact hfirst

/-- A pass of a loop: the invariant for another pass, or the end of the loop. -/
def passEnds (inv : σ -> W -> Prop) (post : Outcome E β -> W -> Prop) :
    Outcome E (Pass σ β) -> W -> Prop :=
  goesOn (passHolds inv (fun value => post (.ok value))) post

theorem ends_loop (limit : W -> Nat) {body : σ -> Script W E (Pass σ β)}
    {inv : σ -> W -> Prop}
    (hbody : forall state, Ends (inv state) (body state) (passEnds inv post))
    (hstop : forall state w, inv state w -> post .running w) (state : σ) :
    Ends (inv state) (loop limit body state) post := by
  have hfrom : forall n state, Ends (inv state) (loopFrom body n state) post := by
    intro n
    induction n with
    | zero =>
        intro state w hw
        exact hstop state w hw
    | succ n ih =>
        intro state
        refine ends_bind _ (hbody state) ?_
        intro pass
        cases pass with
        | again next =>
            exact ih next
        | done value =>
            exact fun _ h => h
  intro w hw
  exact hfrom (limit w) state w hw

end Ends

end Script
end Foundation
end Bab750
