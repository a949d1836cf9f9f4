import Mathlib.Tactic.Common

/-!
# Interactive scripts

A script changes a world and returns, raises, or is still at work when the part of
its run that is looked at ends.  Loops make a bounded number of passes, so that
every finite part of a run is the run of some bound; a statement about all bounds
is a statement about all runs.
-/

namespace Bab750
namespace Foundation

inductive Outcome (E α : Type) where
  | ok (value : α)
  | raised (error : E)
  | running
deriving DecidableEq

/-- A script over worlds `W` with exceptions `E`. -/
def Script (W E α : Type) : Type := W -> Outcome E α × W

inductive Pass (σ α : Type) where
  | again (state : σ)
  | done (value : α)

namespace Script

variable {W E α β γ σ : Type}

protected def pure (value : α) : Script W E α :=
  fun w => (.ok value, w)

protected def bind (script : Script W E α) (rest : α -> Script W E β) : Script W E β :=
  fun w =>
    match script w with
    | (.ok value, u) => rest value u
    | (.raised error, u) => (.raised error, u)
    | (.running, u) => (.running, u)

instance : Monad (Script W E) where
  pure := Script.pure
  bind := Script.bind

def raise (error : E) : Script W E α :=
  fun w => (.raised error, w)

def look (f : W -> α) : Script W E α :=
  fun w => (.ok (f w), w)

def change (f : W -> W) : Script W E Unit :=
  fun w => (.ok (), f w)

def when (condition : Bool) (script : Script W E Unit) : Script W E Unit :=
  if condition then script else pure ()

def loopFrom (body : σ -> Script W E (Pass σ α)) : Nat -> σ -> Script W E α
  | 0, _ => fun w => (.running, w)
  | n + 1, state => do
      match (← body state) with
      | .again next => loopFrom body n next
      | .done value => pure value

def loop (limit : W -> Nat) (body : σ -> Script W E (Pass σ α)) (state : σ) :
    Script W E α :=
  fun w => loopFrom body (limit w) state w

def attempt (caught : E -> Option γ) (script : Script W E α) :
    Script W E (Except γ α) :=
  fun w =>
    match script w with
    | (.ok value, u) => (.ok (.ok value), u)
    | (.raised error, u) =>
        match caught error with
        | some result => (.ok (.error result), u)
        | none => (.raised error, u)
    | (.running, u) => (.running, u)

/-!
# How a script goes on
-/

theorem bind_of_ok {script : Script W E α} {rest : α -> Script W E β} {w u : W} {value : α}
    (h : script w = (.ok value, u)) : (script >>= rest) w = rest value u := by
  show Script.bind script rest w = _
  unfold Script.bind
  rw [h]

theorem bind_of_running {script : Script W E α} {rest : α -> Script W E β} {w u : W}
    (h : script w = (.running, u)) : (script >>= rest) w = (.running, u) := by
  show Script.bind script rest w = _
  unfold Script.bind
  rw [h]

section Passes

variable {body : σ -> Script W E (Pass σ α)} {state next : σ} {w u : W} {value : α}

theorem loopFrom_again (h : body state w = (.ok (.again next), u)) (n : Nat) :
    loopFrom body (n + 1) state w = loopFrom body n next u :=
  bind_of_ok h

theorem loopFrom_done (h : body state w = (.ok (.done value), u)) (n : Nat) :
    loopFrom body (n + 1) state w = (.ok value, u) :=
  bind_of_ok h

theorem loopFrom_running (h : body state w = (.running, u)) (n : Nat) :
    loopFrom body (n + 1) state w = (.running, u) :=
  bind_of_running h

end Passes

/-!
# What holds when a script returns
-/

/-- From a world that meets `pre`, a script that returns meets `post`. -/
def Returns (pre : W -> Prop) (script : Script W E α) (post : α -> W -> Prop) : Prop :=
  forall w value u, pre w -> script w = (.ok value, u) -> post value u

section Returns

variable {pre : W -> Prop} {post : α -> W -> Prop} {final : β -> W -> Prop}

theorem returns_pure {value : α} (h : forall w, pre w -> post value w) :
    Returns pre (pure value : Script W E α) post := by
  intro w other u hw hrun
  rcases Prod.mk.inj hrun with ⟨hvalue, rfl⟩
  rw [← Outcome.ok.inj hvalue]
  exact h w hw

theorem returns_raise {error : E} : Returns pre (raise error : Script W E α) post := by
  intro w value u _ hrun
  cases (Prod.mk.inj hrun).left

theorem returns_look {f : W -> α} (h : forall w, pre w -> post (f w) w) :
    Returns pre (look f : Script W E α) post := by
  intro w other u hw hrun
  rcases Prod.mk.inj hrun with ⟨hvalue, rfl⟩
  rw [← Outcome.ok.inj hvalue]
  exact h w hw

theorem returns_change {f : W -> W} {post : Unit -> W -> Prop}
    (h : forall w, pre w -> post () (f w)) :
    Returns pre (change f : Script W E Unit) post := by
  intro w value u hw hrun
  rcases Prod.mk.inj hrun with ⟨_, rfl⟩
  exact h w hw

theorem returns_weaken {script : Script W E α} {strong : W -> Prop}
    {weak : α -> W -> Prop} (h : Returns pre script post)
    (hpre : forall w, strong w -> pre w)
    (hpost : forall value w, post value w -> weak value w) :
    Returns strong script weak :=
  fun w value u hw hrun => hpost value u (h w value u (hpre w hw) hrun)

theorem bind_eq_ok {script : Script W E α} {rest : α -> Script W E β} {w u : W} {value : β}
    (h : (script >>= rest) w = (.ok value, u)) :
    exists first v, script w = (.ok first, v) ∧ rest first v = (.ok value, u) := by
  change Script.bind script rest w = _ at h
  unfold Script.bind at h
  rcases hrun : script w with ⟨outcome, v⟩
  rw [hrun] at h
  cases outcome with
  | ok first =>
      exact ⟨first, v, rfl, h⟩
  | raised error =>
      cases (Prod.mk.inj h).left
  | running =>
      cases (Prod.mk.inj h).left

theorem returns_bind {script : Script W E α} {rest : α -> Script W E β}
    (hscript : Returns pre script post)
    (hrest : forall value, Returns (post value) (rest value) final) :
    Returns pre (script >>= rest) final := by
  intro w value u hw hrun
  rcases bind_eq_ok hrun with ⟨first, v, hfirst, hsecond⟩
  exact hrest first v value u (hscript w first v hw hfirst) hsecond

theorem returns_of_pure {script : Script W E α} {fact : Prop}
    (h : fact -> Returns pre script post) :
    Returns (fun w => pre w ∧ fact) script post :=
  fun w value u hw hrun => h hw.right w value u hw.left hrun

/-- A pass keeps the invariant, or ends the loop with the postcondition. -/
def passHolds (inv : σ -> W -> Prop) (final : β -> W -> Prop) : Pass σ β -> W -> Prop
  | .again next => inv next
  | .done value => final value

theorem returns_loop {limit : W -> Nat} {body : σ -> Script W E (Pass σ β)}
    (inv : σ -> W -> Prop)
    (hbody : forall state, Returns (inv state) (body state) (passHolds inv final))
    (state : σ) :
    Returns (inv state) (loop limit body state) final := by
  have hfrom : forall n state, Returns (inv state) (loopFrom body n state) final := by
    intro n
    induction n with
    | zero =>
        intro state w value u _ hrun
        cases (Prod.mk.inj hrun).left
    | succ n ih =>
        intro state
        refine returns_bind (hbody state) ?_
        intro pass
        cases pass with
        | again next =>
            exact ih next
        | done value =>
            exact returns_pure (fun _ h => h)
  intro w value u hw hrun
  exact hfrom (limit w) state w value u hw hrun

end Returns

/-!
# What holds however a script ends
-/

/-- From a world that meets `pre`, the last world meets `holds`. -/
def Ensures (pre : W -> Prop) (script : Script W E α) (holds : W -> Prop) : Prop :=
  forall w, pre w -> holds (script w).2

def Keeps (holds : W -> Prop) (script : Script W E α) : Prop :=
  Ensures holds script holds

section Ensures

variable {pre holds : W -> Prop} {post : α -> W -> Prop}

theorem ensures_weaken {script : Script W E α} {strong weak : W -> Prop}
    (h : Ensures pre script holds) (hpre : forall w, strong w -> pre w)
    (hpost : forall w, holds w -> weak w) : Ensures strong script weak :=
  fun w hw => hpost _ (h w (hpre w hw))

theorem ensures_bind {script : Script W E α} {rest : α -> Script W E β}
    (hensures : Ensures pre script holds) (hreturns : Returns pre script post)
    (hrest : forall value, Ensures (post value) (rest value) holds) :
    Ensures pre (script >>= rest) holds := by
  intro w hw
  have hfirst := hensures w hw
  have hreturn := hreturns w
  show holds (Script.bind script rest w).2
  unfold Script.bind
  generalize script w = run at hfirst hreturn
  rcases run with ⟨outcome, u⟩
  cases outcome with
  | ok value =>
      exact hrest value u (hreturn value u hw rfl)
  | raised error =>
      exact hfirst
  | running =>
      exact hfirst

theorem Ensures.returns {script : Script W E α} (h : Ensures pre script holds) :
    Returns pre script (fun _ => holds) := by
  intro w value u hw hrun
  have hlast := h w hw
  rw [hrun] at hlast
  exact hlast

theorem Keeps.returns {script : Script W E α} (h : Keeps holds script) :
    Returns holds script (fun _ => holds) :=
  Ensures.returns h

theorem ensures_of_pure {script : Script W E α} {fact : Prop}
    (h : fact -> Ensures pre script holds) :
    Ensures (fun w => pre w ∧ fact) script holds :=
  fun w hw => h hw.right w hw.left

theorem ensures_bind_keeps {script : Script W E α} {rest : α -> Script W E β}
    (hscript : Keeps pre script) (hweak : forall w, pre w -> holds w)
    (hrest : forall value, Ensures pre (rest value) holds) :
    Ensures pre (script >>= rest) holds :=
  ensures_bind (ensures_weaken hscript (fun _ h => h) hweak) hscript.returns hrest

theorem keeps_pure (value : α) : Keeps holds (pure value : Script W E α) :=
  fun _ h => h

theorem keeps_raise (error : E) : Keeps holds (raise error : Script W E α) :=
  fun _ h => h

theorem keeps_look (f : W -> α) : Keeps holds (look f : Script W E α) :=
  fun _ h => h

theorem keeps_change {f : W -> W} (h : forall w, holds w -> holds (f w)) :
    Keeps holds (change f : Script W E Unit) :=
  h

theorem keeps_bind {script : Script W E α} {rest : α -> Script W E β}
    (hscript : Keeps holds script) (hrest : forall value, Keeps holds (rest value)) :
    Keeps holds (script >>= rest) :=
  ensures_bind hscript hscript.returns hrest

theorem keeps_when {condition : Bool} {script : Script W E Unit}
    (hscript : Keeps holds script) : Keeps holds (when condition script) := by
  unfold when
  split
  · exact hscript
  · exact keeps_pure ()

theorem keeps_loop {limit : W -> Nat} {body : σ -> Script W E (Pass σ β)}
    (hbody : forall state, Keeps holds (body state)) (state : σ) :
    Keeps holds (loop limit body state) := by
  have hfrom : forall n state, Keeps holds (loopFrom body n state) := by
    intro n
    induction n with
    | zero =>
        intro state w hw
        exact hw
    | succ n ih =>
        intro state
        refine keeps_bind (hbody state) ?_
        intro pass
        cases pass with
        | again next =>
            exact ih next
        | done value =>
            exact keeps_pure value
  intro w hw
  exact hfrom (limit w) state w hw

theorem ensures_loop {limit : W -> Nat} {body : σ -> Script W E (Pass σ β)}
    {inv : σ -> W -> Prop} (hbody : forall state, Ensures (inv state) (body state) holds)
    (hreturns : forall state,
      Returns (inv state) (body state) (passHolds inv (fun _ => holds)))
    (hstop : forall state w, inv state w -> holds w) (state : σ) :
    Ensures (inv state) (loop limit body state) holds := by
  have hfrom : forall n state, Ensures (inv state) (loopFrom body n state) holds := by
    intro n
    induction n with
    | zero =>
        intro state w hw
        exact hstop state w hw
    | succ n ih =>
        intro state
        refine ensures_bind (hbody state) (hreturns state) ?_
        intro pass
        cases pass with
        | again next =>
            exact ih next
        | done value =>
            exact fun _ h => h
  intro w hw
  exact hfrom (limit w) state w hw

theorem keeps_attempt {caught : E -> Option γ} {script : Script W E α}
    (hscript : Keeps holds script) : Keeps holds (attempt caught script) := by
  intro w hw
  have hlast := hscript w hw
  unfold attempt
  generalize script w = run at hlast
  rcases run with ⟨outcome, u⟩
  cases outcome with
  | ok value =>
      exact hlast
  | raised error =>
      dsimp only
      cases caught error with
      | some result =>
          exact hlast
      | none =>
          exact hlast
  | running =>
      exact hlast

end Ensures

/-!
# What holds at every end and at a return
-/

/-- From `pre`, the last world meets `holds`, and `post` too if the script returns. -/
structure Meets (holds pre : W -> Prop) (script : Script W E α) (post : α -> W -> Prop) :
    Prop where
  ensures : Ensures pre script holds
  returns : Returns pre script post

section Meets

variable {holds pre : W -> Prop} {post : α -> W -> Prop} {final : β -> W -> Prop}

theorem meets_pure {value : α} (hpre : forall w, pre w -> holds w)
    (h : forall w, pre w -> post value w) :
    Meets holds pre (pure value : Script W E α) post :=
  ⟨hpre, returns_pure h⟩

theorem meets_raise {error : E} (hpre : forall w, pre w -> holds w) :
    Meets holds pre (raise error : Script W E α) post :=
  ⟨hpre, returns_raise⟩

theorem meets_look {f : W -> α} (hpre : forall w, pre w -> holds w)
    (h : forall w, pre w -> post (f w) w) : Meets holds pre (look f : Script W E α) post :=
  ⟨hpre, returns_look h⟩

theorem Keeps.meets {script : Script W E α} (h : Keeps pre script)
    (hpre : forall w, pre w -> holds w) : Meets holds pre script (fun _ => pre) :=
  ⟨ensures_weaken h (fun _ hw => hw) hpre, h.returns⟩

theorem Ensures.meets {script : Script W E α} (h : Ensures pre script holds)
    (hreturns : Returns pre script post) :
    Meets holds pre script (fun value w => holds w ∧ post value w) :=
  ⟨h, fun w value u hw hrun => ⟨h.returns w value u hw hrun, hreturns w value u hw hrun⟩⟩

theorem meets_weaken {script : Script W E α} {strong : W -> Prop} {weak : α -> W -> Prop}
    (h : Meets holds pre script post) (hpre : forall w, strong w -> pre w)
    (hpost : forall value w, post value w -> weak value w) :
    Meets holds strong script weak :=
  ⟨ensures_weaken h.ensures hpre (fun _ hw => hw), returns_weaken h.returns hpre hpost⟩

theorem meets_bind {script : Script W E α} {rest : α -> Script W E β}
    (hscript : Meets holds pre script post)
    (hrest : forall value, Meets holds (post value) (rest value) final) :
    Meets holds pre (script >>= rest) final :=
  ⟨ensures_bind hscript.ensures hscript.returns (fun value => (hrest value).ensures),
    returns_bind hscript.returns (fun value => (hrest value).returns)⟩

theorem meets_ite {condition : Prop} [Decidable condition] {first second : Script W E α}
    (hfirst : Meets holds pre first post) (hsecond : Meets holds pre second post) :
    Meets holds pre (if condition then first else second) post := by
  split
  · exact hfirst
  · exact hsecond

theorem meets_loop {limit : W -> Nat} {body : σ -> Script W E (Pass σ β)}
    (inv : σ -> W -> Prop) (hinv : forall state w, inv state w -> holds w)
    (hbody : forall state, Meets holds (inv state) (body state) (passHolds inv final))
    (state : σ) : Meets holds (inv state) (loop limit body state) final := by
  refine ⟨ensures_loop (fun state => (hbody state).ensures) ?_ hinv state,
    returns_loop inv (fun state => (hbody state).returns) state⟩
  intro state w pass u hw hrun
  have hlast := (hbody state).ensures w hw
  rw [hrun] at hlast
  cases pass with
  | again next =>
      exact (hbody state).returns w _ u hw hrun
  | done value =>
      exact hlast

end Meets

/-!
# Runs from related worlds
-/

/-- From related worlds a script ends alike, in related worlds, with a good value. -/
def Agrees (rel : W -> W -> Prop) (script : Script W E α) (good : α -> Prop) : Prop :=
  forall w v, rel w v -> (script w).1 = (script v).1 ∧ rel (script w).2 (script v).2 ∧
    forall value, (script w).1 = .ok value -> good value

section Agrees

variable {rel : W -> W -> Prop} {good : α -> Prop} {fine : β -> Prop}

theorem agrees_pure {value : α} (h : good value) :
    Agrees rel (pure value : Script W E α) good := by
  intro w v hrel
  refine ⟨rfl, hrel, ?_⟩
  intro other hother
  rw [← Outcome.ok.inj hother]
  exact h

theorem agrees_raise {error : E} : Agrees rel (raise error : Script W E α) good :=
  fun _ _ hrel => ⟨rfl, hrel, fun _ h => nomatch h⟩

theorem agrees_look {f : W -> α} (hsame : forall w v, rel w v -> f w = f v)
    (h : forall w v, rel w v -> good (f w)) :
    Agrees rel (look f : Script W E α) good := by
  intro w v hrel
  refine ⟨congrArg Outcome.ok (hsame w v hrel), hrel, ?_⟩
  intro other hother
  rw [← Outcome.ok.inj hother]
  exact h w v hrel

theorem agrees_change {f : W -> W} {good : Unit -> Prop}
    (hrel : forall w v, rel w v -> rel (f w) (f v)) (h : good ()) :
    Agrees rel (change f : Script W E Unit) good :=
  fun w v hw => ⟨rfl, hrel w v hw, fun _ _ => h⟩

theorem agrees_bind {script : Script W E α} {rest : α -> Script W E β}
    (hscript : Agrees rel script good)
    (hrest : forall value, good value -> Agrees rel (rest value) fine) :
    Agrees rel (script >>= rest) fine := by
  intro w v hrel
  rcases hscript w v hrel with ⟨hsame, hlast, hgood⟩
  change (Script.bind script rest w).1 = (Script.bind script rest v).1 ∧
    rel (Script.bind script rest w).2 (Script.bind script rest v).2 ∧
      forall value, (Script.bind script rest w).1 = .ok value -> fine value
  unfold Script.bind
  generalize script w = first at hsame hlast hgood
  generalize script v = second at hsame hlast
  rcases first with ⟨outcome, w'⟩
  rcases second with ⟨other, v'⟩
  change outcome = other at hsame
  subst hsame
  cases outcome with
  | ok value =>
      exact hrest value (hgood value rfl) w' v' hlast
  | raised error =>
      exact ⟨rfl, hlast, fun _ h => nomatch h⟩
  | running =>
      exact ⟨rfl, hlast, fun _ h => nomatch h⟩

theorem agrees_when {condition : Bool} {script : Script W E Unit} {good : Unit -> Prop}
    (hscript : Agrees rel script good) (h : good ()) :
    Agrees rel (when condition script) good := by
  unfold when
  split
  · exact hscript
  · exact agrees_pure h

theorem agrees_ite {condition : Prop} [Decidable condition] {first second : Script W E α}
    (hfirst : Agrees rel first good) (hsecond : Agrees rel second good) :
    Agrees rel (if condition then first else second) good := by
  split
  · exact hfirst
  · exact hsecond

def goodPass (good : σ -> Prop) (fine : β -> Prop) : Pass σ β -> Prop
  | .again next => good next
  | .done value => fine value

theorem agrees_loop {limit : W -> Nat} {body : σ -> Script W E (Pass σ β)}
    {good : σ -> Prop} (hlimit : forall w v, rel w v -> limit w = limit v)
    (hbody : forall state, good state -> Agrees rel (body state) (goodPass good fine))
    {state : σ} (hstate : good state) : Agrees rel (loop limit body state) fine := by
  have hfrom : forall n state, good state -> Agrees rel (loopFrom body n state) fine := by
    intro n
    induction n with
    | zero =>
        intro state _ w v hrel
        exact ⟨rfl, hrel, fun _ h => nomatch h⟩
    | succ n ih =>
        intro state hgood
        refine agrees_bind (hbody state hgood) ?_
        intro pass hpass
        cases pass with
        | again next =>
            exact ih next hpass
        | done value =>
            exact agrees_pure hpass
  intro w v hrel
  have hrun := hfrom (limit w) state hstate w v hrel
  show (loopFrom body (limit w) state w).1 = (loopFrom body (limit v) state v).1 ∧ _
  rw [← hlimit w v hrel]
  refine ⟨hrun.left, ?_, hrun.right.right⟩
  show rel _ (loopFrom body (limit v) state v).2
  rw [← hlimit w v hrel]
  exact hrun.right.left

end Agrees

end Script

end Foundation
end Bab750
