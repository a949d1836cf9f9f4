import Bab750.Foundation.Chains
import Bab750.Staging.StageTree
import Mathlib.Data.Set.Finite.Lattice
import Mathlib.Data.Set.Finite.List

/-!
# Chains of links

How `copy_relpath` and `resolve_real_source_path` come to an end. There are finitely many paths
that the system takes, so that the set of copied paths stops the one on every host; the other
goes around when the links of a path come back to it.
-/

namespace Bab750
namespace Staging

open Foundation

variable {Content : Type} {source stage : FilePlace FileName}

/-- The function has returned, or raised `SystemExit`. -/
def Outcome.Expected {α : Type} : Outcome α -> Prop
  | .running => False
  | .raised exception => exception = .systemExit
  | .returned _ => True

theorem Outcome.Expected.ne_running {α : Type} {outcome : Outcome α} (h : outcome.Expected) :
    outcome ≠ .running := by
  intro heq
  rw [heq] at h
  exact h

/-!
# The paths that the system takes
-/

theorem slashedLength_finite (bound : Nat) :
    {names : List FileName | slashedLength names < bound}.Finite := by
  induction bound with
  | zero =>
      refine Set.finite_empty.subset ?_
      intro names hnames
      exact absurd hnames (Nat.not_lt_zero _)
  | succ bound ih =>
      have hbytes : Finite Byte :=
        Finite.of_injective BitVec.toFin (fun _ _ => BitVec.eq_of_toFin_eq)
      have hfirst : {n : FileName | n.length < bound + 1}.Finite := List.finite_length_lt _ _
      refine ((Set.Finite.image2 List.cons hfirst ih).insert []).subset ?_
      intro names hnames
      cases names with
      | nil => exact Set.mem_insert _ _
      | cons n names =>
          have hsum : n.length + 1 + slashedLength names < bound + 1 := hnames
          have hn : n.length < bound + 1 := by omega
          have hrest : slashedLength names < bound := by omega
          exact Set.mem_insert_of_mem _ ⟨n, hn, names, hrest, rfl⟩

theorem fits_finite (source : FilePlace FileName) : {p : PurePath | p.Fits source}.Finite := by
  have hstarts : ({Start.root} ∪ Start.above '' {ups | ups < pathMax}).Finite :=
    (Set.finite_singleton _).union ((Set.finite_lt_nat pathMax).image _)
  have hnames := slashedLength_finite pathMax
  refine (Set.Finite.image2 PurePath.mk hstarts hnames).subset ?_
  rintro ⟨start, names⟩ hfits
  unfold PurePath.Fits PurePath.textLength at hfits
  cases start with
  | root =>
      exact ⟨.root, Or.inl rfl, names, hfits, rfl⟩
  | above ups =>
      have hlength : slashedLength source + 3 * ups + slashedLength names < pathMax := hfits
      have hups : ups < pathMax := by omega
      have hshort : slashedLength names < pathMax := by omega
      exact ⟨.above ups, Or.inr ⟨ups, hups, rfl⟩, names, hshort, rfl⟩

/-!
# `copy_relpath`
-/

section Copy

variable {p q next : PurePath} {s s' t : Stage Content}

theorem copyOnce_follows (h : copyOnce source stage p s = (.follows next, s')) :
    p.Fits source ∧ p ∉ s.copied ∧ s'.copied = s.copied ++ [p] := by
  unfold copyOnce at h
  split at h
  · cases h
  · rename_i hnew
    split at h
    · cases h
    · rename_i h₁ place node hread
      have hfits : p.Fits source := (readSource_found.mp (congrArg Prod.snd hread)).1
      split at h
      · cases h
      · split at h
        · cases h
        · rw [← (Prod.mk.inj h).2]
          exact ⟨hfits, hnew, rfl⟩

theorem copyRelpath_stops {paths : Finset PurePath}
    (hpaths : forall q, q.Fits source -> q ∈ paths) (fuel : Nat) (p : PurePath)
    (s : Stage Content)
    (hfuel : (paths.filter (fun q => q ∉ s.copied)).card < fuel) :
    (copyRelpath source stage fuel p s).1 ≠ .running := by
  induction fuel generalizing p s with
  | zero =>
      exact absurd hfuel (Nat.not_lt_zero _)
  | succ fuel ih =>
      rw [copyRelpath]
      rcases hstep : copyOnce source stage p s with ⟨step, s'⟩
      cases step with
      | returned =>
          intro h
          cases h
      | raised exception =>
          intro h
          cases h
      | follows next =>
          rcases copyOnce_follows hstep with ⟨hfits, hnew, hcopied⟩
          apply ih
          have hless := unseen_card_lt (hpaths p hfits) hnew hcopied
          omega

theorem copyRelpath_halts (source stage : FilePlace FileName) (p : PurePath)
    (s : Stage Content) : exists fuel, (copyRelpath source stage fuel p s).1 ≠ .running :=
  ⟨_, copyRelpath_stops (fun _ hq => (fits_finite source).mem_toFinset.mpr hq) _ p s
    (Nat.lt_succ_self _)⟩

theorem copyRelpath_more {fuel fuel' : Nat}
    (h : (copyRelpath source stage fuel p s).1 ≠ .running) (hle : fuel ≤ fuel') :
    copyRelpath source stage fuel' p s = copyRelpath source stage fuel p s := by
  induction fuel generalizing p s fuel' with
  | zero =>
      exact absurd rfl h
  | succ fuel ih =>
      cases fuel' with
      | zero => exact absurd hle (Nat.not_succ_le_zero _)
      | succ fuel' =>
          rw [copyRelpath] at h
          rw [copyRelpath, copyRelpath]
          rcases hstep : copyOnce source stage p s with ⟨step, s'⟩
          rw [hstep] at h
          cases step with
          | returned => rfl
          | raised exception => rfl
          | follows next => exact ih h (Nat.le_of_succ_le_succ hle)

/-- What the source has for a path can be put into the stage, if it is not copied yet. -/
def Copyable (source stage : FilePlace FileName) (p : PurePath) (s : Stage Content) : Prop :=
  p ∉ s.copied -> forall h place node,
    s.host.readSource source p = (h, some (place, node)) ->
      exists h', h.mkdirAll (p.parent.base stage) p.parent.parts = (h', true) ∧
        (writeCopy stage p place node h').2 = true

theorem copyOnce_raised {exception : Exception} (hcopyable : Copyable source stage p s)
    (h : copyOnce source stage p s = (.raised exception, s')) : exception = .systemExit := by
  unfold copyOnce at h
  split at h
  · cases h
  · rename_i hnew
    split at h
    · cases h
      rfl
    · rename_i h₁ place node hread
      rcases hcopyable hnew h₁ place node hread with ⟨h₂, hparent, hwritten⟩
      rw [hparent] at h
      dsimp only at h
      split at h
      · rename_i h₃ hcopy
        rw [hcopy] at hwritten
        cases hwritten
      · cases node with
        | dir => cases h
        | file content => cases h
        | link target => cases h

theorem copyOnce_fails (h : ¬ Copyable source stage p s) :
    (copyOnce source stage p s).1 = .raised .osError := by
  by_contra hother
  apply h
  intro hnew h₁ place node hread
  unfold copyOnce at hother
  rw [if_neg hnew, hread] at hother
  dsimp only at hother
  split at hother
  · exact absurd rfl hother
  · rename_i h₂ hparent
    refine ⟨h₂, hparent, ?_⟩
    split at hother
    · exact absurd rfl hother
    · rename_i h₃ hcopy
      rw [hcopy]

theorem copyRelpath_expected_iff :
    (exists fuel, (copyRelpath source stage fuel p s).1.Expected) <->
    forall q t, CopyVisits source stage p s q t -> Copyable source stage q t := by
  constructor
  · rintro ⟨fuel, hfuel⟩ q t hvisits
    induction hvisits generalizing fuel with
    | first p s =>
        by_contra hfails
        cases fuel with
        | zero => exact hfuel
        | succ fuel =>
            rw [copyRelpath] at hfuel
            rcases hstep : copyOnce source stage p s with ⟨step, s'⟩
            have hraised := copyOnce_fails hfails
            rw [hstep] at hraised hfuel
            cases hraised
            cases hfuel
    | next hstep _ ih =>
        cases fuel with
        | zero => exact False.elim hfuel
        | succ fuel =>
            rw [copyRelpath, hstep] at hfuel
            exact ih fuel hfuel
  · intro hcopyable
    rcases copyRelpath_halts source stage p s with ⟨fuel, hhalts⟩
    refine ⟨fuel, ?_⟩
    induction fuel generalizing p s with
    | zero =>
        exact absurd rfl hhalts
    | succ fuel ih =>
        rw [copyRelpath] at hhalts ⊢
        rcases hstep : copyOnce source stage p s with ⟨step, s'⟩
        rw [hstep] at hhalts
        cases step with
        | returned => trivial
        | raised exception => exact copyOnce_raised (hcopyable p s (.first p s)) hstep
        | follows next => exact ih (fun q t hvisits => hcopyable q t (.next hstep hvisits)) hhalts

end Copy

/-!
# `resolve_real_source_path`
-/

section Resolve

variable {p q : PurePath} {h : Host Content}

def LinksTo (tree : FileTree FileName Content) (source : FilePlace FileName)
    (p q : PurePath) : Prop :=
  exists place target, p.Fits source ∧ Found tree source p place (.link target) ∧
    q = resolveSymlinkRelpath p target

/-- The links of a path lead to a path that they lead to again. -/
def LinksComeBack (tree : FileTree FileName Content) (source : FilePlace FileName)
    (p : PurePath) : Prop :=
  ComesBack (LinksTo tree source) p

theorem resolve_link (hlink : LinksTo h.tree source p q) :
    exists h', h'.tree = h.tree ∧ forall fuel, resolveRealSourcePath source (fuel + 1) p h =
      resolveRealSourcePath source fuel q h' := by
  rcases hlink with ⟨place, target, hfits, hfound, rfl⟩
  rcases hread : h.readSource source p with ⟨h', found⟩
  have hsome := readSource_found.mpr ⟨hfits, hfound⟩
  rw [hread] at hsome
  refine ⟨h', Host.readSource_tree hread, fun fuel => ?_⟩
  rw [resolveRealSourcePath, hread, show found = _ from hsome]

theorem resolve_end (hend : forall q, ¬ LinksTo h.tree source p q) (fuel : Nat) :
    (resolveRealSourcePath source (fuel + 1) p h).1.Expected := by
  rw [resolveRealSourcePath]
  split
  · rfl
  · rename_i h' place target hread
    rcases readSource_found.mp (congrArg Prod.snd hread) with ⟨hfits, hfound⟩
    exact absurd ⟨place, target, hfits, hfound, rfl⟩ (hend _)
  · trivial

theorem resolve_running (hback : LinksComeBack h.tree source p) (fuel : Nat) :
    (resolveRealSourcePath source fuel p h).1 = .running := by
  induction fuel generalizing p h with
  | zero => rfl
  | succ fuel ih =>
      rcases hback.step with ⟨q, hlink, hmore⟩
      rcases resolve_link hlink with ⟨h', htree, hpass⟩
      rw [hpass]
      apply ih
      rw [htree]
      exact hmore

theorem linksEnd {tree : FileTree FileName Content} (hback : ¬ LinksComeBack tree source p) :
    ChainsEnd (LinksTo tree source) p := by
  refine chainsEnd_of_not_comesBack (fits_finite source) ?_ hback
  rintro a b ⟨place, target, hfits, _⟩
  exact hfits

theorem resolve_halts {tree : FileTree FileName Content}
    (hends : ChainsEnd (LinksTo tree source) p) : forall h : Host Content, h.tree = tree ->
      exists fuel, (resolveRealSourcePath source fuel p h).1.Expected := by
  unfold ChainsEnd at hends
  induction hends with
  | intro p _ ih =>
      intro h htree
      rw [← htree] at ih
      by_cases hlinks : exists q, LinksTo h.tree source p q
      · rcases hlinks with ⟨q, hlink⟩
        rcases resolve_link hlink with ⟨h', htree', hpass⟩
        rcases ih q hlink h' htree' with ⟨fuel, hfuel⟩
        refine ⟨fuel + 1, ?_⟩
        rw [hpass]
        exact hfuel
      · exact ⟨1, resolve_end (fun q hlink => hlinks ⟨q, hlink⟩) 0⟩

/-- The loop is left, with the path or with `SystemExit`, iff no path comes back. -/
theorem resolve_expected_iff :
    (exists fuel, (resolveRealSourcePath source fuel p h).1.Expected) <->
    ¬ LinksComeBack h.tree source p := by
  constructor
  · rintro ⟨fuel, hfuel⟩ hback
    exact hfuel.ne_running (resolve_running hback fuel)
  · intro hback
    exact resolve_halts (linksEnd hback) h rfl

end Resolve

end Staging
end Bab750
