import Bab750.Staging.LinkChains

/-!
# When staging comes to an end

Every pass of `copy_binary_runtime` inspects another path or leaves one less in the queue, so
that a run ends when each of its steps does. What a run comes to are the activations of
`copy_relpath`, the paths that `resolve_real_source_path` is called for, and the files that
`readelf` is started on.
-/

namespace Bab750
namespace Staging

open Foundation

variable {readelf : List Byte -> Option ElfInfo} {source stage : FilePlace FileName}
  {p : PurePath} {w w' : Worklist}

inductive Event where
  | copies (relPath : PurePath) (s : Stage (List Byte))
  | resolves (relPath : PurePath) (h : Host (List Byte))
  | inspects (content : List Byte)

/-- The run that goes on from here comes to the event. -/
inductive ComesTo (readelf : List Byte -> Option ElfInfo) (source stage : FilePlace FileName) :
    Worklist -> Event -> Prop
  | copies {w : Worklist} {p q : PurePath} {t : Stage (List Byte)}
      (hlast : w.queue.getLast? = some p) (hvisits : CopyVisits source stage p w.stage q t) :
      ComesTo readelf source stage w (.copies q t)
  | resolves {w : Worklist} {p : PurePath} {s : Stage (List Byte)} {fuel : Nat}
      (hlast : w.queue.getLast? = some p)
      (hcopy : copyRelpath source stage fuel p w.stage = (.returned (), s)) :
      ComesTo readelf source stage w (.resolves p s.host)
  | inspects {w : Worklist} {p real : PurePath} {s : Stage (List Byte)} {h : Host (List Byte)}
      {place : FilePlace FileName} {content : List Byte} {fuel : Nat}
      (hlast : w.queue.getLast? = some p)
      (hcopy : copyRelpath source stage fuel p w.stage = (.returned (), s))
      (hresolve : resolveRealSourcePath source fuel p s.host = (.returned (real, place), h))
      (hnew : real ∉ w.inspected) (helf : isElfFile h.tree place = some content) :
      ComesTo readelf source stage w (.inspects content)
  | pass {w w' : Worklist} {p : PurePath} {event : Event} {chain : Nat}
      (hlast : w.queue.getLast? = some p)
      (hpass : copyAndInspect readelf source stage chain p
        { w with queue := w.queue.dropLast } = (.returned (), w'))
      (h : ComesTo readelf source stage w' event) : ComesTo readelf source stage w event

/--
What is copied can be put into the stage, the links of a path do not come back, and `readelf`
accepts the file.
-/
def Event.Good (readelf : List Byte -> Option ElfInfo) (source stage : FilePlace FileName) :
    Event -> Prop
  | .copies relPath s => Copyable source stage relPath s
  | .resolves relPath h => ¬ LinksComeBack h.tree source relPath
  | .inspects content => readelf content ≠ none

/-!
# One pass
-/

theorem resolve_more {h : Host (List Byte)} {fuel fuel' : Nat}
    (hruns : (resolveRealSourcePath source fuel p h).1 ≠ .running) (hle : fuel ≤ fuel') :
    resolveRealSourcePath source fuel' p h = resolveRealSourcePath source fuel p h := by
  induction fuel generalizing p h fuel' with
  | zero =>
      exact absurd rfl hruns
  | succ fuel ih =>
      cases fuel' with
      | zero => exact absurd hle (Nat.not_succ_le_zero _)
      | succ fuel' =>
          by_cases hlinks : exists q, LinksTo h.tree source p q
          · rcases hlinks with ⟨q, hlink⟩
            rcases resolve_link hlink with ⟨h', _, hpass⟩
            rw [hpass] at hruns
            rw [hpass, hpass]
            exact ih hruns (Nat.le_of_succ_le_succ hle)
          · rw [resolveRealSourcePath, resolveRealSourcePath]
            split
            · rfl
            · rename_i h' place target hread
              rcases readSource_found.mp (congrArg Prod.snd hread) with ⟨hfits, hfound⟩
              exact absurd ⟨_, place, target, hfits, hfound, rfl⟩ hlinks
            · rfl

theorem resolve_fits {h h' : Host (List Byte)} {fuel : Nat} {real : PurePath}
    {place : FilePlace FileName}
    (hrun : resolveRealSourcePath source fuel p h = (.returned (real, place), h')) :
    real.Fits source := by
  induction fuel generalizing p h with
  | zero => cases hrun
  | succ fuel ih =>
      rw [resolveRealSourcePath] at hrun
      split at hrun
      · cases hrun
      · exact ih hrun
      · rename_i h₁ place' node _ hread
        have hfits := (readSource_found.mp (congrArg Prod.snd hread)).1
        cases hrun
        exact hfits

theorem queueLibraries_expected (sonames : List FileName) (w : Worklist) :
    (queueLibraries source sonames w).1.Expected := by
  induction sonames generalizing w with
  | nil => trivial
  | cons soname sonames ih =>
      rw [queueLibraries]
      split
      · rfl
      · exact ih _

theorem queueLibraries_inspected {sonames : List FileName} {u : Unit}
    (hrun : queueLibraries source sonames w = (.returned u, w')) :
    w'.inspected = w.inspected := by
  induction sonames generalizing w with
  | nil =>
      cases hrun
      rfl
  | cons soname sonames ih =>
      rw [queueLibraries] at hrun
      split at hrun
      · cases hrun
      · have hmore := ih hrun
        exact hmore

theorem copyRelpath_same {s : Stage (List Byte)} {fuel fuel' : Nat}
    (h : (copyRelpath source stage fuel p s).1 ≠ .running)
    (h' : (copyRelpath source stage fuel' p s).1 ≠ .running) :
    copyRelpath source stage fuel' p s = copyRelpath source stage fuel p s := by
  rcases Nat.le_total fuel fuel' with hle | hle
  · exact copyRelpath_more h hle
  · exact (copyRelpath_more h' hle).symm

theorem resolve_same {h : Host (List Byte)} {fuel fuel' : Nat}
    (hruns : (resolveRealSourcePath source fuel p h).1 ≠ .running)
    (hruns' : (resolveRealSourcePath source fuel' p h).1 ≠ .running) :
    resolveRealSourcePath source fuel' p h = resolveRealSourcePath source fuel p h := by
  rcases Nat.le_total fuel fuel' with hle | hle
  · exact resolve_more hruns hle
  · exact (resolve_more hruns' hle).symm

structure PassGood (readelf : List Byte -> Option ElfInfo) (source stage : FilePlace FileName)
    (p : PurePath) (w : Worklist) : Prop where
  copies : forall q t, CopyVisits source stage p w.stage q t -> Copyable source stage q t
  resolves : forall fuel s, copyRelpath source stage fuel p w.stage = (.returned (), s) ->
    ¬ LinksComeBack s.host.tree source p
  inspects : forall fuel s real place h content,
    copyRelpath source stage fuel p w.stage = (.returned (), s) ->
    resolveRealSourcePath source fuel p s.host = (.returned (real, place), h) ->
    real ∉ w.inspected -> isElfFile h.tree place = some content -> readelf content ≠ none

theorem inspect_expected {chain : Nat}
    (h : (inspect readelf source chain p w).1.Expected) :
    (resolveRealSourcePath source chain p w.stage.host).1.Expected := by
  unfold inspect at h
  split at h
  · exact False.elim h
  · rename_i exception h' hresolve
    rw [hresolve]
    exact h
  · rename_i hresolve
    rw [hresolve]
    trivial

theorem copyAndInspect_expected {chain : Nat}
    (h : (copyAndInspect readelf source stage chain p w).1.Expected) :
    (copyRelpath source stage chain p w.stage).1.Expected := by
  unfold copyAndInspect at h
  split at h
  · rename_i hcopy
    rw [hcopy]
    trivial
  · rename_i hcopy
    rw [hcopy]
    exact h

theorem passGood_of_expected {chain : Nat}
    (h : (copyAndInspect readelf source stage chain p w).1.Expected) :
    PassGood readelf source stage p w := by
  have hcopied := copyAndInspect_expected h
  have hback : forall fuel s, copyRelpath source stage fuel p w.stage = (.returned (), s) ->
      (inspect readelf source chain p { w with stage := s }).1.Expected := by
    intro fuel s hcopy
    have hreturned : (copyRelpath source stage fuel p w.stage).1 ≠ .running := by
      rw [hcopy]
      exact Outcome.Expected.ne_running trivial
    have hsame := copyRelpath_same hreturned hcopied.ne_running
    unfold copyAndInspect at h
    rw [hsame, hcopy] at h
    exact h
  refine ⟨copyRelpath_expected_iff.mp ⟨chain, hcopied⟩, ?_, ?_⟩
  · intro fuel s hcopy
    exact resolve_expected_iff.mp ⟨chain, inspect_expected (hback fuel s hcopy)⟩
  · intro fuel s real place h' content hcopy hresolve hnew helf hnone
    have hinspected := hback fuel s hcopy
    have hreturned : (resolveRealSourcePath source fuel p s.host).1 ≠ .running := by
      rw [hresolve]
      exact Outcome.Expected.ne_running trivial
    have hsame := resolve_same hreturned (inspect_expected hinspected).ne_running
    unfold inspect at hinspected
    rw [hsame, hresolve] at hinspected
    dsimp only at hinspected
    rw [if_neg hnew, helf] at hinspected
    dsimp only at hinspected
    rw [hnone] at hinspected
    cases hinspected

theorem expected_of_passGood (h : PassGood readelf source stage p w) :
    exists chain, (copyAndInspect readelf source stage chain p w).1.Expected := by
  rcases copyRelpath_expected_iff.mpr h.copies with ⟨fuel, hcopied⟩
  rcases hcopy : copyRelpath source stage fuel p w.stage with ⟨outcome, s⟩
  rw [hcopy] at hcopied
  cases outcome with
  | running => exact False.elim hcopied
  | raised exception =>
      refine ⟨fuel, ?_⟩
      unfold copyAndInspect
      rw [hcopy]
      exact hcopied
  | returned u =>
      cases u
      have hreturned : (copyRelpath source stage fuel p w.stage).1 ≠ .running := by
        rw [hcopy]
        exact hcopied.ne_running
      rcases resolve_expected_iff.mpr (h.resolves fuel s hcopy) with ⟨links, hresolved⟩
      have hcopy' := copyRelpath_more hreturned (Nat.le_max_left fuel links)
      have hresolve' := resolve_more hresolved.ne_running (Nat.le_max_right fuel links)
      rw [hcopy] at hcopy'
      refine ⟨max fuel links, ?_⟩
      unfold copyAndInspect
      rw [hcopy']
      dsimp only
      unfold inspect
      rcases hrun : resolveRealSourcePath source links p s.host with ⟨outcome, h'⟩
      rw [hrun] at hresolve' hresolved
      rw [hresolve']
      cases outcome with
      | running => exact False.elim hresolved
      | raised exception => exact hresolved
      | returned found =>
          rcases found with ⟨real, place⟩
          dsimp only
          split
          · trivial
          · rename_i hnew
            split
            · trivial
            · rename_i content helf
              split
              · rename_i hnone
                exact absurd hnone
                  (h.inspects _ s real place h' content hcopy' hresolve' hnew helf)
              · exact queueLibraries_expected _ _

theorem inspect_more {chain chain' : Nat}
    (h : (inspect readelf source chain p w).1 ≠ .running) (hle : chain ≤ chain') :
    inspect readelf source chain' p w = inspect readelf source chain p w := by
  have hresolved : (resolveRealSourcePath source chain p w.stage.host).1 ≠ .running := by
    intro hrunning
    unfold inspect at h
    rcases hrun : resolveRealSourcePath source chain p w.stage.host with ⟨outcome, h'⟩
    rw [hrun] at hrunning h
    rw [show outcome = .running from hrunning] at h
    exact h rfl
  unfold inspect
  rw [resolve_more hresolved hle]

theorem copyAndInspect_more {chain chain' : Nat}
    (h : (copyAndInspect readelf source stage chain p w).1 ≠ .running) (hle : chain ≤ chain') :
    copyAndInspect readelf source stage chain' p w =
      copyAndInspect readelf source stage chain p w := by
  unfold copyAndInspect at h ⊢
  rcases hcopy : copyRelpath source stage chain p w.stage with ⟨outcome, s⟩
  rw [hcopy] at h
  have hcopied : (copyRelpath source stage chain p w.stage).1 ≠ .running := by
    intro hrunning
    rw [hcopy] at hrunning
    rw [show outcome = .running from hrunning] at h
    exact h rfl
  rw [copyRelpath_more hcopied hle, hcopy]
  cases outcome with
  | running => rfl
  | raised exception => rfl
  | returned u => exact inspect_more h hle

theorem runWorklist_more {chain chain' fuel fuel' : Nat}
    (h : (runWorklist readelf source stage chain fuel w).1 ≠ .running) (hchain : chain ≤ chain')
    (hfuel : fuel ≤ fuel') : runWorklist readelf source stage chain' fuel' w =
      runWorklist readelf source stage chain fuel w := by
  induction fuel generalizing w fuel' with
  | zero =>
      exact absurd rfl h
  | succ fuel ih =>
      cases fuel' with
      | zero => exact absurd hfuel (Nat.not_succ_le_zero _)
      | succ fuel' =>
          rw [runWorklist] at h
          rw [runWorklist, runWorklist]
          cases hlast : w.queue.getLast? with
          | none => rfl
          | some p =>
              rw [hlast] at h
              dsimp only at h ⊢
              rcases hpass : copyAndInspect readelf source stage chain p
                { w with queue := w.queue.dropLast } with ⟨outcome, w'⟩
              rw [hpass] at h
              have hpassed : (copyAndInspect readelf source stage chain p
                  { w with queue := w.queue.dropLast }).1 ≠ .running := by
                intro hrunning
                rw [hpass] at hrunning
                rw [show outcome = .running from hrunning] at h
                exact h rfl
              rw [copyAndInspect_more hpassed hchain, hpass]
              cases outcome with
              | running => rfl
              | raised exception => rfl
              | returned u => exact ih h (Nat.le_of_succ_le_succ hfuel)

inductive Progress (source : FilePlace FileName) (w w' : Worklist) : Prop
  | shorter (hqueue : w'.queue = w.queue) (hinspected : w'.inspected = w.inspected)
  | inspected (real : PurePath) (hfits : real.Fits source) (hnew : real ∉ w.inspected)
      (hinspected : w'.inspected = w.inspected ++ [real])

theorem copyAndInspect_progress {chain : Nat} {u : Unit}
    (h : copyAndInspect readelf source stage chain p w = (.returned u, w')) :
    Progress source w w' := by
  unfold copyAndInspect at h
  split at h
  · rename_i s hcopy
    unfold inspect at h
    split at h
    · cases h
    · cases h
    · rename_i real place h' hresolve
      have hfits : real.Fits source := resolve_fits hresolve
      split at h
      · rw [← (Prod.mk.inj h).2]
        exact .shorter rfl rfl
      · rename_i hnew
        split at h
        · rw [← (Prod.mk.inj h).2]
          exact .shorter rfl rfl
        · split at h
          · cases h
          · exact .inspected real hfits hnew (queueLibraries_inspected h)
  · rename_i other s hother hcopy
    exact absurd (Prod.mk.inj h).1 (hother u)

/-!
# Runs
-/

theorem runWorklist_pass {chain fuel : Nat} (hlast : w.queue.getLast? = some p)
    (h : (runWorklist readelf source stage chain (fuel + 1) w).1.Expected) :
    (copyAndInspect readelf source stage chain p
      { w with queue := w.queue.dropLast }).1.Expected ∧
      forall w', copyAndInspect readelf source stage chain p
        { w with queue := w.queue.dropLast } = (.returned (), w') ->
          (runWorklist readelf source stage chain fuel w').1.Expected := by
  rw [runWorklist, hlast] at h
  dsimp only at h
  rcases hpass : copyAndInspect readelf source stage chain p
    { w with queue := w.queue.dropLast } with ⟨outcome, w₁⟩
  rw [hpass] at h
  cases outcome with
  | running => exact False.elim h
  | raised exception =>
      refine ⟨h, ?_⟩
      intro w' hreturned
      cases hreturned
  | returned u =>
      refine ⟨trivial, ?_⟩
      intro w' hreturned
      rw [← (Prod.mk.inj hreturned).2]
      exact h

theorem good_of_expected {event : Event} (hcomes : ComesTo readelf source stage w event)
    {chain fuel : Nat} (h : (runWorklist readelf source stage chain fuel w).1.Expected) :
    event.Good readelf source stage := by
  induction hcomes generalizing fuel with
  | copies hlast hvisits =>
      cases fuel with
      | zero => exact False.elim h
      | succ fuel =>
          exact (passGood_of_expected (runWorklist_pass hlast h).1).copies _ _ hvisits
  | resolves hlast hcopy =>
      cases fuel with
      | zero => exact False.elim h
      | succ fuel =>
          exact (passGood_of_expected (runWorklist_pass hlast h).1).resolves _ _ hcopy
  | inspects hlast hcopy hresolve hnew helf =>
      cases fuel with
      | zero => exact False.elim h
      | succ fuel =>
          exact (passGood_of_expected (runWorklist_pass hlast h).1).inspects _ _ _ _ _ _ hcopy
            hresolve hnew helf
  | @pass w w' p event links hlast hpass _ ih =>
      cases fuel with
      | zero => exact False.elim h
      | succ fuel =>
          rcases runWorklist_pass hlast h with ⟨hpassed, hrest⟩
          have hreturned : (copyAndInspect readelf source stage links p
              { w with queue := w.queue.dropLast }).1 ≠ .running := by
            rw [hpass]
            exact Outcome.Expected.ne_running trivial
          have hsame : copyAndInspect readelf source stage chain p
              { w with queue := w.queue.dropLast } = (.returned (), w') := by
            rcases Nat.le_total links chain with hle | hle
            · rw [copyAndInspect_more hreturned hle, hpass]
            · rw [← copyAndInspect_more hpassed.ne_running hle, hpass]
          exact ih (hrest w' hsame)

theorem passGood_of_good (hlast : w.queue.getLast? = some p)
    (hgood : forall event, ComesTo readelf source stage w event ->
      event.Good readelf source stage) :
    PassGood readelf source stage p { w with queue := w.queue.dropLast } := by
  constructor
  · exact fun q t hvisits => hgood (.copies q t) (.copies hlast hvisits)
  · exact fun fuel s hcopy => hgood (.resolves p s.host) (.resolves hlast hcopy)
  · exact fun fuel s real place h content hcopy hresolve hnew helf =>
      hgood (.inspects content) (.inspects hlast hcopy hresolve hnew helf)

theorem expected_of_rest (hlast : w.queue.getLast? = some p) {chain : Nat}
    (hpass : copyAndInspect readelf source stage chain p { w with queue := w.queue.dropLast } =
      (.returned (), w'))
    (hrest : exists chain fuel, (runWorklist readelf source stage chain fuel w').1.Expected) :
    exists chain fuel, (runWorklist readelf source stage chain fuel w).1.Expected := by
  rcases hrest with ⟨chain', fuel, hends⟩
  refine ⟨max chain chain', fuel + 1, ?_⟩
  have hreturned : (copyAndInspect readelf source stage chain p
      { w with queue := w.queue.dropLast }).1 ≠ .running := by
    rw [hpass]
    exact Outcome.Expected.ne_running trivial
  rw [runWorklist, hlast]
  dsimp only
  rw [copyAndInspect_more hreturned (Nat.le_max_left _ _), hpass]
  dsimp only
  rw [runWorklist_more hends.ne_running (Nat.le_max_right _ _) (Nat.le_refl _)]
  exact hends

/-- The paths that the system takes are inspected once, and the queue is shorter otherwise. -/
theorem expected_of_good (w : Worklist)
    (hgood : forall event, ComesTo readelf source stage w event ->
      event.Good readelf source stage) :
    exists chain fuel, (runWorklist readelf source stage chain fuel w).1.Expected := by
  have hall : forall left queued w, (forall event, ComesTo readelf source stage w event ->
      event.Good readelf source stage) ->
      ((fits_finite source).toFinset.filter (fun q => q ∉ w.inspected)).card < left ->
      w.queue.length < queued ->
      exists chain fuel, (runWorklist readelf source stage chain fuel w).1.Expected := by
    intro left
    induction left with
    | zero =>
        intro queued w _ hleft
        exact absurd hleft (Nat.not_lt_zero _)
    | succ left ihleft =>
        intro queued
        induction queued with
        | zero =>
            intro w _ _ hqueued
            exact absurd hqueued (Nat.not_lt_zero _)
        | succ queued ihqueued =>
            intro w hgood hleft hqueued
            cases hlast : w.queue.getLast? with
            | none =>
                refine ⟨0, 1, ?_⟩
                rw [runWorklist, hlast]
                trivial
            | some p =>
                rcases expected_of_passGood (passGood_of_good hlast hgood) with ⟨chain, hpassed⟩
                rcases hpass : copyAndInspect readelf source stage chain p
                  { w with queue := w.queue.dropLast } with ⟨outcome, w'⟩
                rw [hpass] at hpassed
                cases outcome with
                | running => exact False.elim hpassed
                | raised exception =>
                    refine ⟨chain, 1, ?_⟩
                    rw [runWorklist, hlast]
                    dsimp only
                    rw [hpass]
                    exact hpassed
                | returned u =>
                    have hgood' : forall event, ComesTo readelf source stage w' event ->
                        event.Good readelf source stage :=
                      fun event hcomes => hgood event (.pass hlast hpass hcomes)
                    apply expected_of_rest hlast hpass
                    cases copyAndInspect_progress hpass with
                    | shorter hqueue hinspected =>
                        refine ihqueued w' hgood' ?_ ?_
                        · rw [hinspected]
                          exact hleft
                        · have hpos := List.length_pos_of_mem (List.mem_of_getLast? hlast)
                          have hlength := congrArg List.length hqueue
                          rw [List.length_dropLast] at hlength
                          omega
                    | inspected real hfits hnew hinspected =>
                        have hless := unseen_card_lt
                          ((fits_finite source).mem_toFinset.mpr hfits) hnew hinspected
                        have hleft' : _ < left :=
                          Nat.lt_of_lt_of_le hless (Nat.le_of_lt_succ hleft)
                        exact ihleft _ w' hgood' hleft' (Nat.lt_succ_self _)
  exact hall _ _ w hgood (Nat.lt_succ_self _) (Nat.lt_succ_self _)

/--
`copy_relpath` comes to an end on every host, and returns or raises `SystemExit` if and only if
nothing that it comes to fails to be written; `resolve_real_source_path` does so if and only if
the links of its path do not come back, and `copy_binary_runtime` if and only if all steps that
it comes to are good in this way.
-/
theorem staging_ends_iff (readelf : List Byte -> Option ElfInfo)
    (source stage : FilePlace FileName) :
    (forall relPath (s : Stage (List Byte)),
      (exists fuel, (copyRelpath source stage fuel relPath s).1 ≠ .running) ∧
      ((exists fuel, (copyRelpath source stage fuel relPath s).1.Expected) <->
        forall p t, CopyVisits source stage relPath s p t -> Copyable source stage p t)) ∧
    (forall relPath (h : Host (List Byte)),
      (exists fuel, (resolveRealSourcePath source fuel relPath h).1.Expected) <->
        ¬ LinksComeBack h.tree source relPath) ∧
    forall relPaths (h : Host (List Byte)),
      (exists chain fuel,
        (copyBinaryRuntime readelf source stage chain fuel relPaths h).1.Expected) <->
        forall event, ComesTo readelf source stage ⟨⟨h, []⟩, requestPaths relPaths, []⟩ event ->
          event.Good readelf source stage := by
  refine ⟨?_, ?_, ?_⟩
  · intro relPath s
    exact ⟨copyRelpath_halts source stage relPath s, copyRelpath_expected_iff⟩
  · intro relPath h
    exact resolve_expected_iff
  · intro relPaths h
    constructor
    · rintro ⟨chain, fuel, hends⟩ event hcomes
      exact good_of_expected hcomes hends
    · exact expected_of_good _

/-!
# A link to itself
-/

theorem copyAndInspect_running {fuel : Nat} {s : Stage (List Byte)}
    (hcopy : copyRelpath source stage fuel p w.stage = (.returned (), s))
    (hback : LinksComeBack s.host.tree source p) (chain : Nat) :
    (copyAndInspect readelf source stage chain p w).1 = .running := by
  have hreturned : (copyRelpath source stage fuel p w.stage).1 ≠ .running := by
    rw [hcopy]
    exact Outcome.Expected.ne_running trivial
  unfold copyAndInspect
  by_cases hrunning : (copyRelpath source stage chain p w.stage).1 = .running
  · rcases hrun : copyRelpath source stage chain p w.stage with ⟨outcome, s'⟩
    rw [hrun] at hrunning
    rw [show outcome = .running from hrunning]
  · rw [copyRelpath_same hreturned hrunning, hcopy]
    dsimp only
    unfold inspect
    have hresolve := resolve_running hback chain
    rcases hrun : resolveRealSourcePath source chain p s.host with ⟨outcome, h'⟩
    rw [hrun] at hresolve
    rw [show outcome = .running from hresolve]

/-- `bin/sh` is a link to `sh`. -/
def loopStage : Stage (List Byte) := shellStage [.name (ascii "sh")]

def loopRequests : List (PathText FileName) :=
  [⟨false, [.name (ascii "bin"), .name (ascii "sh")]⟩]

theorem loop_comesBack {tree : FileTree FileName (List Byte)}
    (hplace : placeOf tree false sampleSource shellPath.parts =
      some (sampleSource ++ shellPath.names))
    (hlink : tree.node (sampleSource ++ shellPath.names) =
      some (.link ⟨false, [.name (ascii "sh")]⟩)) :
    LinksComeBack tree sampleSource shellPath := by
  have hself : LinksTo tree sampleSource shellPath shellPath :=
    ⟨_, _, by decide, ⟨hplace, hlink⟩, by decide⟩
  exact ⟨shellPath, .refl, .single hself⟩

/-- `copy_relpath` returns, and the loop behind it is never left. -/
theorem staging_goes_around :
    (copyRelpath sampleSource sampleDest 2 shellPath loopStage).1 = .returned () ∧
      forall chain fuel, (copyBinaryRuntime (fun _ => none) sampleSource sampleDest chain fuel
        loopRequests loopStage.host).1 = .running := by
  have hreturned : (copyRelpath sampleSource sampleDest 2 shellPath loopStage).1 =
      .returned () := by decide +kernel
  have hlookup : placeOf (copyRelpath sampleSource sampleDest 2 shellPath loopStage).2.host.tree
        false sampleSource shellPath.parts = some (sampleSource ++ shellPath.names) ∧
      (copyRelpath sampleSource sampleDest 2 shellPath loopStage).2.host.tree.node
        (sampleSource ++ shellPath.names) = some (.link ⟨false, [.name (ascii "sh")]⟩) := by
    decide +kernel
  refine ⟨hreturned, ?_⟩
  intro chain fuel
  cases fuel with
  | zero => rfl
  | succ fuel =>
      have hpass : (copyAndInspect (fun _ => none) sampleSource sampleDest chain shellPath
          ⟨loopStage, [], []⟩).1 = .running :=
        copyAndInspect_running (Prod.ext hreturned rfl) (loop_comesBack hlookup.1 hlookup.2) chain
      show (runWorklist (fun _ => none) sampleSource sampleDest chain (fuel + 1)
        ⟨loopStage, [shellPath], []⟩).1 = .running
      rcases hrun : copyAndInspect (fun _ => none) sampleSource sampleDest chain shellPath
        ⟨loopStage, [], []⟩ with ⟨outcome, w'⟩
      rw [hrun] at hpass
      rw [runWorklist]
      dsimp only [List.getLast?, List.getLast, List.dropLast]
      rw [hrun, show outcome = .running from hpass]

end Staging
end Bab750
