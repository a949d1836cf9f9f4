import Bab750.Foundation.LinkCycles
import Bab750.Staging.SelfContained
import Mathlib.Data.Set.Finite.Lattice
import Mathlib.Order.Bounds.Basic

/-!
# The worklist comes to an end

Chains of links are as long as the rank of their first link, and every file is inspected once
for each path that is the end of a chain. There are finitely many of these, also when libraries
need each other.
-/

namespace Bab750
namespace Staging

open Foundation

variable {readelf : List Byte -> Option ElfInfo} {first tree : FileTree FileName (List Byte)}
  {source stage : FilePlace FileName} {requests copied : List PurePath} {p e : PurePath}

/-!
# Chains
-/

/-- A rank of the places of the source that decreases along the links. -/
structure Ranked (first : FileTree FileName (List Byte)) (source : FilePlace FileName)
    (rank : FilePlace FileName -> Nat) (bound : Nat) : Prop where
  le : forall p, rank p ≤ bound
  step : forall p q, LinkStep first source p q -> source <+: q -> first.node q ≠ none ->
    rank q < rank p

def Enough (first : FileTree FileName (List Byte)) (source : FilePlace FileName)
    (rank : FilePlace FileName -> Nat) (fuel : Nat) (p : PurePath) : Prop :=
  0 < fuel ∧ forall place node, Found first source p place node -> rank place + 2 ≤ fuel

section Chains

variable {rank : FilePlace FileName -> Nat} {bound : Nat}

theorem Enough.next (hgood : RuntimeStageable readelf first source stage requests)
    (hranked : Ranked first source rank bound)
    (hvisited : Visited readelf first source requests p) {fuel : Nat}
    {place : FilePlace FileName} {target : PathText FileName}
    (hfound : Found first source p place (.link target))
    (h : Enough first source rank (fuel + 1) p) :
    Enough first source rank fuel (resolveSymlinkRelpath p target) := by
  have hfuel := h.2 place _ hfound
  refine ⟨by omega, ?_⟩
  intro place' node hnext
  have hp := hgood.paths p hvisited
  have hnext' := (hgood.paths _ (.link hvisited hfound)).stays
  have hstep : LinkStep first source place place' :=
    ⟨placeOf_inside hp.stays hfound.lookup, target, hfound.entry,
      (hp.link place target hfound).agrees place' hnext.lookup⟩
  have hless := hranked.step place place' hstep (placeOf_inside hnext' hnext.lookup) (by
    rw [hnext.entry]
    nofun)
  omega

theorem returned_ne_running {α : Type} (value : α) :
    (Outcome.returned value : Outcome α) ≠ .running := by
  intro h
  cases h

theorem raised_ne_running {α : Type} (exception : Exception) :
    (Outcome.raised exception : Outcome α) ≠ .running := by
  intro h
  cases h

theorem follows_ne_raised (next : PurePath) (exception : Exception) :
    CopyStep.follows next ≠ .raised exception := by
  intro h
  cases h

theorem copyRelpath_ends (hgood : RuntimeStageable readelf first source stage requests)
    (hranked : Ranked first source rank bound) {s : Stage (List Byte)} (fuel : Nat)
    (hstaged : StagedBy readelf first source stage requests s.copied s.host.tree)
    (hvisited : Visited readelf first source requests p)
    (henough : Enough first source rank fuel p) :
    (copyRelpath source stage fuel p s).1 ≠ .running := by
  induction fuel generalizing p s with
  | zero =>
      exact absurd henough.1 (Nat.lt_irrefl 0)
  | succ fuel ih =>
      rw [copyRelpath]
      rcases hstep : copyOnce source stage p s with ⟨step, s₁⟩
      cases step with
      | returned => exact returned_ne_running ()
      | raised exception => exact raised_ne_running _
      | follows next =>
          by_cases hold : p ∈ s.copied
          · unfold copyOnce at hstep
            rw [if_pos hold] at hstep
            cases hstep
          · rcases copyOnce_staged hgood hstaged hvisited hold hstep
                (follows_ne_raised next) with
              ⟨_, hstaged₁, place, node, hfound, hafter⟩
            cases node with
            | dir => cases hafter
            | file content => cases hafter
            | link target =>
                cases hafter
                exact ih hstaged₁ (.link hvisited hfound)
                  (henough.next hgood hranked hvisited hfound)

theorem resolveRealSourcePath_ends (hgood : RuntimeStageable readelf first source stage requests)
    (hranked : Ranked first source rank bound) {h : Host (List Byte)} (fuel : Nat)
    (hstaged : StagedBy readelf first source stage requests copied h.tree)
    (hvisited : Visited readelf first source requests p)
    (henough : Enough first source rank fuel p) :
    (resolveRealSourcePath source fuel p h).1 ≠ .running := by
  induction fuel generalizing p h with
  | zero =>
      exact absurd henough.1 (Nat.lt_irrefl 0)
  | succ fuel ih =>
      have hp := hgood.paths p hvisited
      rw [resolveRealSourcePath]
      split
      · exact raised_ne_running _
      · rename_i h₁ place target hread
        have htree : h₁.tree = h.tree := Host.readSource_tree hread
        have hfound : Found first source p place (.link target) :=
          (found_same hgood.ready hstaged hp.stays).mp
            (readSource_found.mp (congrArg Prod.snd hread)).2
        exact ih (by rw [htree]; exact hstaged) (.link hvisited hfound)
          (henough.next hgood hranked hvisited hfound)
      · exact returned_ne_running _

theorem queueLibraries_ends {sonames : List FileName} {w : Worklist} :
    (queueLibraries source sonames w).1 ≠ .running := by
  induction sonames generalizing w with
  | nil =>
      exact returned_ne_running ()
  | cons soname sonames ih =>
      rw [queueLibraries]
      split
      · exact raised_ne_running _
      · exact ih

theorem copyAndInspect_ends (hgood : RuntimeStageable readelf first source stage requests)
    (hranked : Ranked first source rank bound) {w : Worklist} {front : List PurePath}
    {chain : Nat} (hchain : bound + 2 ≤ chain)
    (hinv : WorklistInvariant readelf first source stage requests w)
    (hvisited : Visited readelf first source requests p) :
    (copyAndInspect readelf source stage chain p { w with queue := front }).1 ≠ .running := by
  have henough : Enough first source rank chain p := by
    refine ⟨by omega, fun place node _ => ?_⟩
    have hle := hranked.le place
    omega
  unfold copyAndInspect
  split
  · rename_i u s hcopy
    have hfollowed : LinksFollowed first source w.stage.copied [p] :=
      fun q place target hq hfound =>
        List.mem_append_left _ (by simpa using hinv.followed q place target hq hfound)
    have hcopied := copyRelpath_staged hgood chain hinv.staged hfollowed hvisited hcopy
    unfold inspect
    split
    · rename_i h hresolve
      exact absurd (congrArg Prod.fst hresolve)
        (resolveRealSourcePath_ends hgood hranked chain hcopied.staged hvisited henough)
    · exact raised_ne_running _
    · split
      · exact returned_ne_running ()
      · split
        · exact returned_ne_running ()
        · split
          · exact raised_ne_running _
          · exact queueLibraries_ends
  · rename_i other s hother hcopy
    have hends := copyRelpath_ends hgood hranked chain hinv.staged hvisited henough
    rw [hcopy] at hends
    exact hends

end Chains

/-!
# Passes
-/

def Wanted (readelf : List Byte -> Option ElfInfo) (first : FileTree FileName (List Byte))
    (source : FilePlace FileName) (requests : List PurePath) : Set PurePath :=
  {q | q ∈ requests ∨ exists place content, source <+: place ∧
    first.node place = some (.file content) ∧ Needs readelf first source content q}

/-- The ends of the chains that begin with something wanted. -/
def RealPaths (readelf : List Byte -> Option ElfInfo) (first : FileTree FileName (List Byte))
    (source : FilePlace FileName) (requests : List PurePath) : Set PurePath :=
  {e | exists q, q ∈ Wanted readelf first source requests ∧ ResolveVisits first source q e ∧
    exists place content, Found first source e place (.file content)}

theorem needs_finite (content : List Byte) :
    {q | Needs readelf first source content q}.Finite := by
  cases hinfo : elfInfo readelf content with
  | none =>
      refine Set.Finite.subset Set.finite_empty ?_
      rintro q ⟨info, hsome, _⟩
      rw [hinfo] at hsome
      cases hsome
  | some info =>
      refine Set.Finite.subset (List.finite_toSet
        (interpreterPath info ++ info.needed.filterMap (findLibrary first [] source))) ?_
      rintro q ⟨info', hsome, hq⟩
      rw [hinfo] at hsome
      cases hsome
      apply List.mem_append.mpr
      rcases hq with hinterpreter | ⟨soname, hneeded, heq⟩
      · exact Or.inl hinterpreter
      · exact Or.inr (List.mem_filterMap.mpr ⟨soname, hneeded, heq⟩)

theorem placeNeeds_finite (place : FilePlace FileName) :
    {q | exists content, first.node place = some (.file content) ∧
      Needs readelf first source content q}.Finite := by
  by_cases hfile : exists content, first.node place = some (.file content)
  · rcases hfile with ⟨content, hnode⟩
    have hneeds : {q | Needs readelf first source content q}.Finite := needs_finite content
    refine hneeds.subset ?_
    rintro q ⟨content', hnode', hq⟩
    rw [hnode] at hnode'
    cases hnode'
    exact hq
  · refine Set.finite_empty.subset ?_
    rintro q ⟨content, hnode, _⟩
    exact hfile ⟨content, hnode⟩

theorem wanted_finite (hfinite : FiniteBelow first source) :
    (Wanted readelf first source requests).Finite := by
  have hplace : forall place, place ∈ {p | source <+: p ∧ first.node p ≠ none} ->
      {q | exists content, first.node place = some (.file content) ∧
        Needs readelf first source content q}.Finite := fun place _ => placeNeeds_finite place
  have hfiles := Set.Finite.biUnion hfinite hplace
  refine ((List.finite_toSet requests).union hfiles).subset ?_
  rintro q (hrequest | ⟨place, content, hinside, hnode, hneeds⟩)
  · exact Or.inl hrequest
  · right
    refine Set.mem_biUnion (x := place) ⟨hinside, ?_⟩ ⟨content, hnode, hneeds⟩
    rw [hnode]
    nofun

theorem realPaths_finite (hfinite : FiniteBelow first source) :
    (RealPaths readelf first source requests).Finite := by
  have hwanted : (Wanted readelf first source requests).Finite := wanted_finite hfinite
  have hends := Set.Finite.biUnion hwanted (t := fun q => {e | ResolveVisits first source q e ∧
    exists place content, Found first source e place (.file content)}) (by
      intro q _
      apply Set.Subsingleton.finite
      rintro e ⟨hchain, place, content, hfound⟩ e' ⟨hchain', place', content', hfound'⟩
      exact hchain.unique hchain' hfound hfound')
  refine hends.subset ?_
  rintro e ⟨q, hq, hchain, hfound⟩
  exact Set.mem_biUnion hq ⟨hchain, hfound⟩

theorem exists_needsBound (hfinite : FiniteBelow first source) : exists bound,
    forall place content info, source <+: place -> first.node place = some (.file content) ->
      elfInfo readelf content = some info -> 1 + info.needed.length ≤ bound := by
  have hplace : forall place, place ∈ {p | source <+: p ∧ first.node p ≠ none} ->
      {n | exists content info, first.node place = some (.file content) ∧
        elfInfo readelf content = some info ∧ n = 1 + info.needed.length}.Finite := by
    intro place _
    apply Set.Subsingleton.finite
    rintro n ⟨content, info, hnode, hinfo, rfl⟩ n' ⟨content', info', hnode', hinfo', rfl⟩
    rw [hnode] at hnode'
    cases hnode'
    rw [hinfo] at hinfo'
    cases hinfo'
    rfl
  rcases (Set.Finite.biUnion hfinite hplace).bddAbove with ⟨bound, hbound⟩
  refine ⟨bound, ?_⟩
  intro place content info hinside hnode hinfo
  apply hbound
  refine Set.mem_biUnion (x := place) ⟨hinside, ?_⟩ ⟨content, info, hnode, hinfo, rfl⟩
  rw [hnode]
  nofun

/-- What is in the queue, and what the files that are left can add to it. -/
def workLeft (realPaths : Finset PurePath) (bound : Nat) (w : Worklist) : Nat :=
  w.queue.length + bound * (realPaths.filter (fun e => e ∉ w.inspected)).card

theorem PassResult.workLeft_lt {w w' : Worklist} {front : List PurePath} {content : List Byte}
    (h : PassResult readelf first source e content front w w') (hqueue : w.queue = front ++ [p])
    {realPaths : Finset PurePath} {bound : Nat} (hreal : e ∈ realPaths)
    (hbound : forall info, elfInfo readelf content = some info ->
      1 + info.needed.length ≤ bound) :
    workLeft realPaths bound w' < workLeft realPaths bound w := by
  have hlength : w.queue.length = front.length + 1 := by
    rw [hqueue, List.length_append, List.length_singleton]
  unfold workLeft
  cases h with
  | skipped hfront hinspected hreason =>
      rw [hfront, hinspected]
      omega
  | @inspected info providers hnew hinfo hadded hinspected hproviders =>
      have hproviderLength : providers.length ≤ info.needed.length := by
        have hsorted := congrArg List.length hproviders
        rw [List.length_map, List.length_map] at hsorted
        rw [hsorted]
        unfold sortedNeeded
        rw [List.length_insertionSort]
        exact (List.dedup_sublist _).length_le
      have hinterpreterLength : (interpreterPath info).length ≤ 1 := by
        unfold interpreterPath
        cases info.interpreter with
        | none => exact Nat.zero_le 1
        | some interpreter => exact Nat.le_refl 1
      have hless : (realPaths.filter (fun q => q ∉ w'.inspected)).card + 1 ≤
          (realPaths.filter (fun q => q ∉ w.inspected)).card :=
        Nat.succ_le_of_lt (unseen_card_lt hreal hnew hinspected)
      have hmul := Nat.mul_le_mul_left bound hless
      have hneeds := hbound info hinfo
      rw [Nat.mul_add, Nat.mul_one] at hmul
      rw [hadded, List.length_append, List.length_append]
      omega

theorem runWorklist_ends (hgood : RuntimeStageable readelf first source stage requests)
    {rank : FilePlace FileName -> Nat} {chainBound : Nat}
    (hranked : Ranked first source rank chainBound) {chain : Nat}
    (hchain : chainBound + 2 ≤ chain) {realPaths : Finset PurePath} {bound : Nat}
    (hreal : forall q, q ∈ RealPaths readelf first source requests -> q ∈ realPaths)
    (hbound : forall place content info, source <+: place ->
      first.node place = some (.file content) -> elfInfo readelf content = some info ->
        1 + info.needed.length ≤ bound) {w : Worklist} (fuel : Nat)
    (hinv : WorklistInvariant readelf first source stage requests w)
    (hwanted : forall q, q ∈ w.queue -> q ∈ Wanted readelf first source requests)
    (hfuel : workLeft realPaths bound w < fuel) :
    (runWorklist readelf source stage chain fuel w).1 ≠ .running := by
  induction fuel generalizing w with
  | zero =>
      exact absurd hfuel (Nat.not_lt_zero _)
  | succ fuel ih =>
      rw [runWorklist]
      split
      · exact returned_ne_running ()
      · rename_i p hlast
        have hqueue : w.queue = w.queue.dropLast ++ [p] :=
          (List.dropLast_append_getLast? p hlast).symm
        have hmem : p ∈ w.queue := by
          rw [hqueue]
          simp
        have hvisited := hinv.queued p hmem
        split
        · rename_i u w₁ hpass
          rcases copyAndInspect_done hgood hinv hvisited hpass with ⟨e, content, hdone⟩
          rcases hdone.found with ⟨place, hfound⟩
          have hinside : source <+: place := placeOf_inside
            (hgood.paths e (hdone.isEnd.visited hvisited)).stays hfound.lookup
          have hless := hdone.result.workLeft_lt hqueue
            (hreal e ⟨p, hwanted p hmem, hdone.isEnd, place, content, hfound⟩)
            (fun info => hbound place content info hinside hfound.entry)
          refine ih (hinv.pass hqueue hdone) ?_ (by omega)
          intro q hq
          rcases hdone.result.queued hq with hfront | hneeds
          · exact hwanted q (List.dropLast_subset _ hfront)
          · exact Or.inr ⟨place, content, hinside, hfound.entry, hneeds⟩
        · rename_i other w₁ hother hpass
          have hends : (copyAndInspect readelf source stage chain p
              { w with queue := w.queue.dropLast }).1 ≠ .running :=
            copyAndInspect_ends hgood hranked hchain hinv hvisited
          rw [hpass] at hends
          exact hends

/--
The staged runtime is self-contained when the run returns, and in a finite tree without cycles
of links the run comes to an end.
-/
theorem runtime_selfContained {host : Host (List Byte)} {relPaths : List (PathText FileName)}
    (hgood : RuntimeStageable readelf host.tree source stage (requestPaths relPaths)) :
    (forall chain fuel w, copyBinaryRuntime readelf source stage chain fuel relPaths host =
      (.returned (), w) -> SelfContained readelf host.tree w.stage.host.tree source stage
        (requestPaths relPaths)) ∧
    (FiniteBelow host.tree source -> NoLinkCycles host.tree source ->
      exists chain fuel, forall chain' fuel', chain ≤ chain' -> fuel ≤ fuel' ->
        (copyBinaryRuntime readelf source stage chain' fuel' relPaths host).1 ≠ .running) := by
  constructor
  · intro chain fuel w hrun
    rcases runWorklist_returned hgood fuel (worklistInvariant_start host) hrun with
      ⟨hinv, hempty⟩
    exact hinv.selfContained hgood hempty
  · intro hfinite hcycles
    rcases exists_linkRank hfinite hcycles with ⟨rank, chainBound, hle, hstep⟩
    have hreal : (RealPaths readelf host.tree source (requestPaths relPaths)).Finite :=
      realPaths_finite hfinite
    have hneeds : exists bound, forall place content info, source <+: place ->
        host.tree.node place = some (.file content) -> elfInfo readelf content = some info ->
          1 + info.needed.length ≤ bound := exists_needsBound hfinite
    rcases hneeds with ⟨bound, hbound⟩
    refine ⟨chainBound + 2, workLeft hreal.toFinset bound
      ⟨⟨host, []⟩, requestPaths relPaths, []⟩ + 1, ?_⟩
    intro chain fuel hchain hfuel
    exact runWorklist_ends hgood ⟨hle, hstep⟩ hchain
      (fun q hq => (Set.Finite.mem_toFinset hreal).mpr hq) hbound fuel
      (worklistInvariant_start host) (fun q hq => Or.inl hq) (by omega)

/-!
# Two trees
-/

section Lookups

variable {readelf : List Byte -> Option ElfInfo} {first : FileTree FileName (List Byte)}
  {source stage : FilePlace FileName} {requests : List PurePath} {p : PurePath}

theorem textAgrees_of_walk {dir place : FilePlace FileName} {target : PathText FileName}
    {next : PurePath} (hup : .up ∉ target.parts)
    (hnext : placeOf first false (next.base source) next.parts = some place)
    (hwalk : (walk first source false maxSymlinks (linkBase source dir target)
      target.parts).2 = some place) : TextAgrees first source dir target next := by
  constructor
  · refine List.pairwise_of_forall_mem_list (fun a _ b hb _ heq => ?_)
    rw [heq] at hb
    exact hup hb
  · intro place' hplace'
    rw [hnext] at hplace'
    cases hplace'
    exact reaches_of_walk hwalk

theorem stageable_of_walk {place d : FilePlace FileName} {node : FileNode FileName (List Byte)}
    (hstays : Stays first false source (p.base source) p.parts)
    (hfound : Found first source p place node)
    (hwalk : (walk first source true maxSymlinks source p.parts).2 = some d)
    (hdir : first.node d ≠ some .dir)
    (hlink : forall target, node = .link target ->
      TextAgrees first source place.dropLast target (resolveSymlinkRelpath p target))
    (hfile : forall content info, node = .file content -> elfInfo readelf content = some info ->
      (forall interpreter, info.interpreter = some interpreter ->
        TextAgrees first source source ⟨true, interpreter.parts⟩
          (normalizeRelpath false interpreter.parts)) ∧
      forall soname, soname ∈ info.needed ->
        CandidatesStay first source soname libraryDirCandidates) :
    Stageable readelf first source p := by
  refine ⟨hstays, ?_, ?_, ?_, ?_⟩
  · intro place' hreach
    rw [hreach.unique (reaches_of_walk hwalk)]
    exact hdir
  · intro place' target hfound'
    rcases hfound.unique hfound' with ⟨hplace, hnode⟩
    rw [← hplace]
    exact hlink target hnode
  · intro place' content info interpreter hfound' hinfo
    exact (hfile content info (hfound.unique hfound').2 hinfo).1 interpreter
  · intro place' content info soname hfound' hinfo
    exact (hfile content info (hfound.unique hfound').2 hinfo).2 soname

end Lookups

def binPlace : FilePlace FileName := [ascii "src", ascii "bin"]

def libPlace : FilePlace FileName := [ascii "src", ascii "lib"]

def dashElf : List Byte := elfMagic ++ ascii "dash"

def loaderElf : List Byte := elfMagic ++ ascii "ld"

/-- A shell that needs a library which is the loader, and that needs itself. -/
def shellReadelf (content : List Byte) : Option ElfInfo :=
  if content = dashElf then
    some ⟨[ascii "libc.so"], some ⟨true, [.name (ascii "lib"), .name (ascii "ld.so")]⟩⟩
  else if content = loaderElf then some ⟨[ascii "libc.so"], none⟩
  else none

def shellEntries : List (FilePlace FileName × FileNode FileName (List Byte)) :=
  [([ascii "src"], .dir), (binPlace, .dir),
    (binPlace ++ [ascii "dash"], .file dashElf),
    (binPlace ++ [ascii "sh"], .link ⟨false, [.name (ascii "dash")]⟩),
    (libPlace, .dir), (libPlace ++ [ascii "ld.so"], .file loaderElf),
    (libPlace ++ [ascii "libc.so"], .link ⟨false, [.name (ascii "ld.so")]⟩),
    ([ascii "tmp"], .dir), (sampleDest, .dir)]

def runtimeTree : FileTree FileName (List Byte) := .ofEntries shellEntries

def loaderPath : PurePath := ⟨.above 0, [ascii "lib", ascii "ld.so"]⟩

def libcPath : PurePath := ⟨.above 0, [ascii "lib", ascii "libc.so"]⟩

def shellRequests : List (PathText FileName) :=
  [⟨false, [.name (ascii "bin"), .name (ascii "sh")]⟩]

def sampleEntry (p : PurePath) : FilePlace FileName × FileNode FileName (List Byte) :=
  if p = shellPath then (binPlace ++ [ascii "sh"], .link ⟨false, [.name (ascii "dash")]⟩)
  else if p = dashPath then (binPlace ++ [ascii "dash"], .file dashElf)
  else if p = loaderPath then (libPlace ++ [ascii "ld.so"], .file loaderElf)
  else (libPlace ++ [ascii "libc.so"], .link ⟨false, [.name (ascii "ld.so")]⟩)

def samplePaths : List PurePath := [shellPath, dashPath, loaderPath, libcPath]

def sampleLinks : List (PurePath × FileName) :=
  [(shellPath, ascii "dash"), (libcPath, ascii "ld.so")]

def sampleFiles : List PurePath := [dashPath, loaderPath]

theorem sampleFiles_subset : sampleFiles ⊆ samplePaths := by
  decide

theorem sampleFiles_noLink :
    forall p, p ∈ sampleFiles -> isLink (some (sampleEntry p).2) = false := by
  decide

theorem sample_names_ne : forall p, p ∈ samplePaths -> p.names ≠ [] := by
  decide

theorem sample_apart : ¬ sampleSource <+: sampleDest ∧ ¬ sampleDest <+: sampleSource := by
  decide

theorem runtime_stage {names : List FileName} {node : FileNode FileName (List Byte)}
    (h : runtimeTree.node (sampleDest ++ names) = some node) : names = [] ∧ node = .dir := by
  have hall : forall entry, entry ∈ shellEntries -> sampleDest <+: entry.1 ->
      entry = (sampleDest, .dir) := by decide
  rcases FileTree.ofEntries_node h with hnil | hmem
  · cases hnil
  · have heq := hall _ hmem (List.prefix_append _ _)
    rcases Prod.mk.inj heq with ⟨hplace, hnode⟩
    exact ⟨List.append_right_eq_self.mp hplace, hnode⟩

theorem runtime_link {place : FilePlace FileName} {target : PathText FileName}
    (h : runtimeTree.node place = some (.link target)) :
    exists p, p ∈ samplePaths ∧ (sampleEntry p).1 = place ∧ (sampleEntry p).2 = .link target := by
  have hlinks : forall entry, entry ∈ shellEntries -> isLink (some entry.2) = true ->
      exists p, p ∈ samplePaths ∧ sampleEntry p = entry := by decide
  rcases FileTree.ofEntries_node h with hnil | hmem
  · rw [hnil, runtimeTree.topDir] at h
    cases h
  · rcases hlinks _ hmem rfl with ⟨p, hp, hentry⟩
    exact ⟨p, hp, congrArg Prod.fst hentry, congrArg Prod.snd hentry⟩

structure SampleLink (p : PurePath) (n : FileName) : Prop where
  entry : (sampleEntry p).2 = .link ⟨false, [.name n]⟩
  next : resolveSymlinkRelpath p ⟨false, [.name n]⟩ ∈ sampleFiles
  place : (walk runtimeTree sampleSource false maxSymlinks (sampleEntry p).1.dropLast
    [.name n]).2 = some (sampleEntry (resolveSymlinkRelpath p ⟨false, [.name n]⟩)).1

structure SampleLookups : Prop where
  roots : runtimeTree.node sampleSource = some .dir ∧ runtimeTree.node sampleDest = some .dir
  found : forall p, p ∈ samplePaths ->
    placeOf runtimeTree false (p.base sampleSource) p.parts = some (sampleEntry p).1 ∧
      runtimeTree.node (sampleEntry p).1 = some (sampleEntry p).2
  stays : forall p, p ∈ samplePaths ->
    Stays runtimeTree false sampleSource (p.base sampleSource) p.parts
  ends : forall p, p ∈ samplePaths ->
    exists d, d ∈ [binPlace ++ [ascii "dash"], libPlace ++ [ascii "ld.so"]] ∧
      (walk runtimeTree sampleSource true maxSymlinks sampleSource p.parts).2 = some d ∧
        runtimeTree.node d ≠ some .dir
  links : forall p n, (p, n) ∈ sampleLinks -> SampleLink p n
  loader : (walk runtimeTree sampleSource false maxSymlinks sampleSource
    [.name (ascii "lib"), .name (ascii "ld.so")]).2 = some (sampleEntry loaderPath).1
  library : findLibrary runtimeTree [] sampleSource (ascii "libc.so") = some libcPath ∧
    lexistsIn runtimeTree [] sampleSource libcPath.parts = true ∧ libcPath.Fits sampleSource

theorem finiteBelow_ofEntries
    (entries : List (FilePlace FileName × FileNode FileName (List Byte)))
    (root : FilePlace FileName) : FiniteBelow (.ofEntries entries) root := by
  refine (List.finite_toSet ([] :: entries.map Prod.fst)).subset ?_
  rintro p ⟨_, hexists⟩
  rcases Option.ne_none_iff_exists'.mp hexists with ⟨node, hnode⟩
  rcases FileTree.ofEntries_node hnode with hnil | hmem
  · rw [hnil]
    exact List.mem_cons_self
  · exact List.mem_cons_of_mem _ (List.mem_map_of_mem hmem)

theorem noLinkCycles_of_ends {tree : FileTree FileName (List Byte)} {root : FilePlace FileName}
    (h : forall p q target, LinkStep tree root p q -> tree.node q ≠ some (.link target)) :
    NoLinkCycles tree root := by
  intro p hcycle
  rcases Relation.TransGen.head'_iff.mp hcycle with ⟨q, ⟨_, target, hlink, _⟩, _⟩
  rcases Relation.TransGen.tail'_iff.mp hcycle with ⟨r, _, hlast⟩
  exact h r p target hlast hlink

section Sample

variable {p : PurePath}

theorem sample_found (lookups : SampleLookups) (hp : p ∈ samplePaths) :
    Found runtimeTree sampleSource p (sampleEntry p).1 (sampleEntry p).2 :=
  ⟨(lookups.found p hp).1, (lookups.found p hp).2⟩

theorem sample_entry (hp : p ∈ samplePaths) :
    (exists n, (p, n) ∈ sampleLinks) ∨
      (sampleEntry p).2 = .file dashElf ∨ (sampleEntry p).2 = .file loaderElf := by
  rcases List.mem_cons.mp hp with rfl | hp
  · exact Or.inl ⟨ascii "dash", List.mem_cons_self⟩
  · rcases List.mem_cons.mp hp with rfl | hp
    · exact Or.inr (Or.inl rfl)
    · rcases List.mem_cons.mp hp with rfl | hp
      · exact Or.inr (Or.inr rfl)
      · rw [List.mem_singleton.mp hp]
        exact Or.inl ⟨ascii "ld.so", List.mem_cons_of_mem _ (List.mem_singleton_self _)⟩

theorem sample_info {content : List Byte} {info : ElfInfo}
    (hcontent : content = dashElf ∨ content = loaderElf)
    (hinfo : elfInfo shellReadelf content = some info) :
    info.needed = [ascii "libc.so"] ∧ (info.interpreter = none ∨
      info.interpreter = some ⟨true, [.name (ascii "lib"), .name (ascii "ld.so")]⟩) := by
  rcases hcontent with rfl | rfl
  · have hdash : elfInfo shellReadelf dashElf = some
        ⟨[ascii "libc.so"], some ⟨true, [.name (ascii "lib"), .name (ascii "ld.so")]⟩⟩ := rfl
    rw [hdash] at hinfo
    cases hinfo
    exact ⟨rfl, Or.inr rfl⟩
  · have hloader : elfInfo shellReadelf loaderElf = some ⟨[ascii "libc.so"], none⟩ := rfl
    rw [hloader] at hinfo
    cases hinfo
    exact ⟨rfl, Or.inl rfl⟩

theorem sample_content {content : List Byte} (lookups : SampleLookups)
    (hp : p ∈ samplePaths)
    (hfile : (sampleEntry p).2 = .file content) : content = dashElf ∨ content = loaderElf := by
  rcases sample_entry hp with ⟨n, hlink⟩ | hdash | hloader
  · rw [(lookups.links p n hlink).entry] at hfile
    cases hfile
  · rw [hdash] at hfile
    cases hfile
    exact Or.inl rfl
  · rw [hloader] at hfile
    cases hfile
    exact Or.inr rfl

theorem sample_link {target : PathText FileName} (lookups : SampleLookups)
    (hp : p ∈ samplePaths)
    (hlink : (sampleEntry p).2 = .link target) :
    exists n, target = ⟨false, [.name n]⟩ ∧ SampleLink p n := by
  rcases sample_entry hp with ⟨n, hn⟩ | hdash | hloader
  · have hsample := lookups.links p n hn
    rw [hsample.entry] at hlink
    cases hlink
    exact ⟨n, rfl, hsample⟩
  · rw [hdash] at hlink
    cases hlink
  · rw [hloader] at hlink
    cases hlink

theorem loader_mem : loaderPath ∈ samplePaths :=
  List.mem_cons_of_mem _ (List.mem_cons_of_mem _ List.mem_cons_self)

theorem libc_mem : libcPath ∈ samplePaths :=
  List.mem_cons_of_mem _ (List.mem_cons_of_mem _ (List.mem_cons_of_mem _ List.mem_cons_self))

theorem sample_visited (lookups : SampleLookups)
    (h : Visited shellReadelf runtimeTree sampleSource (requestPaths shellRequests) p) :
    p ∈ samplePaths := by
  induction h with
  | request hp =>
      have hrequests : requestPaths shellRequests = [shellPath] := rfl
      rw [hrequests] at hp
      rw [List.mem_singleton.mp hp]
      exact List.mem_cons_self
  | link _ hfound ih =>
      rcases sample_link lookups ih ((sample_found lookups ih).unique hfound).2 with
        ⟨n, htarget, hsample⟩
      rw [htarget]
      exact sampleFiles_subset hsample.next
  | interpreter _ hfound hinfo hq ih =>
      have hcontent := sample_content lookups ih ((sample_found lookups ih).unique hfound).2
      unfold interpreterPath at hq
      rcases (sample_info hcontent hinfo).2 with hnone | hsome
      · rw [hnone] at hq
        cases hq
      · rw [hsome] at hq
        rw [List.mem_singleton.mp hq]
        exact loader_mem
  | library _ hfound hinfo hneeded hq ih =>
      have hcontent := sample_content lookups ih ((sample_found lookups ih).unique hfound).2
      rw [(sample_info hcontent hinfo).1] at hneeded
      rw [List.mem_singleton.mp hneeded, lookups.library.1] at hq
      cases hq
      exact libc_mem

theorem sample_stageable (lookups : SampleLookups) (hp : p ∈ samplePaths) :
    Stageable shellReadelf runtimeTree sampleSource p := by
  rcases lookups.ends p hp with ⟨d, _, hwalk, hdir⟩
  refine stageable_of_walk (lookups.stays p hp) (sample_found lookups hp) hwalk hdir ?_ ?_
  · intro target hnode
    rcases sample_link lookups hp hnode with ⟨n, htarget, hsample⟩
    rw [htarget]
    exact textAgrees_of_walk (by simp)
      (sample_found lookups (sampleFiles_subset hsample.next)).lookup hsample.place
  · intro content info hnode hinfo
    rcases sample_info (sample_content lookups hp hnode) hinfo with ⟨hneeded, hinterpreter⟩
    constructor
    · intro interpreter hsome
      rcases hinterpreter with hnone | hloader
      · rw [hnone] at hsome
        cases hsome
      · rw [hloader] at hsome
        cases hsome
        exact textAgrees_of_walk (by simp) (sample_found lookups loader_mem).lookup lookups.loader
    · intro soname hmem
      rw [hneeded] at hmem
      rw [List.mem_singleton.mp hmem]
      refine ⟨lookups.library.2.2, lookups.stays libcPath libc_mem, fun hmissing => ?_⟩
      exact absurd (hmissing.symm.trans lookups.library.2.1) Bool.false_ne_true

theorem runtime_stageable (lookups : SampleLookups) :
    RuntimeStageable shellReadelf runtimeTree sampleSource sampleDest
      (requestPaths shellRequests) := by
  refine ⟨⟨lookups.roots.1, lookups.roots.2, sample_apart, ?_⟩, ?_, ?_⟩
  · intro names content hnode
    cases (runtime_stage hnode).2
  · exact fun p hp => sample_stageable lookups (sample_visited lookups hp)
  · intro p hp place node hfound
    refine ⟨?_, ?_⟩
    · intro front _ _ target hnode
      cases (runtime_stage hnode).2
    · intro place' content hfile
      by_contra hsome
      rcases Option.ne_none_iff_exists'.mp hsome with ⟨node', hnode⟩
      exact sample_names_ne p (sample_visited lookups hp) (runtime_stage hnode).1

theorem runtime_noLinkCycles (lookups : SampleLookups) :
    NoLinkCycles runtimeTree sampleSource := by
  apply noLinkCycles_of_ends
  rintro place q target ⟨_, target', hlink, hreach⟩ hnode
  rcases runtime_link hlink with ⟨p, hp, hplace, hentry⟩
  rcases sample_link lookups hp hentry with ⟨n, htarget, hsample⟩
  rw [htarget] at hreach
  have hwalk := hsample.place
  rw [hplace] at hwalk
  have hq := hreach.unique (reaches_of_walk hwalk)
  have hnext := (lookups.found _ (sampleFiles_subset hsample.next)).2
  rw [← hq, hnode] at hnext
  have hother := sampleFiles_noLink _ hsample.next
  rw [← hnext] at hother
  cases hother

end Sample

theorem sampleLookups : SampleLookups where
  roots := by decide +kernel
  found := by decide +kernel
  stays := by decide +kernel
  ends := by decide +kernel
  links := by
    have hall : forall link, link ∈ sampleLinks ->
        (sampleEntry link.1).2 = .link ⟨false, [.name link.2]⟩ ∧
          resolveSymlinkRelpath link.1 ⟨false, [.name link.2]⟩ ∈ sampleFiles ∧
          (walk runtimeTree sampleSource false maxSymlinks (sampleEntry link.1).1.dropLast
            [.name link.2]).2 =
              some (sampleEntry (resolveSymlinkRelpath link.1 ⟨false, [.name link.2]⟩)).1 := by
      decide +kernel
    intro p n hlink
    rcases hall (p, n) hlink with ⟨hentry, hnext, hplace⟩
    exact ⟨hentry, hnext, hplace⟩
  loader := by decide +kernel
  library := by decide +kernel

def shellHost : Host (List Byte) := ⟨runtimeTree, [], []⟩

theorem runtime_selfContained_shell :
    SelfContained shellReadelf runtimeTree (copyBinaryRuntime shellReadelf sampleSource sampleDest
        3 6 shellRequests shellHost).2.stage.host.tree sampleSource sampleDest
        (requestPaths shellRequests) ∧
      exists chain fuel, forall chain' fuel', chain ≤ chain' -> fuel ≤ fuel' ->
        (copyBinaryRuntime shellReadelf sampleSource sampleDest chain' fuel' shellRequests
          shellHost).1 ≠ .running := by
  have hreturned : (copyBinaryRuntime shellReadelf sampleSource sampleDest 3 6 shellRequests
      shellHost).1 = .returned () := by decide +kernel
  have hgood : RuntimeStageable shellReadelf shellHost.tree sampleSource sampleDest
      (requestPaths shellRequests) := runtime_stageable sampleLookups
  have hall := runtime_selfContained hgood
  exact ⟨hall.1 3 6 _ (Prod.ext hreturned rfl),
    hall.2 (finiteBelow_ofEntries _ _) (runtime_noLinkCycles sampleLookups)⟩

/-- A source whose `lib` is a link to the absolute path of its `usr/lib`. -/
def linkedLibEntries : List (FilePlace FileName × FileNode FileName (List Byte)) :=
  [([ascii "src"], .dir), (binPlace, .dir), (binPlace ++ [ascii "dash"], .file dashElf),
    (libPlace, .link ⟨true, [.name (ascii "usr"), .name (ascii "lib")]⟩),
    ([ascii "src", ascii "usr"], .dir), ([ascii "src", ascii "usr", ascii "lib"], .dir),
    ([ascii "src", ascii "usr", ascii "lib", ascii "libc.so"], .file (ascii "target")),
    ([ascii "usr"], .dir), ([ascii "usr", ascii "lib"], .dir),
    ([ascii "usr", ascii "lib", ascii "libc.so"], .file (ascii "host")),
    ([ascii "tmp"], .dir), (sampleDest, .dir)]

def linkedLibTree : FileTree FileName (List Byte) := .ofEntries linkedLibEntries

def linkedLibReadelf (content : List Byte) : Option ElfInfo :=
  if content = dashElf then some ⟨[ascii "libc.so"], none⟩ else none

def dashRequests : List (PathText FileName) :=
  [⟨false, [.name (ascii "bin"), .name (ascii "dash")]⟩]

def linkedLibRun : Outcome Unit × Worklist :=
  copyBinaryRuntime linkedLibReadelf sampleSource sampleDest 2 3 dashRequests
    ⟨linkedLibTree, [], []⟩

/-- The library of the host is staged. -/
theorem runtime_takes_host_library :
    NoLinkCycles linkedLibTree sampleSource ∧ linkedLibRun.1 = .returned () ∧
      ¬ SelfContained linkedLibReadelf linkedLibTree linkedLibRun.2.stage.host.tree sampleSource
        sampleDest (requestPaths dashRequests) := by
  refine ⟨?_, by decide +kernel, ?_⟩
  · apply noLinkCycles_of_ends
    rintro p q target ⟨_, target', hlink, hreach⟩ hnode
    have hlinks : forall entry, entry ∈ linkedLibEntries -> isLink (some entry.2) = true ->
        entry = (libPlace, .link ⟨true, [.name (ascii "usr"), .name (ascii "lib")]⟩) := by
      decide +kernel
    rcases FileTree.ofEntries_node hlink with hnil | hmem
    · rw [hnil, linkedLibTree.topDir] at hlink
      cases hlink
    · cases hlinks _ hmem rfl
      have hwalk : (walk linkedLibTree sampleSource false maxSymlinks sampleSource
          [.name (ascii "usr"), .name (ascii "lib")]).2 =
            some [ascii "src", ascii "usr", ascii "lib"] := by decide +kernel
      have hq := hreach.unique (reaches_of_walk hwalk)
      have hdir : linkedLibTree.node [ascii "src", ascii "usr", ascii "lib"] = some .dir := by
        decide +kernel
      rw [hq, hdir] at hnode
      cases hnode
  · intro h
    have hstaged : linkedLibRun.2.stage.host.tree.node
        (sampleDest ++ [ascii "bin", ascii "dash"]) = some (.file dashElf) := by decide +kernel
    have hinfo : elfInfo linkedLibReadelf dashElf = some ⟨[ascii "libc.so"], none⟩ := by
      decide +kernel
    rcases h.libraries _ dashElf _ (ascii "libc.so") (List.prefix_append _ _) hstaged hinfo
      List.mem_cons_self with ⟨p, hfind, place, copy, content, hplace, hnode, hcopy, hnode'⟩
    have hlibc : findLibrary linkedLibTree sampleSource sampleSource (ascii "libc.so") =
        some libcPath := by decide +kernel
    rw [hlibc] at hfind
    cases hfind
    have htarget : (walk linkedLibTree sampleSource true maxSymlinks sampleSource
        libcPath.parts).2 = some [ascii "src", ascii "usr", ascii "lib", ascii "libc.so"] := by
      decide +kernel
    have hhost : (walk linkedLibRun.2.stage.host.tree sampleDest true maxSymlinks sampleDest
        libcPath.parts).2 = some (sampleDest ++ [ascii "lib", ascii "libc.so"]) := by
      decide +kernel
    rw [hplace.unique (reaches_of_walk htarget)] at hnode
    rw [hcopy.unique (reaches_of_walk hhost)] at hnode'
    have hcontent : linkedLibTree.node [ascii "src", ascii "usr", ascii "lib", ascii "libc.so"] =
        some (.file (ascii "target")) := by decide +kernel
    have hcontent' : linkedLibRun.2.stage.host.tree.node
        (sampleDest ++ [ascii "lib", ascii "libc.so"]) = some (.file (ascii "host")) := by
      decide +kernel
    rw [hcontent] at hnode
    rw [hcontent'] at hnode'
    cases hnode
    exact absurd hnode' (by decide +kernel)

end Staging
end Bab750
