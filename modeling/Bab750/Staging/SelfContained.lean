import Bab750.Staging.Closure
import Mathlib.Logic.Relation

/-!
# A stage with all that it needs

The worklist of `copy_binary_runtime`: what has been inspected has its needs in the stage or in
the queue, and so nothing is missing when the queue is empty. Every pass shortens the queue, or
there is a file less that was not inspected.
-/

namespace Bab750
namespace Staging

open Foundation

/-!
# What is promised
-/

/-- In the stage all that is requested and all that an ELF file there needs is what it is in
the source. -/
structure SelfContained (readelf : List Byte -> Option ElfInfo)
    (first tree : FileTree FileName (List Byte)) (source stage : FilePlace FileName)
    (requests : List PurePath) : Prop where
  requested : forall p, p ∈ requests -> SameFile first tree source stage p.parts
  interpreter : forall place content info interpreter, stage <+: place ->
    tree.node place = some (.file content) -> elfInfo readelf content = some info ->
    info.interpreter = some interpreter -> SameFile first tree source stage interpreter.parts
  libraries : forall place content info soname, stage <+: place ->
    tree.node place = some (.file content) -> elfInfo readelf content = some info ->
    soname ∈ info.needed -> exists p, findLibrary first source source soname = some p ∧
      SameFile first tree source stage p.parts

variable {readelf : List Byte -> Option ElfInfo} {first tree : FileTree FileName (List Byte)}
  {source stage : FilePlace FileName} {requests copied : List PurePath} {p e : PurePath}

/-!
# Libraries
-/

def findCandidate {Content : Type} (tree : FileTree FileName Content)
    (root source : FilePlace FileName) (soname : FileName) (dirs : List (List FileName)) :
    Option PurePath :=
  (dirs.map (candidatePath soname)).find? (fun p => lexistsIn tree root source p.parts)

theorem findCandidate_cons {Content : Type} {tree : FileTree FileName Content}
    {root source : FilePlace FileName} {soname : FileName} {dir : List FileName}
    {dirs : List (List FileName)} :
    findCandidate tree root source soname (dir :: dirs) =
      if lexistsIn tree root source (candidatePath soname dir).parts then
        some (candidatePath soname dir)
      else findCandidate tree root source soname dirs := by
  unfold findCandidate
  rw [List.map_cons, List.find?_cons]
  cases lexistsIn tree root source (candidatePath soname dir).parts with
  | true => rfl
  | false => rfl

theorem findCandidate_root {soname : FileName} {dirs : List (List FileName)}
    (hstay : CandidatesStay first source soname dirs) :
    findCandidate first source source soname dirs =
      findCandidate first [] source soname dirs := by
  induction dirs with
  | nil =>
      rfl
  | cons dir dirs ih =>
      have hsame : lexistsIn first source source (candidatePath soname dir).parts =
          lexistsIn first [] source (candidatePath soname dir).parts := by
        unfold lexistsIn
        rw [walk_inside (hstay.2.1 _ List.mem_cons_self)
          (fun q hq => hstay.2.1 q (List.mem_cons_of_mem _ hq))]
      rw [findCandidate_cons, findCandidate_cons, hsame]
      cases hthere : lexistsIn first [] source (candidatePath soname dir).parts with
      | true => rfl
      | false => exact ih (hstay.2.2 hthere)

theorem searchCandidates_eq (hgood : RuntimeStageable readelf first source stage requests)
    {soname : FileName} {dirs : List (List FileName)}
    (hstay : CandidatesStay first source soname dirs) {h : Host (List Byte)}
    (hstaged : StagedBy readelf first source stage requests copied h.tree) :
    (searchCandidates source soname dirs h).1.tree = h.tree ∧
      (searchCandidates source soname dirs h).2 = findCandidate first [] source soname dirs := by
  induction dirs generalizing h with
  | nil =>
      exact ⟨rfl, rfl⟩
  | cons dir dirs ih =>
      have hparts : (candidatePath soname dir).base source = source := rfl
      rcases placeOf_same hgood.ready hstaged hstay.2.1 with ⟨hplace, hnode⟩
      have hthere : (h.readSource source (candidatePath soname dir)).2.isSome =
          lexistsIn first [] source (candidatePath soname dir).parts := by
        unfold lexistsIn
        rw [Host.readSource_fits hstay.1, hparts, hplace]
        unfold placeOf at hnode ⊢
        cases hwalk : (walk first [] false maxSymlinks source
            (candidatePath soname dir).parts).2 with
        | none => rfl
        | some place =>
            rw [Option.bind_some, Option.any_some, hnode place hwalk, Option.isSome_map]
      rw [findCandidate_cons, ← hthere, searchCandidates]
      split
      · rename_i h₁ found hread
        rw [hread]
        exact ⟨Host.readSource_tree hread, rfl⟩
      · rename_i h₁ hread
        have htree : h₁.tree = h.tree := Host.readSource_tree hread
        rw [hread] at hthere ⊢
        have hstaged₁ : StagedBy readelf first source stage requests copied h₁.tree := by
          rw [htree]
          exact hstaged
        rcases ih (hstay.2.2 hthere.symm) hstaged₁ with
          ⟨hsame, hfind⟩
        exact ⟨hsame.trans htree, hfind⟩

structure LibrariesQueued (first : FileTree FileName (List Byte)) (source : FilePlace FileName)
    (sonames : List FileName) (w w' : Worklist) : Prop where
  tree : w'.stage.host.tree = w.stage.host.tree
  copied : w'.stage.copied = w.stage.copied
  inspected : w'.inspected = w.inspected
  queue : exists providers, w'.queue = w.queue ++ providers ∧
    providers.map some = sonames.map (findLibrary first [] source)

theorem queueLibraries_queued (hgood : RuntimeStageable readelf first source stage requests)
    {sonames : List FileName} {w w' : Worklist}
    (hstay : forall soname, soname ∈ sonames ->
      CandidatesStay first source soname libraryDirCandidates)
    (hstaged : StagedBy readelf first source stage requests copied w.stage.host.tree)
    (hrun : queueLibraries source sonames w = (.returned (), w')) :
    LibrariesQueued first source sonames w w' := by
  induction sonames generalizing w with
  | nil =>
      cases hrun
      exact ⟨rfl, rfl, rfl, [], (List.append_nil _).symm, rfl⟩
  | cons soname sonames ih =>
      rcases searchCandidates_eq hgood (hstay soname List.mem_cons_self) hstaged with
        ⟨htree, hfind⟩
      rw [queueLibraries] at hrun
      split at hrun
      · cases hrun
      · rename_i h₁ provider hsearch
        have hsame : h₁.tree = w.stage.host.tree :=
          (congrArg (fun found => found.1.tree) hsearch).symm.trans htree
        have hprovider : findLibrary first [] source soname = some provider :=
          hfind.symm.trans (congrArg Prod.snd hsearch)
        have hmore := ih (fun n hn => hstay n (List.mem_cons_of_mem _ hn))
          (by rw [hsame]; exact hstaged) hrun
        rcases hmore.queue with ⟨providers, hqueue, hall⟩
        refine ⟨hmore.tree.trans hsame, hmore.copied, hmore.inspected,
          provider :: providers, ?_, ?_⟩
        · rw [hqueue, List.append_assoc, List.singleton_append]
        · rw [List.map_cons, List.map_cons, hall, hprovider]

/-!
# The invariant of the worklist
-/

def Covered (first : FileTree FileName (List Byte)) (source : FilePlace FileName)
    (w : Worklist) (p : PurePath) : Prop :=
  Done first source w.stage.copied p ∨ p ∈ w.queue

structure WorklistInvariant (readelf : List Byte -> Option ElfInfo)
    (first : FileTree FileName (List Byte)) (source stage : FilePlace FileName)
    (requests : List PurePath) (w : Worklist) : Prop where
  staged : StagedBy readelf first source stage requests w.stage.copied w.stage.host.tree
  followed : LinksFollowed first source w.stage.copied []
  queued : forall p, p ∈ w.queue -> Visited readelf first source requests p
  requested : forall p, p ∈ requests -> Covered first source w p
  inspected : forall p place content, p ∈ w.stage.copied ->
    Found first source p place (.file content) -> content.take 4 = elfMagic -> p ∈ w.inspected
  interpreters : forall p place content info q, p ∈ w.inspected ->
    Found first source p place (.file content) -> elfInfo readelf content = some info ->
    q ∈ interpreterPath info -> Covered first source w q
  libraries : forall p place content info soname, p ∈ w.inspected ->
    Found first source p place (.file content) -> elfInfo readelf content = some info ->
    soname ∈ info.needed -> exists q, findLibrary first [] source soname = some q ∧
      Covered first source w q

theorem Done.mono {copied' : List PurePath} (h : Done first source copied p)
    (hkeeps : forall q, q ∈ copied -> q ∈ copied') : Done first source copied' p :=
  ⟨hkeeps p h.self, h.file⟩

theorem mem_sortedNeeded {info : ElfInfo} {soname : FileName} :
    soname ∈ sortedNeeded info <-> soname ∈ info.needed := by
  unfold sortedNeeded
  rw [List.mem_insertionSort, List.mem_dedup]

/-- What becomes of the queue in a pass, for a path whose file is at the end of its chain. -/
inductive PassResult (readelf : List Byte -> Option ElfInfo)
    (first : FileTree FileName (List Byte)) (source : FilePlace FileName) (e : PurePath)
    (content : List Byte) (front : List PurePath) (w w' : Worklist) : Prop
  | skipped (hqueue : w'.queue = front) (hinspected : w'.inspected = w.inspected)
      (hreason : e ∈ w.inspected ∨ content.take 4 ≠ elfMagic)
  | inspected {info : ElfInfo} {providers : List PurePath} (hnew : e ∉ w.inspected)
      (hinfo : elfInfo readelf content = some info)
      (hqueue : w'.queue = front ++ (interpreterPath info ++ providers))
      (hinspected : w'.inspected = w.inspected ++ [e])
      (hproviders : providers.map some = (sortedNeeded info).map (findLibrary first [] source))

structure PassDone (readelf : List Byte -> Option ElfInfo)
    (first : FileTree FileName (List Byte)) (source stage : FilePlace FileName)
    (requests : List PurePath) (p e : PurePath) (content : List Byte) (front : List PurePath)
    (w w' : Worklist) : Prop where
  chain : ChainCopied readelf first source stage requests p w.stage w'.stage
  isEnd : ResolveVisits first source p e
  found : exists place, Found first source e place (.file content)
  result : PassResult readelf first source e content front w w'

theorem copyAndInspect_done (hgood : RuntimeStageable readelf first source stage requests)
    {w w' : Worklist} {front : List PurePath} {chain : Nat}
    (hinv : WorklistInvariant readelf first source stage requests w)
    (hvisited : Visited readelf first source requests p)
    (hrun : copyAndInspect readelf source stage chain p { w with queue := front } =
      (.returned (), w')) :
    exists e content, PassDone readelf first source stage requests p e content front w w' := by
  unfold copyAndInspect at hrun
  split at hrun
  · rename_i u s hcopy
    have hfollowed : LinksFollowed first source w.stage.copied [p] := by
      intro q place target hq hfound
      have hmem := hinv.followed q place target hq hfound
      rw [List.append_nil] at hmem
      exact List.mem_append_left _ hmem
    have hchain := copyRelpath_staged hgood chain hinv.staged hfollowed hvisited hcopy
    unfold inspect at hrun
    split at hrun
    · cases hrun
    · cases hrun
    · rename_i e place h hresolve
      rcases resolveRealSourcePath_end hgood chain hchain.staged hvisited hresolve with
        ⟨htree, hend, content, hfound⟩
      have hvisited' := hend.visited hvisited
      have hnode : h.tree.node place = some (.file content) := by
        rw [htree]
        exact ((found_same hgood.ready hchain.staged
          (hgood.paths e hvisited').stays).mpr hfound).entry
      have hstage : ChainCopied readelf first source stage requests p w.stage
          { s with host := h } := hchain.same rfl htree
      split at hrun
      · rename_i hinspected
        cases hrun
        exact ⟨e, content, hstage, hend, ⟨_, hfound⟩, .skipped rfl rfl (Or.inl hinspected)⟩
      · rename_i hnew
        have helf : isElfFile h.tree place =
            if content.take 4 = elfMagic then some content else none := by
          unfold isElfFile
          rw [hnode]
        split at hrun
        · -- no ELF file
          rename_i hnone
          rw [helf] at hnone
          cases hrun
          refine ⟨e, content, hstage, hend, ⟨_, hfound⟩, .skipped rfl rfl (Or.inr ?_)⟩
          intro hmagic
          rw [if_pos hmagic] at hnone
          cases hnone
        · rename_i bytes hsome
          rw [helf] at hsome
          have hmagic : content.take 4 = elfMagic := by
            by_contra hother
            rw [if_neg hother] at hsome
            cases hsome
          rw [if_pos hmagic] at hsome
          cases hsome
          split at hrun
          · cases hrun
          · rename_i info hread
            have hinfo : elfInfo readelf content = some info := (if_pos hmagic).trans hread
            have hstay : forall soname, soname ∈ sortedNeeded info ->
                CandidatesStay first source soname libraryDirCandidates :=
              fun soname hneeded => (hgood.paths e hvisited').library place content info soname
                hfound hinfo (mem_sortedNeeded.mp hneeded)
            have hqueued := queueLibraries_queued hgood hstay hstage.staged hrun
            rcases hqueued.queue with ⟨providers, hqueue, hall⟩
            refine ⟨e, content, hstage.same hqueued.copied hqueued.tree, hend, ⟨_, hfound⟩,
              .inspected hnew hinfo ?_ hqueued.inspected hall⟩
            rw [hqueue, List.append_assoc]
  · rename_i other s hother hcopy
    cases hrun
    exact absurd rfl (hother ())

def Needs (readelf : List Byte -> Option ElfInfo) (first : FileTree FileName (List Byte))
    (source : FilePlace FileName) (content : List Byte) (q : PurePath) : Prop :=
  exists info, elfInfo readelf content = some info ∧ (q ∈ interpreterPath info ∨
    exists soname, soname ∈ info.needed ∧ findLibrary first [] source soname = some q)

section Pass

variable {w w' : Worklist} {front : List PurePath} {content : List Byte}

theorem PassResult.elf (h : PassResult readelf first source e content front w w')
    (hmagic : content.take 4 = elfMagic) : e ∈ w'.inspected := by
  cases h with
  | skipped hqueue hinspected hreason =>
      rw [hinspected]
      rcases hreason with hold | hother
      · exact hold
      · exact absurd hmagic hother
  | inspected hnew hinfo hqueue hinspected hproviders =>
      rw [hinspected]
      exact List.mem_append_right _ (List.mem_singleton_self e)

theorem PassResult.keeps (h : PassResult readelf first source e content front w w') {q : PurePath}
    (hq : q ∈ w.inspected) : q ∈ w'.inspected := by
  cases h with
  | skipped hqueue hinspected hreason =>
      rw [hinspected]
      exact hq
  | inspected hnew hinfo hqueue hinspected hproviders =>
      rw [hinspected]
      exact List.mem_append_left _ hq

theorem PassResult.queued (h : PassResult readelf first source e content front w w')
    {q : PurePath} (hq : q ∈ w'.queue) : q ∈ front ∨ Needs readelf first source content q := by
  cases h with
  | skipped hqueue hinspected hreason =>
      rw [hqueue] at hq
      exact Or.inl hq
  | @inspected info providers hnew hinfo hqueue hinspected hproviders =>
      rw [hqueue] at hq
      rcases List.mem_append.mp hq with hfront | hadded
      · exact Or.inl hfront
      · right
        refine ⟨info, hinfo, ?_⟩
        rcases List.mem_append.mp hadded with hinterpreter | hlibrary
        · exact Or.inl hinterpreter
        · have hmem : some q ∈ (sortedNeeded info).map (findLibrary first [] source) := by
            rw [← hproviders]
            exact List.mem_map_of_mem hlibrary
          rcases List.mem_map.mp hmem with ⟨soname, hneeded, heq⟩
          exact Or.inr ⟨soname, mem_sortedNeeded.mp hneeded, heq⟩

theorem PassResult.waits (h : PassResult readelf first source e content front w w')
    {q : PurePath} (hq : q ∈ front) : q ∈ w'.queue := by
  cases h with
  | skipped hqueue hinspected hreason =>
      rw [hqueue]
      exact hq
  | inspected hnew hinfo hqueue hinspected hproviders =>
      rw [hqueue]
      exact List.mem_append_left _ hq

theorem PassResult.new (h : PassResult readelf first source e content front w w') {q : PurePath}
    (hq : q ∈ w'.inspected) : q ∈ w.inspected ∨ (q = e ∧
      forall info, elfInfo readelf content = some info ->
        (forall r, r ∈ interpreterPath info -> r ∈ w'.queue) ∧
        forall soname, soname ∈ info.needed -> exists r,
          findLibrary first [] source soname = some r ∧ r ∈ w'.queue) := by
  cases h with
  | skipped hqueue hinspected hreason =>
      rw [hinspected] at hq
      exact Or.inl hq
  | @inspected info providers hnew hinfo hqueue hinspected hproviders =>
      rw [hinspected] at hq
      rcases List.mem_append.mp hq with hold | hlast
      · exact Or.inl hold
      · refine Or.inr ⟨List.mem_singleton.mp hlast, ?_⟩
        intro info' hinfo'
        rw [hinfo] at hinfo'
        cases hinfo'
        constructor
        · intro r hr
          rw [hqueue]
          exact List.mem_append_right _ (List.mem_append_left _ hr)
        · intro soname hneeded
          have hmem : findLibrary first [] source soname ∈ providers.map some := by
            rw [hproviders]
            exact List.mem_map_of_mem (mem_sortedNeeded.mpr hneeded)
          rcases List.mem_map.mp hmem with ⟨r, hr, heq⟩
          refine ⟨r, heq.symm, ?_⟩
          rw [hqueue]
          exact List.mem_append_right _ (List.mem_append_right _ hr)

theorem WorklistInvariant.pass (hinv : WorklistInvariant readelf first source stage requests w)
    (hqueue : w.queue = front ++ [p])
    (hpass : PassDone readelf first source stage requests p e content front w w') :
    WorklistInvariant readelf first source stage requests w' := by
  rcases hpass.found with ⟨place, hfound⟩
  have hresult := hpass.result
  have hvisited : Visited readelf first source requests e := by
    apply hpass.isEnd.visited
    apply hinv.queued
    rw [hqueue]
    simp
  have hdone : Done first source w'.stage.copied p :=
    ⟨hpass.chain.self, e, place, content, hpass.isEnd, hfound⟩
  have hcovered : forall q, Covered first source w q -> Covered first source w' q := by
    rintro q (hbefore | hwaits)
    · exact Or.inl (hbefore.mono hpass.chain.keeps)
    · rw [hqueue] at hwaits
      rcases List.mem_append.mp hwaits with hfront | hlast
      · exact Or.inr (hresult.waits hfront)
      · rw [List.mem_singleton.mp hlast]
        exact Or.inl hdone
  have helf : forall place' content', Found first source e place' (.file content') ->
      content'.take 4 = elfMagic -> e ∈ w'.inspected := by
    intro place' content' hfile hmagic
    cases (hfound.unique hfile).2
    exact hresult.elf hmagic
  refine ⟨hpass.chain.staged, hpass.chain.followed, ?_, ?_, ?_, ?_, ?_⟩
  · intro q hq
    rcases hresult.queued hq with hfront | ⟨info, hinfo, hinterpreter | ⟨soname, hneeded, heq⟩⟩
    · apply hinv.queued
      rw [hqueue]
      exact List.mem_append_left _ hfront
    · exact .interpreter hvisited hfound hinfo hinterpreter
    · exact .library hvisited hfound hinfo hneeded heq
  · exact fun q hq => hcovered q (hinv.requested q hq)
  · intro q place' content' hq hfile hmagic
    rcases hpass.chain.new q hq with hbefore | hchain
    · exact hresult.keeps (hinv.inspected q place' content' hbefore hfile hmagic)
    · have heq : q = e := hchain.unique hpass.isEnd hfile hfound
      rw [heq] at hfile ⊢
      exact helf place' content' hfile hmagic
  · intro q place' content' info r hq hfile hinfo hr
    rcases hresult.new hq with hbefore | ⟨heq, hall⟩
    · exact hcovered r (hinv.interpreters q place' content' info r hbefore hfile hinfo hr)
    · rw [heq] at hfile
      cases (hfound.unique hfile).2
      exact Or.inr ((hall info hinfo).1 r hr)
  · intro q place' content' info soname hq hfile hinfo hneeded
    rcases hresult.new hq with hbefore | ⟨heq, hall⟩
    · rcases hinv.libraries q place' content' info soname hbefore hfile hinfo hneeded with
        ⟨r, hfind, hr⟩
      exact ⟨r, hfind, hcovered r hr⟩
    · rw [heq] at hfile
      cases (hfound.unique hfile).2
      rcases (hall info hinfo).2 soname hneeded with ⟨r, hfind, hr⟩
      exact ⟨r, hfind, Or.inr hr⟩

end Pass

theorem worklistInvariant_start (host : Host (List Byte)) :
    WorklistInvariant readelf host.tree source stage requests ⟨⟨host, []⟩, requests, []⟩ :=
  ⟨stagedBy_nil, nofun, fun _ hp => .request hp, fun _ hp => Or.inr hp, nofun, nofun, nofun⟩

theorem runWorklist_returned (hgood : RuntimeStageable readelf first source stage requests)
    {w w' : Worklist} {chain : Nat} (fuel : Nat)
    (hinv : WorklistInvariant readelf first source stage requests w)
    (hrun : runWorklist readelf source stage chain fuel w = (.returned (), w')) :
    WorklistInvariant readelf first source stage requests w' ∧ w'.queue = [] := by
  induction fuel generalizing w with
  | zero =>
      cases hrun
  | succ fuel ih =>
      rw [runWorklist] at hrun
      split at hrun
      · rename_i hlast
        cases hrun
        exact ⟨hinv, List.getLast?_eq_none_iff.mp hlast⟩
      · rename_i p hlast
        have hqueue : w.queue = w.queue.dropLast ++ [p] :=
          (List.dropLast_append_getLast? p hlast).symm
        have hvisited : Visited readelf first source requests p := by
          apply hinv.queued
          rw [hqueue]
          simp
        split at hrun
        · rename_i u w₁ hpass
          rcases copyAndInspect_done hgood hinv hvisited hpass with ⟨e, content, hdone⟩
          exact ih (hinv.pass hqueue hdone) hrun
        · rename_i other w₁ hother hpass
          cases hrun
          exact absurd rfl (hother ())

theorem WorklistInvariant.selfContained {w : Worklist}
    (hgood : RuntimeStageable readelf first source stage requests)
    (hinv : WorklistInvariant readelf first source stage requests w) (hempty : w.queue = []) :
    SelfContained readelf first w.stage.host.tree source stage requests := by
  have hdone : forall {q}, Covered first source w q -> Done first source w.stage.copied q := by
    rintro q (hdone | hwaits)
    · exact hdone
    · rw [hempty] at hwaits
      cases hwaits
  -- every file of the stage is a copy
  have hfile : forall {place content info}, stage <+: place ->
      w.stage.host.tree.node place = some (.file content) ->
      elfInfo readelf content = some info ->
      exists q start, q ∈ w.inspected ∧ q ∈ w.stage.copied ∧
        Found first source q start (.file content) := by
    rintro place content info ⟨names, rfl⟩ hnode hinfo
    rcases hinv.staged.others names with hsame | ⟨q, hq, hqn⟩ | ⟨hdir, _⟩
    · rw [hsame] at hnode
      exact absurd hnode (hgood.ready.noFiles names content)
    · rcases hinv.staged.copies q hq with ⟨hvisited, start, node, hfound, hentry⟩
      rw [hqn, hnode] at hentry
      rw [← Option.some.inj hentry] at hfound
      have hmagic : content.take 4 = elfMagic := by
        by_contra hother
        unfold elfInfo at hinfo
        rw [if_neg hother] at hinfo
        cases hinfo
      exact ⟨q, start, hinv.inspected q start content hq hfound hmagic, hq, hfound⟩
    · rw [hdir] at hnode
      cases hnode
  refine ⟨?_, ?_, ?_⟩
  · exact fun p hp => sameFile_of_done hgood hinv.staged hinv.followed
      (hdone (hinv.requested p hp))
  · intro place content info interpreter hplace hnode hinfo hinterpreter
    rcases hfile hplace hnode hinfo with ⟨q, start, hinspected, hcopied, hfound⟩
    have hmem : normalizeRelpath false interpreter.parts ∈ interpreterPath info := by
      unfold interpreterPath
      rw [hinterpreter]
      simp
    have htext := (hgood.paths q (hinv.staged.copies q hcopied).1).interpreter start content info
      interpreter hfound hinfo hinterpreter
    exact sameFile_of_text hgood hinv.staged hinv.followed
      (hdone (hinv.interpreters q start content info _ hinspected hfound hinfo hmem)) rfl
      htext.plain htext.agrees
  · intro place content info soname hplace hnode hinfo hneeded
    rcases hfile hplace hnode hinfo with ⟨q, start, hinspected, hcopied, hfound⟩
    rcases hinv.libraries q start content info soname hinspected hfound hinfo hneeded with
      ⟨r, hfind, hr⟩
    have hstay := (hgood.paths q (hinv.staged.copies q hcopied).1).library start content info
      soname hfound hinfo hneeded
    exact ⟨r, (findCandidate_root hstay).trans hfind,
      sameFile_of_done hgood hinv.staged hinv.followed (hdone hr)⟩

end Staging
end Bab750
