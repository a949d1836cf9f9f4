import Bab750.Foundation.PlainPaths
import Bab750.Staging.Confinement
import Bab750.Staging.Runtime

/-!
# The tree of the stage

What the operations of `copy_relpath` do to a stage whose directories are real: a path of the
source is at the place of its names. When this is so is a condition on the tree in the beginning
and on the paths that the worklist comes to.
-/

namespace Bab750
namespace Staging

open Foundation

/-!
# Real paths
-/

section RealPaths

variable {Content : Type} {h h' : Host Content} {dir : FilePlace FileName}
  {made names : List FileName}

theorem placeOf_names {tree : FileTree FileName Content} (follow : Bool)
    (hfront : tree.node (dir ++ names.dropLast) = some .dir)
    (hlast : follow = false ∨ forall target, tree.node (dir ++ names) ≠ some (.link target)) :
    placeOf tree follow dir (names.map .name) = some (dir ++ names) :=
  (walk_names maxSymlinks names hfront hlast).1

theorem isDirAt_names {tree : FileTree FileName Content}
    (hfront : tree.node (dir ++ names.dropLast) = some .dir)
    (hlast : forall target, tree.node (dir ++ names) ≠ some (.link target)) :
    isDirAt tree dir (names.map .name) = tree.isDir (dir ++ names) := by
  unfold isDirAt
  rw [placeOf_names true hfront (Or.inr hlast)]
  rfl

/-- What `mkdir(parents=True, exist_ok=True)` does on a path without links. -/
structure DirsMade (dir : FilePlace FileName) (names : List FileName)
    (tree tree' : FileTree FileName Content) : Prop where
  made : tree'.node (dir ++ names) = some .dir
  others : forall q, tree'.node q = tree.node q ∨
    (tree'.node q = some .dir ∧ exists front, front <+: names ∧ q = dir ++ front)

theorem mkdirParts_names (hdir : h.tree.node (dir ++ made) = some .dir)
    (hlinks : forall front, front <+: names -> forall target,
      h.tree.node (dir ++ made ++ front) ≠ some (.link target))
    (hrun : h.mkdirParts dir (made.map .name) (names.map .name) = (h', true)) :
    DirsMade (dir ++ made) names h.tree h'.tree := by
  induction names generalizing h made with
  | nil =>
      cases hrun
      refine ⟨?_, fun q => Or.inl rfl⟩
      rw [List.append_nil]
      exact hdir
  | cons n names ih =>
      have hmade : made.map PathPart.name ++ [.name n] = (made ++ [n]).map PathPart.name := by
        rw [List.map_append]
        rfl
      have hfront : h.tree.node (dir ++ (made ++ [n]).dropLast) = some .dir := by
        rw [List.dropLast_concat]
        exact hdir
      have hplace : dir ++ (made ++ [n]) = dir ++ made ++ [n] := (List.append_assoc _ _ _).symm
      have hentry : forall target, h.tree.node (dir ++ (made ++ [n])) ≠ some (.link target) := by
        rw [hplace]
        exact hlinks [n] (List.prefix_append [n] names)
      have hjoin : forall front : List FileName,
          dir ++ (made ++ [n]) ++ front = dir ++ made ++ n :: front := by
        intro front
        rw [hplace, List.append_assoc (dir ++ made), List.singleton_append]
      have hbehind : forall {tree : FileTree FileName Content},
          DirsMade (dir ++ (made ++ [n])) names tree h'.tree ->
          (forall q, tree.node q = h.tree.node q ∨
            (tree.node q = some .dir ∧ q = dir ++ made ++ [n])) ->
          DirsMade (dir ++ made) (n :: names) h.tree h'.tree := by
        intro tree hmore hnew
        constructor
        · rw [← hjoin]
          exact hmore.made
        · intro q
          rcases hmore.others q with hsame | ⟨hdir', front, hfront', hq⟩
          · rcases hnew q with hold | ⟨hdir', hq⟩
            · exact Or.inl (hsame.trans hold)
            · exact Or.inr ⟨hsame.trans hdir', [n], List.prefix_append [n] names, hq⟩
          · refine Or.inr ⟨hdir', n :: front, List.prefix_cons_inj n |>.mpr hfront', ?_⟩
            rw [hq, hjoin]
      rw [List.map_cons, Host.mkdirParts, hmade, isDirAt_names hfront hentry] at hrun
      split at hrun
      · rename_i hisDir
        have hthere := FileTree.isDir_iff.mp hisDir
        refine hbehind (ih hthere ?_ hrun) (fun q => Or.inl rfl)
        intro front hprefix target
        rw [hjoin]
        exact hlinks (n :: front) ((List.prefix_cons_inj n).mpr hprefix) target
      · split at hrun
        · rename_i h₁ hmkdir
          unfold Host.mkdir at hmkdir
          rw [placeOf_names false hfront (Or.inl rfl)] at hmkdir
          dsimp only at hmkdir
          split at hmkdir
          · have hput := (host_put hmkdir).1
            have hnew : h₁.tree.node (dir ++ (made ++ [n])) = some .dir := put_sets hput
            have hchange : forall q, h₁.tree.node q = h.tree.node q ∨
                (h₁.tree.node q = some .dir ∧ q = dir ++ made ++ [n]) := by
              intro q
              by_cases hq : q = dir ++ (made ++ [n])
              · right
                rw [hq]
                exact ⟨hnew, hplace⟩
              · exact Or.inl (put_keeps hput hq)
            refine hbehind (ih hnew ?_ hrun) hchange
            intro front hprefix target
            rcases hchange (dir ++ (made ++ [n]) ++ front) with hsame | ⟨hdir', _⟩
            · rw [hsame, hjoin]
              exact hlinks (n :: front) ((List.prefix_cons_inj n).mpr hprefix) target
            · exact dir_not_link hdir' target
          · cases hmkdir
        · cases hrun

theorem mkdirAll_names (hdir : h.tree.node dir = some .dir)
    (hlinks : forall front, front <+: names -> forall target,
      h.tree.node (dir ++ front) ≠ some (.link target))
    (hrun : h.mkdirAll dir (names.map .name) = (h', true)) :
    DirsMade dir names h.tree h'.tree := by
  have hnil : dir ++ ([] : List FileName) = dir := List.append_nil dir
  have hall := @mkdirParts_names Content h h' dir [] names
  rw [hnil] at hall
  apply hall hdir hlinks
  unfold Host.mkdirAll at hrun
  rw [if_pos (FileTree.isDir_iff.mpr hdir)] at hrun
  exact hrun

theorem relink_names {target : PathText FileName} (hnames : names ≠ [])
    (hfront : h.tree.node (dir ++ names.dropLast) = some .dir)
    (hrun : h.relink target dir (names.map .name) = (h', true)) :
    h'.tree.node = Function.update h.tree.node (dir ++ names) (some (.link target)) := by
  have hne : dir ++ names.dropLast ≠ dir ++ names := by
    intro heq
    have hlength := congrArg List.length (List.append_cancel_left heq)
    rw [List.length_dropLast] at hlength
    have hpos := List.length_pos_iff.mpr hnames
    omega
  -- what is left when the old entry is gone
  have hunlink : forall {h₁ : Host Content}, h.unlinkOld dir (names.map .name) = some h₁ ->
      h₁.tree.node (dir ++ names.dropLast) = some .dir ∧
        forall q, q ≠ dir ++ names -> h₁.tree.node q = h.tree.node q := by
    intro h₁ hunlinked
    unfold Host.unlinkOld at hunlinked
    rw [placeOf_names false hfront (Or.inl rfl)] at hunlinked
    split at hunlinked
    · rw [Option.bind_some] at hunlinked
      have hput := (host_put hunlinked).1
      refine ⟨?_, fun q hq => put_keeps hput hq⟩
      rw [put_keeps hput hne]
      exact hfront
    · cases hunlinked
      exact ⟨hfront, fun _ _ => rfl⟩
  unfold Host.relink at hrun
  split at hrun
  · cases hrun
  · rename_i h₁ hunlinked
    rcases hunlink hunlinked with ⟨hfront₁, hkeeps⟩
    split at hrun
    · cases hrun
    · rename_i h₂ hlinked
      cases hrun
      unfold Host.symlink at hlinked
      rw [placeOf_names false hfront₁ (Or.inl rfl)] at hlinked
      dsimp only at hlinked
      split at hlinked
      · have hput := (host_put hlinked).1
        funext q
        by_cases hq : q = dir ++ names
        · rw [hq, put_sets hput, Function.update_self]
        · rw [put_keeps hput hq, hkeeps q hq, Function.update_of_ne hq]
      · cases hlinked

theorem copyFile_names {source : FilePlace FileName} {content : Content} {p : PurePath}
    (hbase : p.parts = p.names.map .name)
    (hfront : h.tree.node (dir ++ p.names.dropLast) = some .dir)
    (hfree : h.tree.node (dir ++ p.names) = none)
    (hrun : h.copyFile source content dir p = (h', true)) :
    h'.tree.node = Function.update h.tree.node (dir ++ p.names) (some (.file content)) := by
  have hother : forall target, h.tree.node (dir ++ p.names) ≠ some (.link target) := by
    rw [hfree]
    nofun
  have hparts : copyParts h.tree dir p = p.names.map .name := by
    unfold copyParts
    rw [hbase, isDirAt_names hfront hother, FileTree.isDir, hfree]
    exact if_neg Bool.false_ne_true
  unfold Host.copyFile at hrun
  rw [hparts, placeOf_names true hfront (Or.inr hother)] at hrun
  dsimp only at hrun
  split at hrun
  · cases hrun
  · split at hrun
    · cases hrun
    · rename_i h₁ hput
      cases hrun
      exact (FileTree.put_node (host_put hput).1).1

end RealPaths

/-!
# What the worklist comes to
-/

/-- What `lstat` finds for a path below the source. -/
structure Found {Content : Type} (tree : FileTree FileName Content) (root : FilePlace FileName)
    (p : PurePath) (place : FilePlace FileName) (node : FileNode FileName Content) : Prop where
  lookup : placeOf tree false (p.base root) p.parts = some place
  entry : tree.node place = some node

/-- The output of `readelf` for an ELF file. -/
def elfInfo (readelf : List Byte -> Option ElfInfo) (content : List Byte) : Option ElfInfo :=
  if content.take 4 = elfMagic then readelf content else none

/-- Whether there is something at a path, for a system whose root directory is given. -/
def lexistsIn {Content : Type} (tree : FileTree FileName Content) (root dir : FilePlace FileName)
    (parts : List (PathPart FileName)) : Bool :=
  (walk tree root false maxSymlinks dir parts).2.any (fun p => (tree.node p).isSome)

/-- The first place for a library in a root file system at which there is something. -/
def findLibrary {Content : Type} (tree : FileTree FileName Content)
    (root source : FilePlace FileName) (soname : FileName) : Option PurePath :=
  (libraryDirCandidates.map (candidatePath soname)).find?
    (fun p => lexistsIn tree root source p.parts)

section Conditions

variable (readelf : List Byte -> Option ElfInfo) (tree : FileTree FileName (List Byte))
  (source stage : FilePlace FileName)

/-- The paths that the worklist can come to: requests, links, interpreters and libraries. -/
inductive Visited (requests : List PurePath) : PurePath -> Prop
  | request {p : PurePath} (h : p ∈ requests) : Visited requests p
  | link {p : PurePath} {place : FilePlace FileName} {target : PathText FileName}
      (h : Visited requests p) (hfound : Found tree source p place (.link target)) :
      Visited requests (resolveSymlinkRelpath p target)
  | interpreter {p q : PurePath} {place : FilePlace FileName} {content : List Byte}
      {info : ElfInfo} (h : Visited requests p)
      (hfound : Found tree source p place (.file content))
      (hinfo : elfInfo readelf content = some info) (hq : q ∈ interpreterPath info) :
      Visited requests q
  | library {p q : PurePath} {place : FilePlace FileName} {content : List Byte} {info : ElfInfo}
      {soname : FileName} (h : Visited requests p)
      (hfound : Found tree source p place (.file content))
      (hinfo : elfInfo readelf content = some info) (hneeded : soname ∈ info.needed)
      (hq : findLibrary tree [] source soname = some q) : Visited requests q

/-- The normalized path stands for the text: it leads to the same place, on directories that
are real in the stage. -/
structure TextAgrees (dir : FilePlace FileName) (target : PathText FileName) (next : PurePath) :
    Prop where
  plain : Plain target.parts
  agrees : forall place, placeOf tree false (next.base source) next.parts = some place ->
    Reaches tree source false (linkBase source dir target) target.parts place

/-- The lookups of a library do not leave the source, and no name is too long for them. -/
def CandidatesStay (soname : FileName) : List (List FileName) -> Prop
  | [] => True
  | dir :: dirs =>
      (candidatePath soname dir).Fits source ∧
      Stays tree false source source (candidatePath soname dir).parts ∧
        (lexistsIn tree [] source (candidatePath soname dir).parts = false ->
          CandidatesStay soname dirs)

structure Stageable (p : PurePath) : Prop where
  stays : Stays tree false source (p.base source) p.parts
  notDir : forall place, Reaches tree source true source p.parts place ->
    tree.node place ≠ some .dir
  link : forall place target, Found tree source p place (.link target) ->
    TextAgrees tree source place.dropLast target (resolveSymlinkRelpath p target)
  interpreter : forall place content info interpreter,
    Found tree source p place (.file content) -> elfInfo readelf content = some info ->
    info.interpreter = some interpreter ->
      TextAgrees tree source source ⟨true, interpreter.parts⟩
        (normalizeRelpath false interpreter.parts)
  library : forall place content info soname,
    Found tree source p place (.file content) -> elfInfo readelf content = some info ->
    soname ∈ info.needed -> CandidatesStay tree source soname libraryDirCandidates

structure StageReady : Prop where
  sourceDir : tree.node source = some .dir
  stageDir : tree.node stage = some .dir
  apart : ¬ source <+: stage ∧ ¬ stage <+: source
  noFiles : forall names content, tree.node (stage ++ names) ≠ some (.file content)

/-- What is in the stage in the beginning is not in the way of a path. -/
structure NotInTheWay (p : PurePath) : Prop where
  front : forall front, front <+: p.names -> front ≠ p.names -> forall target,
    tree.node (stage ++ front) ≠ some (.link target)
  file : forall place content, Found tree source p place (.file content) ->
    tree.node (stage ++ p.names) = none

/-- Everything that `copy_binary_runtime` comes to can be staged. -/
structure RuntimeStageable (requests : List PurePath) : Prop where
  ready : StageReady tree source stage
  paths : forall p, Visited readelf tree source requests p -> Stageable readelf tree source p
  stage : forall p, Visited readelf tree source requests p -> forall place node,
    Found tree source p place node -> NotInTheWay tree source stage p

end Conditions

/-!
# What is staged
-/

section Staged

variable {readelf : List Byte -> Option ElfInfo} {first tree : FileTree FileName (List Byte)}
  {source stage : FilePlace FileName} {requests copied : List PurePath} {p : PurePath}

theorem StageReady.outside (hready : StageReady first source stage) {q : FilePlace FileName}
    (hq : source <+: q) : ¬ stage <+: q := by
  intro hstage
  rcases List.prefix_or_prefix_of_prefix hq hstage with h | h
  · exact hready.apart.1 h
  · exact hready.apart.2 h

theorem StageReady.source_ne (hready : StageReady first source stage) : source ≠ [] := by
  intro hnil
  apply hready.apart.1
  rw [hnil]
  exact List.nil_prefix

theorem names_of_stays (hready : StageReady first source stage)
    (hstays : Stays first false source (p.base source) p.parts) :
    p.start = .above 0 ∧ p.parts = p.names.map .name ∧ p.base source = source := by
  rcases p with ⟨start, names⟩
  cases start with
  | root =>
      have hinside : source <+: [] := hstays _ List.mem_cons_self
      exact absurd (List.prefix_nil.mp hinside) hready.source_ne
  | above ups =>
      cases ups with
      | zero =>
          exact ⟨rfl, List.nil_append _, rfl⟩
      | succ ups =>
          -- the first step leads out of the source
          have hup : source <+: parentIn [] source := by
            apply hstays
            refine List.mem_cons_of_mem _ ?_
            show parentIn [] source ∈ (walk first [] false maxSymlinks source
              (List.replicate (ups + 1) .up ++ names.map .name)).1
            rw [List.replicate_succ, List.cons_append, walk_up_cons _ hready.sourceDir]
            exact List.mem_cons_self
          unfold parentIn at hup
          rw [if_neg hready.source_ne] at hup
          have hlength := hup.length_le
          rw [List.length_dropLast] at hlength
          have hpos := List.length_pos_iff.mpr hready.source_ne
          omega

/-- The stage behind some copies, next to the tree in the beginning. -/
structure StagedBy (readelf : List Byte -> Option ElfInfo)
    (first : FileTree FileName (List Byte)) (source stage : FilePlace FileName)
    (requests copied : List PurePath) (tree : FileTree FileName (List Byte)) : Prop where
  outside : forall q, ¬ stage <+: q -> tree.node q = first.node q
  copies : forall p, p ∈ copied -> Visited readelf first source requests p ∧
    exists place node, Found first source p place node ∧ tree.node (stage ++ p.names) = some node
  others : forall names, tree.node (stage ++ names) = first.node (stage ++ names) ∨
    (exists p, p ∈ copied ∧ p.names = names) ∨
    (tree.node (stage ++ names) = some .dir ∧
      exists p more, p ∈ copied ∧ more ≠ [] ∧ p.names = names ++ more)

theorem stagedBy_nil : StagedBy readelf first source stage requests [] first :=
  ⟨fun _ _ => rfl, nofun, fun _ => Or.inl rfl⟩

/-!
# Lookups in the source
-/

theorem placeOf_same (hready : StageReady first source stage)
    (hstaged : StagedBy readelf first source stage requests copied tree)
    {dir : FilePlace FileName} {parts : List (PathPart FileName)}
    (hstays : Stays first false source dir parts) :
    placeOf tree false dir parts = placeOf first false dir parts ∧
      forall place, placeOf first false dir parts = some place ->
        tree.node place = first.node place := by
  have hsame : forall q, source <+: q -> tree.node q = first.node q :=
    fun q hq => hstaged.outside q (hready.outside hq)
  have hwalk : walk tree [] false maxSymlinks dir parts =
      walk first [] false maxSymlinks dir parts := by
    apply walk_congr (hsame dir (hstays _ List.mem_cons_self))
    exact fun q hq => hsame q (hstays q (List.mem_cons_of_mem _ hq))
  constructor
  · unfold placeOf
    rw [hwalk]
  · exact fun place hplace => hsame place (placeOf_inside hstays hplace)

theorem found_same (hready : StageReady first source stage)
    (hstaged : StagedBy readelf first source stage requests copied tree)
    (hstays : Stays first false source (p.base source) p.parts) {place : FilePlace FileName}
    {node : FileNode FileName (List Byte)} :
    Found tree source p place node <-> Found first source p place node := by
  rcases placeOf_same hready hstaged hstays with ⟨hplace, hnode⟩
  constructor
  · rintro ⟨hlookup, hentry⟩
    rw [hplace] at hlookup
    rw [hnode place hlookup] at hentry
    exact ⟨hlookup, hentry⟩
  · rintro ⟨hlookup, hentry⟩
    refine ⟨hplace.trans hlookup, ?_⟩
    rw [hnode place hlookup]
    exact hentry

theorem readSource_found {Content : Type} {h : Host Content} {place : FilePlace FileName}
    {node : FileNode FileName Content} :
    (h.readSource source p).2 = some (place, node) <->
      p.Fits source ∧ Found h.tree source p place node := by
  constructor
  · intro hread
    by_cases hfits : p.Fits source
    · rw [Host.readSource_fits hfits] at hread
      rcases Option.bind_eq_some_iff.mp hread with ⟨place', hplace, hmap⟩
      rcases Option.map_eq_some_iff.mp hmap with ⟨node', hnode, hpair⟩
      cases hpair
      exact ⟨hfits, hplace, hnode⟩
    · rw [Host.readSource_long hfits] at hread
      cases hread
  · rintro ⟨hfits, hplace, hnode⟩
    rw [Host.readSource_fits hfits, hplace, Option.bind_some, hnode]
    rfl

/-!
# Paths that are apart
-/

theorem found_not_dir (hstageable : Stageable readelf first source p)
    {place : FilePlace FileName} {node : FileNode FileName (List Byte)}
    (hfound : Found first source p place node) : node ≠ .dir := by
  intro hdir
  have hnode := hfound.entry
  rw [hdir] at hnode
  have hreach := stays_reaches hstageable.stays hfound.lookup
  exact hstageable.notDir place (hreach.followed (dir_not_link hnode)) hnode

theorem found_names_ne (hready : StageReady first source stage)
    (hstageable : Stageable readelf first source p) {place : FilePlace FileName}
    {node : FileNode FileName (List Byte)} (hfound : Found first source p place node) :
    p.names ≠ [] := by
  intro hnil
  rcases names_of_stays hready hstageable.stays with ⟨_, hparts, hbase⟩
  have hplace := hfound.lookup
  rw [hparts, hnil, hbase, List.map_nil, placeOf, walk_nil] at hplace
  cases hplace
  have hnode := hfound.entry
  rw [hready.sourceDir] at hnode
  exact found_not_dir hstageable hfound (Option.some.inj hnode).symm

theorem stageDir_staged (hgood : RuntimeStageable readelf first source stage requests)
    (hstaged : StagedBy readelf first source stage requests copied tree) :
    tree.node stage = some .dir := by
  rcases hstaged.others [] with hsame | ⟨q, hq, hqn⟩ | ⟨hdir, _⟩
  · rw [List.append_nil] at hsame
    rw [hsame]
    exact hgood.ready.stageDir
  · rcases hstaged.copies q hq with ⟨hvisited, place, node, hfound, _⟩
    exact absurd hqn (found_names_ne hgood.ready (hgood.paths q hvisited) hfound)
  · rw [List.append_nil] at hdir
    exact hdir

theorem not_below (hready : StageReady first source stage) {q : PurePath}
    (hp : Stageable readelf first source p) (hq : Stageable readelf first source q)
    {place : FilePlace FileName} {node : FileNode FileName (List Byte)}
    (hfound : Found first source q place node) {more : List FileName} (hmore : more ≠ []) :
    q.names ≠ p.names ++ more := by
  intro hnames
  rcases names_of_stays hready hp.stays with ⟨_, hparts, _⟩
  rcases names_of_stays hready hq.stays with ⟨_, hparts', _⟩
  have hreach := stays_reaches hq.stays hfound.lookup
  rw [hparts', hnames, List.map_append, ← hparts] at hreach
  rcases hreach.split (fun hnil => hmore (List.map_eq_nil_iff.mp hnil)) with
    ⟨d, hd, hdir, _⟩
  exact hp.notDir d hd hdir

theorem eq_of_names (hready : StageReady first source stage) {q : PurePath}
    (hp : Stageable readelf first source p) (hq : Stageable readelf first source q)
    (hnames : p.names = q.names) : p = q := by
  have hstart := (names_of_stays hready hp.stays).1
  have hstart' := (names_of_stays hready hq.stays).1
  rcases p with ⟨start, names⟩
  rcases q with ⟨start', names'⟩
  cases hstart
  cases hstart'
  cases hnames
  rfl

theorem behind_front {front names : List FileName} (hnames : names ≠ [])
    (hfront : front <+: names.dropLast) : exists more, more ≠ [] ∧ names = front ++ more := by
  rcases hfront with ⟨more, hmore⟩
  refine ⟨more ++ [names.getLast hnames], by simp, ?_⟩
  rw [← List.append_assoc, hmore, List.dropLast_append_getLast]

/-!
# One activation
-/

theorem StagedBy.add (hgood : RuntimeStageable readelf first source stage requests)
    (hstaged : StagedBy readelf first source stage requests copied tree)
    (hvisited : Visited readelf first source requests p) (hnew : p ∉ copied)
    {place : FilePlace FileName} {node : FileNode FileName (List Byte)}
    (hfound : Found first source p place node) {made tree' : FileTree FileName (List Byte)}
    (hmade : DirsMade stage p.names.dropLast tree made)
    (hnode : tree'.node = Function.update made.node (stage ++ p.names) (some node)) :
    StagedBy readelf first source stage requests (copied ++ [p]) tree' := by
  have hready := hgood.ready
  have hp := hgood.paths p hvisited
  have hnames := found_names_ne hready hp hfound
  have hkeep : forall q, q ≠ stage ++ p.names -> tree'.node q = made.node q := by
    intro q hq
    rw [hnode, Function.update_of_ne hq]
  constructor
  · intro q hq
    rw [hkeep q (fun heq => hq (heq ▸ List.prefix_append _ _))]
    rcases hmade.others q with hsame | ⟨_, front, _, heq⟩
    · rw [hsame]
      exact hstaged.outside q hq
    · exact absurd (heq ▸ List.prefix_append _ _) hq
  · intro q hq
    rcases List.mem_append.mp hq with hold | hlast
    · rcases hstaged.copies q hold with ⟨hvisited', place', node', hfound', hentry⟩
      have hq' := hgood.paths q hvisited'
      refine ⟨hvisited', place', node', hfound', ?_⟩
      rw [hkeep (stage ++ q.names)]
      · rcases hmade.others (stage ++ q.names) with hsame | ⟨_, front, hfront, heq⟩
        · rw [hsame]
          exact hentry
        · rcases behind_front hnames hfront with ⟨more, hmore, hsplit⟩
          rw [← List.append_cancel_left heq] at hsplit
          exact absurd hsplit (not_below hready hq' hp hfound hmore)
      · intro heq
        rw [eq_of_names hready hq' hp (List.append_cancel_left heq)] at hold
        exact hnew hold
    · rw [List.mem_singleton.mp hlast]
      refine ⟨hvisited, place, node, hfound, ?_⟩
      rw [hnode, Function.update_self]
  · intro names
    by_cases heq : names = p.names
    · exact Or.inr (Or.inl ⟨p, by simp, heq.symm⟩)
    · rw [hkeep (stage ++ names) (fun h => heq (List.append_cancel_left h))]
      rcases hmade.others (stage ++ names) with hsame | ⟨hdir, front, hfront, hplace⟩
      · rw [hsame]
        rcases hstaged.others names with hfirst | ⟨q, hq, hqn⟩ | ⟨hdir, q, more, hq, hrest⟩
        · exact Or.inl hfirst
        · exact Or.inr (Or.inl ⟨q, List.mem_append_left _ hq, hqn⟩)
        · exact Or.inr (Or.inr ⟨hdir, q, more, List.mem_append_left _ hq, hrest⟩)
      · rcases behind_front hnames hfront with ⟨more, hmore, hsplit⟩
        rw [← List.append_cancel_left hplace] at hsplit
        exact Or.inr (Or.inr ⟨hdir, p, more, by simp, hmore, hsplit⟩)

theorem copyOnce_staged (hgood : RuntimeStageable readelf first source stage requests)
    {s s' : Stage (List Byte)} {step : CopyStep}
    (hstaged : StagedBy readelf first source stage requests s.copied s.host.tree)
    (hvisited : Visited readelf first source requests p) (hnew : p ∉ s.copied)
    (hstep : copyOnce source stage p s = (step, s'))
    (hok : forall exception, step ≠ .raised exception) :
    s'.copied = s.copied ++ [p] ∧
      StagedBy readelf first source stage requests s'.copied s'.host.tree ∧
      exists place node, Found first source p place node ∧ step = afterCopy p node := by
  have hready := hgood.ready
  have hp := hgood.paths p hvisited
  have hstart := (names_of_stays hready hp.stays).1
  unfold copyOnce at hstep
  rw [if_neg hnew] at hstep
  split at hstep
  · cases hstep
    exact absurd rfl (hok _)
  · rename_i h₁ place node hread
    have hhost : h₁.tree = s.host.tree := Host.readSource_tree hread
    have hfound : Found first source p place node :=
      (found_same hready hstaged hp.stays).mp (readSource_found.mp (congrArg Prod.snd hread)).2
    have hnames := found_names_ne hready hp hfound
    have hfree := hgood.stage p hvisited place node hfound
    have hparent : p.parent.base stage = stage ∧
        p.parent.parts = p.names.dropLast.map .name := by
      rcases p with ⟨start, names⟩
      cases hstart
      unfold PurePath.parent
      rw [if_pos hnames]
      exact ⟨rfl, List.nil_append _⟩
    have hself : p.base stage = stage ∧ p.parts = p.names.map .name := by
      rcases p with ⟨start, names⟩
      cases hstart
      exact ⟨rfl, List.nil_append _⟩
    -- on the way there are directories or nothing
    have hlinks : forall front, front <+: p.names.dropLast -> forall target,
        h₁.tree.node (stage ++ front) ≠ some (.link target) := by
      intro front hfront target
      rcases behind_front hnames hfront with ⟨more, hmore, hsplit⟩
      rw [hhost]
      rcases hstaged.others front with hsame | ⟨q, hq, hqn⟩ | ⟨hdir, _⟩
      · rw [hsame]
        refine hfree.front front ⟨more, hsplit.symm⟩ ?_ target
        intro heq
        rw [heq] at hsplit
        exact hmore (List.append_right_eq_self.mp hsplit.symm)
      · rcases hstaged.copies q hq with ⟨hvisited', _⟩
        rw [← hqn] at hsplit
        exact absurd hsplit (not_below hready (hgood.paths q hvisited') hp hfound hmore)
      · exact dir_not_link hdir target
    have hstageDir : h₁.tree.node stage = some .dir := by
      rw [hhost]
      exact stageDir_staged hgood hstaged
    rw [hparent.1, hparent.2] at hstep
    split at hstep
    · cases hstep
      exact absurd rfl (hok _)
    · rename_i h₂ hmkdir
      have hmade := mkdirAll_names hstageDir hlinks hmkdir
      rw [hhost] at hmade
      split at hstep
      · cases hstep
        exact absurd rfl (hok _)
      · rename_i h₃ hwrite
        cases hstep
        refine ⟨rfl, ?_, place, node, hfound, rfl⟩
        refine hstaged.add hgood hvisited hnew hfound hmade ?_
        cases node with
        | dir =>
            exact absurd rfl (found_not_dir hp hfound)
        | link target =>
            have hrelink : h₂.relink target (p.base stage) p.parts = (h₃, true) := hwrite
            rw [hself.1, hself.2] at hrelink
            exact relink_names hnames hmade.made hrelink
        | file content =>
            have hcopy : h₂.copyFile place content (p.base stage) p = (h₃, true) := hwrite
            rw [hself.1] at hcopy
            have hempty : h₂.tree.node (stage ++ p.names) = none := by
              rcases hmade.others (stage ++ p.names) with hsame | ⟨_, front, hfront, heq⟩
              · rw [hsame]
                rcases hstaged.others p.names with hfirst | ⟨q, hq, hqn⟩ | ⟨_, q, more, hq, hrest⟩
                · rw [hfirst]
                  exact hfree.file place content hfound
                · rcases hstaged.copies q hq with ⟨hvisited', _⟩
                  rw [eq_of_names hready (hgood.paths q hvisited') hp hqn] at hq
                  exact absurd hq hnew
                · rcases hstaged.copies q hq with ⟨hvisited', place', node', hfound', _⟩
                  exact absurd hrest.2
                    (not_below hready hp (hgood.paths q hvisited') hfound' hrest.1)
              · rcases behind_front hnames hfront with ⟨more, hmore, hsplit⟩
                rw [← List.append_cancel_left heq] at hsplit
                exact absurd (List.append_right_eq_self.mp hsplit.symm) hmore
            exact copyFile_names hself.2 hmade.made hempty hcopy

end Staged

end Staging
end Bab750
