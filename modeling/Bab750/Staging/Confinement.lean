import Bab750.Staging.Relpath

/-!
# Confinement

What `copy_relpath` and `resolve_real_source_path` look up in the source directory and write in
the stage, and which file they find. The paths are normalized as text and looked up on the host,
so that both stay inside where no linked directory leads out and no path climbs above the root.
-/

namespace Bab750
namespace Staging

open Foundation

variable {Content : Type}

/-!
# What is promised
-/

def Inside (root : FilePlace FileName) (places : List (FilePlace FileName)) : Prop :=
  forall p, p ∈ places -> root <+: p

instance (root : FilePlace FileName) (places : List (FilePlace FileName)) :
    Decidable (Inside root places) :=
  inferInstanceAs (Decidable (forall p, p ∈ places -> root <+: p))

/-- Nothing was looked up outside of the source or written outside of the stage. -/
structure Confined (sourceRoot destRoot : FilePlace FileName) (h : Host Content) : Prop where
  reads : Inside sourceRoot h.reads
  writes : Inside destRoot h.writes

/-- The activations of a run of `copy_relpath`. -/
inductive CopyVisits (sourceRoot destRoot : FilePlace FileName) :
    PurePath -> Stage Content -> PurePath -> Stage Content -> Prop
  | first (relPath : PurePath) (s : Stage Content) :
      CopyVisits sourceRoot destRoot relPath s relPath s
  | next {relPath next last : PurePath} {s s' t : Stage Content}
      (hstep : copyOnce sourceRoot destRoot relPath s = (.follows next, s'))
      (h : CopyVisits sourceRoot destRoot next s' last t) :
      CopyVisits sourceRoot destRoot relPath s last t

/-- The paths of a run of `resolve_real_source_path`. -/
inductive ResolveVisits (tree : FileTree FileName Content) (sourceRoot : FilePlace FileName) :
    PurePath -> PurePath -> Prop
  | first (relPath : PurePath) : ResolveVisits tree sourceRoot relPath relPath
  | next {relPath last : PurePath} {place : FilePlace FileName} {target : PathText FileName}
      (hplace : placeOf tree false (relPath.base sourceRoot) relPath.parts = some place)
      (hlink : tree.node place = some (.link target))
      (h : ResolveVisits tree sourceRoot (resolveSymlinkRelpath relPath target) last) :
      ResolveVisits tree sourceRoot relPath last

/-!
# When it holds
-/

/-- The system does not leave a root on its way to a path. -/
def Stays (tree : FileTree FileName Content) (follow : Bool) (root dir : FilePlace FileName)
    (parts : List (PathPart FileName)) : Prop :=
  Inside root (seenOf tree follow dir parts)

instance (tree : FileTree FileName Content) (follow : Bool) (root dir : FilePlace FileName)
    (parts : List (PathPart FileName)) : Decidable (Stays tree follow root dir parts) :=
  inferInstanceAs (Decidable (Inside _ _))

/-- On the way to the destination the stage is not left; what a file is written to is followed. -/
structure DestinationStays (tree : FileTree FileName Content) (destRoot : FilePlace FileName)
    (relPath : PurePath) (node : FileNode FileName Content) : Prop where
  path : Stays tree false destRoot (relPath.base destRoot) relPath.parts
  file : (exists content, node = .file content) ->
    Stays tree true destRoot (relPath.base destRoot)
      (copyParts tree (relPath.base destRoot) relPath)

/-- An activation of `copy_relpath` that stays inside both directories. -/
structure CopyStays (sourceRoot destRoot : FilePlace FileName) (relPath : PurePath)
    (s : Stage Content) : Prop where
  source : Stays s.host.tree false sourceRoot (relPath.base sourceRoot) relPath.parts
  destination : forall place node,
    placeOf s.host.tree false (relPath.base sourceRoot) relPath.parts = some place ->
    s.host.tree.node place = some node ->
      DestinationStays s.host.tree destRoot relPath node

/-- The normalized path of a link leads to the same place as its target. -/
def Agrees (tree : FileTree FileName Content) (sourceRoot : FilePlace FileName)
    (relPath : PurePath) : Prop :=
  forall place target place',
    placeOf tree false (relPath.base sourceRoot) relPath.parts = some place ->
    tree.node place = some (.link target) ->
    placeOf tree false ((resolveSymlinkRelpath relPath target).base sourceRoot)
      (resolveSymlinkRelpath relPath target).parts = some place' ->
      Reaches tree sourceRoot false (linkBase sourceRoot place.dropLast target) target.parts
        place'

/-- Every activation of a run of `copy_relpath` stays inside. -/
def CopyRunStays (sourceRoot destRoot : FilePlace FileName) (relPath : PurePath)
    (s : Stage Content) : Prop :=
  forall last t, CopyVisits sourceRoot destRoot relPath s last t -> last ∉ t.copied ->
    CopyStays sourceRoot destRoot last t

/-- On every path of a run of `resolve_real_source_path` the source is not left. -/
def ResolveRunStays (tree : FileTree FileName Content) (sourceRoot : FilePlace FileName)
    (relPath : PurePath) : Prop :=
  forall last, ResolveVisits tree sourceRoot relPath last ->
    Stays tree false sourceRoot (last.base sourceRoot) last.parts ∧ Agrees tree sourceRoot last

/-!
# Directories of the stage
-/

/-- The part of a destination that is there, and what the system comes by on the way. -/
structure Opened (tree : FileTree FileName Content) (root dir : FilePlace FileName)
    (made : List (PathPart FileName)) (d : FilePlace FileName) : Prop where
  walked : exists seen, walk tree [] true maxSymlinks dir made = (seen, some d) ∧ Inside root seen
  isDir : tree.node d = some .dir

def EmptyDir (tree : FileTree FileName Content) (d : FilePlace FileName) : Prop :=
  forall n, tree.node (d ++ [n]) = none

section Directories

variable {h h' : Host Content} {root dir d : FilePlace FileName}
  {made rest : List (PathPart FileName)}
  {names : List FileName}

theorem Opened.inside {tree : FileTree FileName Content} (hopen : Opened tree root dir made d)
    (hdir : root <+: dir) : root <+: d := by
  rcases hopen.walked with ⟨seen, hwalk, hseen⟩
  rcases walk_place hwalk with heq | hmem
  · rw [heq]
    exact hdir
  · exact hseen d hmem

theorem opened_nil {tree : FileTree FileName Content} (hdir : tree.node dir = some .dir) :
    Opened tree root dir [] dir :=
  ⟨⟨[], walk_nil _, nofun⟩, hdir⟩

theorem opened_isDirAt {tree : FileTree FileName Content} {follow : Bool}
    (hthere : isDirAt tree dir made = true) (hmore : rest ≠ [])
    (hstays : Stays tree follow root dir (made ++ rest)) :
    exists d, Opened tree root dir made d := by
  unfold isDirAt placeOf at hthere
  rcases hwalk : walk tree [] true maxSymlinks dir made with ⟨seen, place⟩
  rw [hwalk] at hthere
  cases place with
  | none =>
      cases hthere
  | some d =>
      have hnode : tree.node d = some .dir := FileTree.isDir_iff.mp hthere
      rcases walk_append hwalk with ⟨left, hleft⟩
      refine ⟨d, ⟨seen, hwalk, ?_⟩, hnode⟩
      intro q hq
      apply hstays q
      unfold seenOf
      rw [hleft follow rest hmore]
      exact List.mem_cons_of_mem _ (List.mem_append_left _ hq)

theorem put_keeps {tree tree' : FileTree FileName Content} {place : FilePlace FileName}
    {entry : Option (FileNode FileName Content)} (hput : tree.put place entry = some tree')
    {q : FilePlace FileName} (hq : q ≠ place) : tree'.node q = tree.node q := by
  rw [(FileTree.put_node hput).1, Function.update_of_ne hq]

theorem put_sets {tree tree' : FileTree FileName Content} {place : FilePlace FileName}
    {entry : Option (FileNode FileName Content)} (hput : tree.put place entry = some tree') :
    tree'.node place = entry := by
  rw [(FileTree.put_node hput).1, Function.update_self]

theorem host_put {place : FilePlace FileName} {entry : Option (FileNode FileName Content)}
    (hput : h.put place entry = some h') :
    h.tree.put place entry = some h'.tree ∧ h'.reads = h.reads ∧
      h'.writes = h.writes ++ [place] := by
  unfold Host.put at hput
  rcases Option.map_eq_some_iff.mp hput with ⟨tree, htree, heq⟩
  cases heq
  exact ⟨htree, rfl, rfl⟩

/-- The place of a last name that is not followed, or is no link. -/
theorem opened_name {tree : FileTree FileName Content} {n : FileName} (follow : Bool)
    (hopen : Opened tree root dir made d) (hdir : root <+: dir)
    (hlast : follow = false ∨ forall target, tree.node (d ++ [n]) ≠ some (.link target)) :
    placeOf tree follow dir (made ++ [.name n]) = some (d ++ [n]) ∧
      Stays tree follow root dir (made ++ [.name n]) := by
  rcases hopen.walked with ⟨seen, hwalk, hseen⟩
  rcases walk_append hwalk with ⟨left, hleft⟩
  have hstep := hleft follow [.name n] (by simp)
  rw [walk_name left hopen.isDir hlast] at hstep
  unfold placeOf Stays seenOf
  rw [hstep]
  refine ⟨rfl, ?_⟩
  intro q hq
  rcases List.mem_cons.mp hq with heq | hmem
  · rw [heq]
    exact hdir
  · rcases List.mem_append.mp hmem with hbefore | hlast
    · exact hseen q hbefore
    · rw [List.mem_singleton.mp hlast]
      exact (hopen.inside hdir).trans (List.prefix_append _ _)

theorem mkdir_opened {n : FileName} (hroot : h.tree.node dir = some .dir)
    (hopen : Opened h.tree root dir made d) (hdir : root <+: dir)
    (hmkdir : h.mkdir dir (made ++ [.name n]) = some h') :
    h'.reads = h.reads ∧ h'.writes = h.writes ++ [d ++ [n]] ∧ h'.tree.node dir = some .dir ∧
      Opened h'.tree root dir (made ++ [.name n]) (d ++ [n]) ∧
      EmptyDir h'.tree (d ++ [n]) := by
  unfold Host.mkdir at hmkdir
  rw [(opened_name false hopen hdir (Or.inl rfl)).1] at hmkdir
  dsimp only at hmkdir
  split at hmkdir
  · rename_i hnone
    have hmissing : h.tree.node (d ++ [n]) = none := Option.isNone_iff_eq_none.mp hnone
    rcases host_put hmkdir with ⟨hput, hreads, hwrites⟩
    have hkeep : forall q, h.tree.node q ≠ none -> h'.tree.node q = h.tree.node q := by
      intro q hq
      apply put_keeps hput
      intro heq
      rw [heq] at hq
      exact hq hmissing
    have hnew : h'.tree.node (d ++ [n]) = some .dir := put_sets hput
    rcases hopen.walked with ⟨seen, hwalk, hseen⟩
    have hsame : walk h'.tree [] true maxSymlinks dir made = (seen, some d) := by
      rw [← hwalk]
      apply walk_congr (hkeep dir (by rw [hroot]; nofun))
      intro q hq
      rw [hwalk] at hq
      exact hkeep q (walk_exists h.tree.topDir (by rw [hroot]; nofun) hwalk
        (by rw [hopen.isDir]; nofun) hq)
    have hdirAfter : h'.tree.node d = some .dir := by
      rw [hkeep d (by rw [hopen.isDir]; nofun)]
      exact hopen.isDir
    refine ⟨hreads, hwrites, ?_, ⟨?_, hnew⟩, ?_⟩
    · rw [hkeep dir (by rw [hroot]; nofun)]
      exact hroot
    · rcases walk_append hsame with ⟨left, hleft⟩
      have hstep := hleft true [.name n] (by simp)
      rw [walk_name left hdirAfter (Or.inr (dir_not_link hnew))] at hstep
      refine ⟨_, hstep, ?_⟩
      intro q hq
      rcases List.mem_append.mp hq with hbefore | hlast
      · exact hseen q hbefore
      · rw [List.mem_singleton.mp hlast]
        exact (hopen.inside hdir).trans (List.prefix_append _ _)
    · intro m
      rw [put_keeps hput (by simp)]
      by_contra hsome
      have hparent := h.tree.closed _ _ hsome
      rw [hmissing] at hparent
      cases hparent
  · cases hmkdir

theorem inside_snoc {places : List (FilePlace FileName)} {place : FilePlace FileName}
    (h : Inside root places) (hplace : root <+: place) : Inside root (places ++ [place]) := by
  intro q hq
  rcases List.mem_append.mp hq with hbefore | hlast
  · exact h q hbefore
  · rw [List.mem_singleton.mp hlast]
    exact hplace

theorem mkdirParts_empty {ok : Bool} (hroot : h.tree.node dir = some .dir) (hdir : root <+: dir)
    (hopen : Opened h.tree root dir made d) (hempty : EmptyDir h.tree d)
    (hwrites : Inside root h.writes)
    (hrun : h.mkdirParts dir made (names.map .name) = (h', ok)) :
    h'.reads = h.reads ∧ Inside root h'.writes ∧
      (ok = true -> h'.tree.node dir = some .dir ∧ exists d',
        Opened h'.tree root dir (made ++ names.map .name) d' ∧ EmptyDir h'.tree d') := by
  induction names generalizing h made d with
  | nil =>
      cases hrun
      rw [List.map_nil, List.append_nil]
      exact ⟨rfl, hwrites, fun _ => ⟨hroot, d, hopen, hempty⟩⟩
  | cons n names ih =>
      have hmissing : isDirAt h.tree dir (made ++ [.name n]) = false := by
        unfold isDirAt
        rw [(opened_name true hopen hdir (Or.inr (by rw [hempty n]; nofun))).1]
        show h.tree.isDir (d ++ [n]) = false
        rw [FileTree.isDir, hempty n]
      rw [List.map_cons, Host.mkdirParts, hmissing, if_neg Bool.false_ne_true] at hrun
      cases hmkdir : h.mkdir dir (made ++ [.name n]) with
      | none =>
          rw [hmkdir] at hrun
          cases hrun
          exact ⟨rfl, hwrites, nofun⟩
      | some h₁ =>
          rw [hmkdir] at hrun
          rcases mkdir_opened hroot hopen hdir hmkdir with
            ⟨hreads, hnew, hroot', hopen', hempty'⟩
          have hinside : Inside root h₁.writes := by
            rw [hnew]
            exact inside_snoc hwrites
              ((hopen.inside hdir).trans (List.prefix_append _ _))
          have hrest := ih hroot' hopen' hempty' hinside hrun
          rw [List.append_assoc, List.singleton_append] at hrest
          exact ⟨hrest.1.trans hreads, hrest.2.1, hrest.2.2⟩

def NamesLast (parts : List (PathPart FileName)) : Prop :=
  .here ∉ parts ∧
    parts.Pairwise (fun a b => forall n : FileName, a = .name n -> exists m, b = .name m)

theorem NamesLast.tail {part : PathPart FileName} (hlast : NamesLast (part :: rest)) :
    NamesLast rest :=
  ⟨fun hmem => hlast.1 (List.mem_cons_of_mem _ hmem), (List.pairwise_cons.mp hlast.2).2⟩

theorem NamesLast.allNames {n : FileName} (hlast : NamesLast (.name n :: rest)) :
    exists names : List FileName, rest = names.map PathPart.name := by
  have hall := (List.pairwise_cons.mp hlast.2).1
  clear hlast
  induction rest with
  | nil =>
      exact ⟨[], rfl⟩
  | cons part rest ih =>
      rcases hall part List.mem_cons_self n rfl with ⟨m, hm⟩
      rcases ih (fun b hb => hall b (List.mem_cons_of_mem _ hb)) with ⟨names, hnames⟩
      exact ⟨m :: names, by rw [hm, hnames, List.map_cons]⟩

theorem opened_up {tree : FileTree FileName Content} (hopen : Opened tree root dir made d) :
    isDirAt tree dir (made ++ [.up]) = true := by
  rcases hopen.walked with ⟨seen, hwalk, hseen⟩
  rcases walk_append hwalk with ⟨left, hleft⟩
  have hstep := hleft true [.up] (by simp)
  rw [walk_up left hopen.isDir] at hstep
  unfold isDirAt placeOf
  rw [hstep]
  exact FileTree.isDir_iff.mpr (parent_dir tree.topDir hopen.isDir)

/-- All directories of a path that stays inside, when some more of the path is to come. -/
theorem mkdirParts_inside {ok : Bool} {tail : List (PathPart FileName)}
    (hroot : h.tree.node dir = some .dir) (hdir : root <+: dir)
    (hopen : Opened h.tree root dir made d)
    (hstays : Stays h.tree false root dir (made ++ (rest ++ tail)))
    (hlast : NamesLast (rest ++ tail)) (hwrites : Inside root h.writes)
    (hrun : h.mkdirParts dir made rest = (h', ok)) :
    h'.reads = h.reads ∧ Inside root h'.writes ∧
      (ok = true -> tail ≠ [] -> exists d', Opened h'.tree root dir (made ++ rest) d' ∧
        (h' = h ∨ (h'.tree.node dir = some .dir ∧ EmptyDir h'.tree d' ∧
          exists names : List FileName, tail = names.map PathPart.name))) := by
  induction rest generalizing made d with
  | nil =>
      cases hrun
      rw [List.append_nil]
      exact ⟨rfl, hwrites, fun _ _ => ⟨d, hopen, Or.inl rfl⟩⟩
  | cons part rest ih =>
      rw [Host.mkdirParts] at hrun
      cases hthere : isDirAt h.tree dir (made ++ [part]) with
      | true =>
          rw [hthere, if_pos rfl] at hrun
          by_cases hmore : rest ++ tail = []
          · rcases List.append_eq_nil_iff.mp hmore with ⟨hrest, htail⟩
            rw [hrest] at hrun
            cases hrun
            exact ⟨rfl, hwrites, fun _ hne => absurd htail hne⟩
          · have hstays' : Stays h.tree false root dir ((made ++ [part]) ++ (rest ++ tail)) := by
              rw [List.append_assoc]
              exact hstays
            rcases opened_isDirAt hthere hmore hstays' with ⟨d₁, hopen₁⟩
            have hall := ih hopen₁ hstays' hlast.tail hrun
            rw [List.append_assoc, List.singleton_append] at hall
            exact hall
      | false =>
          rw [hthere, if_neg Bool.false_ne_true] at hrun
          cases part with
          | here =>
              exact absurd List.mem_cons_self hlast.1
          | up =>
              rw [opened_up hopen] at hthere
              cases hthere
          | name n =>
              cases hmkdir : h.mkdir dir (made ++ [.name n]) with
              | none =>
                  rw [hmkdir] at hrun
                  cases hrun
                  exact ⟨rfl, hwrites, nofun⟩
              | some h₁ =>
                  rw [hmkdir] at hrun
                  rcases mkdir_opened hroot hopen hdir hmkdir with
                    ⟨hreads, hnew, hroot', hopen', hempty'⟩
                  have hinside : Inside root h₁.writes := by
                    rw [hnew]
                    exact inside_snoc hwrites
                      ((hopen.inside hdir).trans (List.prefix_append _ _))
                  rcases hlast.allNames with ⟨names, hnames⟩
                  rcases List.append_eq_map_iff.mp hnames with
                    ⟨front, back, _, hfront, hback⟩
                  rw [← hfront] at hrun
                  have hall := mkdirParts_empty hroot' hdir hopen' hempty' hinside hrun
                  rw [hfront, List.append_assoc, List.singleton_append] at hall
                  refine ⟨hall.1.trans hreads, hall.2.1, fun hok _ => ?_⟩
                  rcases hall.2.2 hok with ⟨hroot₂, d', hopened, hempty⟩
                  exact ⟨d', hopened, Or.inr ⟨hroot₂, hempty, back, hback.symm⟩⟩

end Directories

/-!
# One path
-/

theorem parts_namesLast (p : PurePath) : NamesLast p.parts := by
  have hnames : forall part, part ∈ p.names.map PathPart.name -> exists m, part = .name m := by
    intro part hpart
    rcases List.mem_map.mp hpart with ⟨m, _, hm⟩
    exact ⟨m, hm.symm⟩
  have hlater : (p.names.map PathPart.name).Pairwise
      (fun a b => forall n : FileName, a = .name n -> exists m, b = .name m) :=
    List.pairwise_of_forall_mem_list (fun a _ b hb n _ => hnames b hb)
  unfold PurePath.parts
  cases p.start with
  | root =>
      refine ⟨fun hmem => ?_, hlater⟩
      rcases hnames _ hmem with ⟨m, hm⟩
      cases hm
  | above ups =>
      constructor
      · intro hmem
        rcases List.mem_append.mp hmem with hup | hname
        · cases List.eq_of_mem_replicate hup
        · rcases hnames _ hname with ⟨m, hm⟩
          cases hm
      · refine List.pairwise_append.mpr ⟨?_, hlater, ?_⟩
        · refine List.pairwise_of_forall_mem_list (fun a ha b hb n hn => ?_)
          rw [List.eq_of_mem_replicate ha] at hn
          cases hn
        · intro a _ b hb n _
          exact hnames b hb

theorem parts_parent (p : PurePath) (dir : FilePlace FileName) :
    p.parent.base dir = p.base dir ∧
      ((p.parts = [] ∧ p.parent.parts = []) ∨
        exists last, p.parts = p.parent.parts ++ [last]) := by
  rcases p with ⟨start, names⟩
  unfold PurePath.parent
  by_cases hnames : names = []
  · rw [hnames, if_neg (not_not.mpr rfl)]
    cases start with
    | root =>
        exact ⟨rfl, Or.inl ⟨rfl, rfl⟩⟩
    | above ups =>
        cases ups with
        | zero =>
            exact ⟨rfl, Or.inl ⟨rfl, rfl⟩⟩
        | succ ups =>
            refine ⟨rfl, Or.inr ⟨.up, ?_⟩⟩
            show List.replicate (ups + 1) PathPart.up ++ [] =
              (List.replicate ups PathPart.up ++ []) ++ [.up]
            rw [List.append_nil, List.append_nil, List.replicate_succ']
  · rw [if_pos hnames]
    refine ⟨rfl, Or.inr ⟨.name (names.getLast hnames), ?_⟩⟩
    show _ ++ names.map PathPart.name = (_ ++ names.dropLast.map PathPart.name) ++ [_]
    rw [List.append_assoc]
    congr 1
    conv_lhs => rw [← List.dropLast_append_getLast hnames]
    rw [List.map_append]
    rfl

section OnePath

variable {h h' : Host Content} {sourceRoot destRoot : FilePlace FileName} {relPath : PurePath}

/-- The state behind `destination.parent.mkdir`. -/
structure ParentMade (destRoot : FilePlace FileName) (relPath : PurePath)
    (node : FileNode FileName Content) (h : Host Content) : Prop where
  root : h.tree.node (relPath.base destRoot) = some .dir
  inside : destRoot <+: relPath.base destRoot
  stays : DestinationStays h.tree destRoot relPath node
  writes : Inside destRoot h.writes

theorem parentMade {node : FileNode FileName Content} {ok : Bool}
    (hwrites : Inside destRoot h.writes) (hstays : DestinationStays h.tree destRoot relPath node)
    (hrun : h.mkdirAll (relPath.parent.base destRoot) relPath.parent.parts = (h', ok)) :
    h'.reads = h.reads ∧ Inside destRoot h'.writes ∧
      (ok = true -> ParentMade destRoot relPath node h') := by
  rcases parts_parent relPath destRoot with ⟨hbase, hparts⟩
  have hinside : destRoot <+: relPath.base destRoot := hstays.path _ List.mem_cons_self
  unfold Host.mkdirAll at hrun
  rw [hbase] at hrun
  split at hrun
  · rename_i hisDir
    have hroot := FileTree.isDir_iff.mp hisDir
    rcases hparts with ⟨hnil, hparent⟩ | ⟨last, hsplit⟩
    · rw [hparent] at hrun
      cases hrun
      exact ⟨rfl, hwrites, fun _ => ⟨hroot, hinside, hstays, hwrites⟩⟩
    · have hpath := hstays.path
      have hlast := parts_namesLast relPath
      rw [hsplit] at hpath hlast
      rcases mkdirParts_inside hroot hinside (opened_nil hroot) hpath hlast hwrites hrun with
        ⟨hreads, hwrites', hopened⟩
      refine ⟨hreads, hwrites', fun hok => ?_⟩
      rcases hopened hok (by simp) with ⟨d, hopen, hsame | ⟨hroot', hempty, names, hnames⟩⟩
      · rw [hsame]
        exact ⟨hroot, hinside, hstays, hwrites⟩
      · -- the destination itself is missing in a directory that was made
        have hname : exists n, last = .name n := by
          cases names with
          | nil => cases hnames
          | cons n names => exact ⟨n, (List.cons.inj hnames).1⟩
        rcases hname with ⟨n, hn⟩
        rw [hn] at hsplit
        rw [List.nil_append] at hopen
        have hother : forall target, h'.tree.node (d ++ [n]) ≠ some (.link target) := by
          rw [hempty n]
          nofun
        have hfollowed := opened_name true hopen hinside (Or.inr hother)
        have hmissing : isDirAt h'.tree (relPath.base destRoot) relPath.parts = false := by
          unfold isDirAt
          rw [hsplit, hfollowed.1]
          show h'.tree.isDir (d ++ [n]) = false
          rw [FileTree.isDir, hempty n]
        refine ⟨hroot', hinside, ⟨?_, fun _ => ?_⟩, hwrites'⟩
        · rw [hsplit]
          exact (opened_name false hopen hinside (Or.inl rfl)).2
        · rw [copyParts, hmissing, if_neg Bool.false_ne_true, hsplit]
          exact hfollowed.2
  · cases hrun
    exact ⟨rfl, hwrites, nofun⟩

theorem placeOf_inside {tree : FileTree FileName Content} {follow : Bool}
    {root dir place : FilePlace FileName} {parts : List (PathPart FileName)}
    (hstays : Stays tree follow root dir parts)
    (hplace : placeOf tree follow dir parts = some place) : root <+: place := by
  unfold placeOf at hplace
  rcases hwalk : walk tree [] follow maxSymlinks dir parts with ⟨seen, found⟩
  rw [hwalk] at hplace
  cases hplace
  apply hstays
  unfold seenOf
  rw [hwalk]
  rcases walk_place hwalk with heq | hmem
  · rw [heq]
    exact List.mem_cons_self
  · exact List.mem_cons_of_mem _ hmem

theorem stays_removed {tree tree' : FileTree FileName Content} {follow : Bool}
    {root dir place : FilePlace FileName} {parts : List (PathPart FileName)}
    (hput : tree.put place none = some tree') (hstays : Stays tree follow root dir parts) :
    Stays tree' follow root dir parts := by
  have hfewer : forall q, tree'.node q = tree.node q ∨ tree'.node q = none := by
    intro q
    by_cases hq : q = place
    · rw [hq]
      exact Or.inr (put_sets hput)
    · exact Or.inl (put_keeps hput hq)
  intro q hq
  apply hstays
  rcases List.mem_cons.mp hq with heq | hmem
  · exact List.mem_cons.mpr (Or.inl heq)
  · exact List.mem_cons_of_mem _ (walk_fewer hfewer hmem)

theorem relink_inside {target : PathText FileName} {root dir : FilePlace FileName} {ok : Bool}
    {parts : List (PathPart FileName)} (hwrites : Inside root h.writes)
    (hstays : Stays h.tree false root dir parts)
    (hrun : h.relink target dir parts = (h', ok)) :
    h'.reads = h.reads ∧ Inside root h'.writes := by
  have hsymlink : forall {h₁ h₂ : Host Content}, Inside root h₁.writes ->
      Stays h₁.tree false root dir parts -> h₁.symlink target dir parts = some h₂ ->
        h₂.reads = h₁.reads ∧ Inside root h₂.writes := by
    intro h₁ h₂ hwrites₁ hstays₁ hlink
    unfold Host.symlink at hlink
    split at hlink
    · rename_i place hplace
      split at hlink
      · rcases host_put hlink with ⟨_, hreads, hnew⟩
        rw [hnew]
        exact ⟨hreads, inside_snoc hwrites₁ (placeOf_inside hstays₁ hplace)⟩
      · cases hlink
    · cases hlink
  have hunlink : forall {h₁ : Host Content}, h.unlinkOld dir parts = some h₁ ->
      h₁.reads = h.reads ∧ Inside root h₁.writes ∧ Stays h₁.tree false root dir parts := by
    intro h₁ hunlinked
    unfold Host.unlinkOld at hunlinked
    split at hunlinked
    · rcases Option.bind_eq_some_iff.mp hunlinked with ⟨place, hplace, hput⟩
      rcases host_put hput with ⟨htree, hreads, hnew⟩
      rw [hnew]
      exact ⟨hreads, inside_snoc hwrites (placeOf_inside hstays hplace),
        stays_removed htree hstays⟩
    · cases hunlinked
      exact ⟨rfl, hwrites, hstays⟩
  unfold Host.relink at hrun
  split at hrun
  · cases hrun
    exact ⟨rfl, hwrites⟩
  · rename_i h₁ hunlinked
    rcases hunlink hunlinked with ⟨hreads₁, hwrites₁, hstays₁⟩
    split at hrun
    · cases hrun
      exact ⟨hreads₁, hwrites₁⟩
    · rename_i h₂ hlinked
      cases hrun
      rcases hsymlink hwrites₁ hstays₁ hlinked with ⟨hreads₂, hwrites₂⟩
      exact ⟨hreads₂.trans hreads₁, hwrites₂⟩

theorem writeCopy_inside {node : FileNode FileName Content} {source : FilePlace FileName}
    {ok : Bool}
    (hmade : ParentMade destRoot relPath node h)
    (hrun : writeCopy destRoot relPath source node h = (h', ok)) :
    h'.reads = h.reads ∧ Inside destRoot h'.writes := by
  cases node with
  | link target =>
      exact relink_inside hmade.writes hmade.stays.path hrun
  | dir =>
      have hrun' : h.mkdirAll (relPath.base destRoot) relPath.parts = (h', ok) := hrun
      unfold Host.mkdirAll at hrun'
      rw [if_pos (FileTree.isDir_iff.mpr hmade.root)] at hrun'
      have hpath : Stays h.tree false destRoot (relPath.base destRoot)
          ([] ++ (relPath.parts ++ [])) := by
        rw [List.append_nil]
        exact hmade.stays.path
      have hlast : NamesLast (relPath.parts ++ []) := by
        rw [List.append_nil]
        exact parts_namesLast relPath
      rcases mkdirParts_inside hmade.root hmade.inside (opened_nil hmade.root) hpath hlast
        hmade.writes hrun' with ⟨hreads, hwrites, _⟩
      exact ⟨hreads, hwrites⟩
  | file content =>
      have hrun' : h.copyFile source content (relPath.base destRoot) relPath = (h', ok) := hrun
      unfold Host.copyFile at hrun'
      split at hrun'
      · cases hrun'
        exact ⟨rfl, hmade.writes⟩
      · rename_i place hplace
        split at hrun'
        · cases hrun'
          exact ⟨rfl, hmade.writes⟩
        · split at hrun'
          · cases hrun'
            exact ⟨rfl, hmade.writes⟩
          · rename_i h₁ hput
            cases hrun'
            rcases host_put hput with ⟨_, hreads, hnew⟩
            rw [hnew]
            exact ⟨hreads, inside_snoc hmade.writes
              (placeOf_inside (hmade.stays.file ⟨content, rfl⟩) hplace)⟩

theorem copyOnce_confined {s s' : Stage Content} {step : CopyStep}
    (hconfined : Confined sourceRoot destRoot s.host)
    (hstays : relPath ∉ s.copied -> CopyStays sourceRoot destRoot relPath s)
    (hstep : copyOnce sourceRoot destRoot relPath s = (step, s')) :
    Confined sourceRoot destRoot s'.host := by
  unfold copyOnce at hstep
  split at hstep
  · cases hstep
    exact hconfined
  · rename_i hcopied
    rcases hstays hcopied with ⟨hsource, hdestination⟩
    have hread : Inside sourceRoot (s.host.reads ++
        seenOf s.host.tree false (relPath.base sourceRoot) relPath.parts) := by
      intro q hq
      rcases List.mem_append.mp hq with hbefore | hseen
      · exact hconfined.reads q hbefore
      · exact hsource q hseen
    by_cases hfits : relPath.Fits sourceRoot
    swap
    · rw [Host.readSource_long hfits] at hstep
      cases hstep
      exact hconfined
    rw [Host.readSource_fits hfits] at hstep
    split at hstep
    · rename_i h₁ hfound
      cases hstep
      rw [← (Prod.mk.inj hfound).1]
      exact ⟨hread, hconfined.writes⟩
    · rename_i h₁ source node hfound
      rcases Prod.mk.inj hfound with ⟨hhost, hnode⟩
      rcases Option.bind_eq_some_iff.mp hnode with ⟨place, hplace, hmap⟩
      rcases Option.map_eq_some_iff.mp hmap with ⟨node', hthere, hpair⟩
      cases hpair
      have hwrites : Inside destRoot h₁.writes := by
        rw [← hhost]
        exact hconfined.writes
      have hreads : h₁.reads = s.host.reads ++
          seenOf s.host.tree false (relPath.base sourceRoot) relPath.parts := by
        rw [← hhost]
      have hdest : DestinationStays h₁.tree destRoot relPath node := by
        rw [← hhost]
        exact hdestination source node hplace hthere
      split at hstep
      · rename_i h₂ hparent
        cases hstep
        rcases parentMade hwrites hdest hparent with ⟨hsame, hinside, _⟩
        refine ⟨?_, hinside⟩
        rw [hsame, hreads]
        exact hread
      · rename_i h₂ hparent
        rcases parentMade hwrites hdest hparent with ⟨hsame, hinside, hmade⟩
        have hready := hmade rfl
        split at hstep
        · rename_i h₃ hcopy
          cases hstep
          rcases writeCopy_inside hready hcopy with ⟨hsame', hinside'⟩
          refine ⟨?_, hinside'⟩
          rw [hsame', hsame, hreads]
          exact hread
        · rename_i h₃ hcopy
          cases hstep
          rcases writeCopy_inside hready hcopy with ⟨hsame', hinside'⟩
          refine ⟨?_, hinside'⟩
          rw [hsame', hsame, hreads]
          exact hread

theorem copyRelpath_confined {s : Stage Content} (fuel : Nat)
    (hconfined : Confined sourceRoot destRoot s.host)
    (hstays : CopyRunStays sourceRoot destRoot relPath s) :
    Confined sourceRoot destRoot (copyRelpath sourceRoot destRoot fuel relPath s).2.host := by
  induction fuel generalizing relPath s with
  | zero =>
      exact hconfined
  | succ fuel ih =>
      rcases hstep : copyOnce sourceRoot destRoot relPath s with ⟨step, s'⟩
      have hnext := copyOnce_confined hconfined (hstays relPath s (.first relPath s)) hstep
      unfold copyRelpath
      rw [hstep]
      cases step with
      | returned => exact hnext
      | raised exception => exact hnext
      | follows next =>
          exact ih hnext (fun last t hvisits => hstays last t (.next hstep hvisits))

end OnePath

/-!
# The real path
-/

section RealPath

variable {sourceRoot destRoot : FilePlace FileName}

/-- A path that stays inside begins at the root and leads to the same place in a tree with it. -/
theorem stays_reaches {tree : FileTree FileName Content} {relPath : PurePath}
    {place : FilePlace FileName}
    (hstays : Stays tree false sourceRoot (relPath.base sourceRoot) relPath.parts)
    (hplace : placeOf tree false (relPath.base sourceRoot) relPath.parts = some place) :
    Reaches tree sourceRoot false sourceRoot relPath.parts place := by
  have hbase : relPath.base sourceRoot = sourceRoot := by
    have hinside := hstays _ List.mem_cons_self
    unfold PurePath.base at hinside ⊢
    split at hinside
    · exact (List.prefix_nil.mp hinside).symm
    · rfl
  have hwalk := walk_inside (hstays _ List.mem_cons_self)
    (fun q hq => hstays q (List.mem_cons_of_mem _ hq))
  unfold placeOf at hplace
  rw [← hwalk, hbase] at hplace
  exact reaches_of_walk hplace

/-- A run of `resolve_real_source_path`: what it looks up, and the place of what it returns. -/
theorem resolveRealSourcePath_follows {relPath : PurePath} {h : Host Content} (fuel : Nat)
    (hreads : Inside sourceRoot h.reads) (hstays : ResolveRunStays h.tree sourceRoot relPath) :
    Inside sourceRoot (resolveRealSourcePath sourceRoot fuel relPath h).2.reads ∧
      (resolveRealSourcePath sourceRoot fuel relPath h).2.writes = h.writes ∧
      forall p place, (resolveRealSourcePath sourceRoot fuel relPath h).1 =
        .returned (p, place) ->
          placeOf h.tree false (p.base sourceRoot) p.parts = some place ∧
            exists first, placeOf h.tree false (relPath.base sourceRoot) relPath.parts =
              some first ∧ Follows h.tree sourceRoot first place := by
  induction fuel generalizing relPath h with
  | zero =>
      exact ⟨hreads, rfl, nofun⟩
  | succ fuel ih =>
      rcases hstays relPath (.first relPath) with ⟨hsource, hagrees⟩
      have hreads' : Inside sourceRoot (h.reads ++
          seenOf h.tree false (relPath.base sourceRoot) relPath.parts) := by
        intro q hq
        rcases List.mem_append.mp hq with hbefore | hseen
        · exact hreads q hbefore
        · exact hsource q hseen
      rw [resolveRealSourcePath]
      by_cases hfits : relPath.Fits sourceRoot
      swap
      · rw [Host.readSource_long hfits]
        exact ⟨hreads, rfl, nofun⟩
      rw [Host.readSource_fits hfits]
      cases hplace : placeOf h.tree false (relPath.base sourceRoot) relPath.parts with
      | none =>
          exact ⟨hreads', rfl, nofun⟩
      | some place =>
          rw [Option.bind_some]
          cases hnode : h.tree.node place with
          | none =>
              exact ⟨hreads', rfl, nofun⟩
          | some node =>
              cases node with
              | dir =>
                  refine ⟨hreads', rfl, ?_⟩
                  intro p found hreturned
                  cases hreturned
                  exact ⟨hplace, place, rfl, .stays (by rw [hnode]; nofun)⟩
              | file content =>
                  refine ⟨hreads', rfl, ?_⟩
                  intro p found hreturned
                  cases hreturned
                  exact ⟨hplace, place, rfl, .stays (by rw [hnode]; nofun)⟩
              | link target =>
                  rcases ih (h := ⟨h.tree, h.reads ++
                      seenOf h.tree false (relPath.base sourceRoot) relPath.parts, h.writes⟩)
                    hreads' (fun last hvisits => hstays last (.next hplace hnode hvisits)) with
                    ⟨hmore, hwrites, hfound⟩
                  refine ⟨hmore, hwrites, ?_⟩
                  intro p found hreturned
                  rcases hfound p found hreturned with ⟨hp, next, hnext, hfollows⟩
                  exact ⟨hp, place, rfl, .link hnode
                    (hagrees place target next hplace hnode hnext) hfollows⟩

end RealPath

/--
In runs that stay inside, both functions keep to the source and to the stage, and the real path
is the place that the target system finds for the path.
-/
theorem staging_confined {sourceRoot destRoot : FilePlace FileName} {relPath : PurePath}
    {s : Stage Content} (hroot : s.host.tree.node sourceRoot = some .dir)
    (hconfined : Confined sourceRoot destRoot s.host) (fuel : Nat) :
    (CopyRunStays sourceRoot destRoot relPath s ->
      Confined sourceRoot destRoot (copyRelpath sourceRoot destRoot fuel relPath s).2.host) ∧
    (ResolveRunStays s.host.tree sourceRoot relPath ->
      Confined sourceRoot destRoot (resolveRealSourcePath sourceRoot fuel relPath s.host).2 ∧
      forall p place, (resolveRealSourcePath sourceRoot fuel relPath s.host).1 =
        .returned (p, place) ->
          placeOf s.host.tree false (p.base sourceRoot) p.parts = some place ∧
            Reaches s.host.tree sourceRoot true sourceRoot relPath.parts place) := by
  constructor
  · exact copyRelpath_confined fuel hconfined
  · intro hstays
    rcases resolveRealSourcePath_follows fuel hconfined.reads hstays with
      ⟨hreads, hwrites, hfound⟩
    refine ⟨⟨hreads, by rw [hwrites]; exact hconfined.writes⟩, ?_⟩
    intro p place hreturned
    rcases hfound p place hreturned with ⟨hp, first, hfirst, hfollows⟩
    have hreach := stays_reaches (hstays relPath (.first relPath)).1 hfirst
    exact ⟨hp, hreach.follows hroot hfollows hroot⟩

/-!
# Two trees
-/

def sampleSource : FilePlace FileName := [ascii "src"]

def sampleDest : FilePlace FileName := [ascii "tmp", ascii "stage"]

/-- A source with `bin/dash`, a link `bin/sh` with some target, and an empty stage. -/
def shellTree (target : List (PathPart FileName)) : FileTree FileName (List Byte) :=
  .ofEntries [([ascii "src"], .dir), ([ascii "src", ascii "bin"], .dir),
    ([ascii "src", ascii "bin", ascii "dash"], .file (ascii "dash")),
    ([ascii "src", ascii "bin", ascii "sh"], .link ⟨false, target⟩),
    ([ascii "etc"], .dir), ([ascii "etc", ascii "shadow"], .file (ascii "root")),
    ([ascii "tmp"], .dir), ([ascii "tmp", ascii "stage"], .dir)]

def shellStage (target : List (PathPart FileName)) : Stage (List Byte) :=
  ⟨⟨shellTree target, [], []⟩, []⟩

def shellPath : PurePath := ⟨.above 0, [ascii "bin", ascii "sh"]⟩

def dashPath : PurePath := ⟨.above 0, [ascii "bin", ascii "dash"]⟩

theorem CopyStays.of_lookup {sourceRoot destRoot : FilePlace FileName} {relPath : PurePath}
    {s : Stage Content} (place : FilePlace FileName) (node : FileNode FileName Content)
    (hsource : Stays s.host.tree false sourceRoot (relPath.base sourceRoot) relPath.parts)
    (hplace : placeOf s.host.tree false (relPath.base sourceRoot) relPath.parts = some place)
    (hnode : s.host.tree.node place = some node)
    (hdest : DestinationStays s.host.tree destRoot relPath node) :
    CopyStays sourceRoot destRoot relPath s := by
  refine ⟨hsource, ?_⟩
  intro place' node' hplace' hnode'
  rw [hplace] at hplace'
  cases hplace'
  rw [hnode] at hnode'
  cases hnode'
  exact hdest

theorem shell_copyRunStays :
    CopyRunStays sampleSource sampleDest shellPath (shellStage [.name (ascii "dash")]) := by
  intro last t hvisits hnew
  cases hvisits with
  | first =>
      exact .of_lookup [ascii "src", ascii "bin", ascii "sh"]
        (.link ⟨false, [.name (ascii "dash")]⟩) (by decide +kernel) (by decide +kernel)
        (by decide +kernel) ⟨by decide +kernel, by rintro ⟨content, h⟩; cases h⟩
  | next hstep h =>
      have hfirst : (copyOnce sampleSource sampleDest shellPath
          (shellStage [.name (ascii "dash")])).1 = .follows dashPath := by decide +kernel
      rw [hstep] at hfirst
      cases hfirst
      have hstage : (copyOnce sampleSource sampleDest shellPath
          (shellStage [.name (ascii "dash")])).2 = _ := congrArg Prod.snd hstep
      dsimp only at hstage
      rw [← hstage] at h
      cases h with
      | first =>
          exact .of_lookup [ascii "src", ascii "bin", ascii "dash"]
            (.file (ascii "dash")) (by decide +kernel) (by decide +kernel)
            (by decide +kernel) ⟨by decide +kernel, fun _ => by decide +kernel⟩
      | next hstep' h =>
          have hsecond : (copyOnce sampleSource sampleDest dashPath (copyOnce sampleSource
              sampleDest shellPath (shellStage [.name (ascii "dash")])).2).1 = .returned := by
            decide +kernel
          rw [hstep'] at hsecond
          cases hsecond

theorem shell_resolveRunStays :
    ResolveRunStays (shellTree [.name (ascii "dash")]) sampleSource shellPath := by
  have hshell : placeOf (shellTree [.name (ascii "dash")]) false
      (shellPath.base sampleSource) shellPath.parts =
        some [ascii "src", ascii "bin", ascii "sh"] := by decide +kernel
  have hdash : placeOf (shellTree [.name (ascii "dash")]) false
      (dashPath.base sampleSource) dashPath.parts =
        some [ascii "src", ascii "bin", ascii "dash"] := by decide +kernel
  have hlink : (shellTree [.name (ascii "dash")]).node [ascii "src", ascii "bin", ascii "sh"] =
      some (.link ⟨false, [.name (ascii "dash")]⟩) := by decide +kernel
  have hfile : (shellTree [.name (ascii "dash")]).node
      [ascii "src", ascii "bin", ascii "dash"] = some (.file (ascii "dash")) := by decide +kernel
  intro last hvisits
  cases hvisits with
  | first =>
      refine ⟨by decide +kernel, ?_⟩
      intro place target place' hplace hnode hnext
      rw [hshell] at hplace
      cases hplace
      rw [hlink] at hnode
      cases hnode
      have hplace' : some place' = some [ascii "src", ascii "bin", ascii "dash"] :=
        hnext.symm.trans hdash
      cases hplace'
      exact reaches_of_walk (show (walk (shellTree [.name (ascii "dash")]) sampleSource false 0
        _ _).2 = _ by decide +kernel)
  | next hplace hnode h =>
      rw [hshell] at hplace
      cases hplace
      rw [hlink] at hnode
      cases hnode
      cases h with
      | first =>
          refine ⟨by decide +kernel, ?_⟩
          intro place target place' hplace hnode _
          have hsame : some place = some [ascii "src", ascii "bin", ascii "dash"] :=
            hplace.symm.trans hdash
          cases hsame
          rw [hfile] at hnode
          cases hnode
      | next hplace hnode _ =>
          have hsame : some _ = some [ascii "src", ascii "bin", ascii "dash"] :=
            hplace.symm.trans hdash
          cases hsame
          rw [hfile] at hnode
          cases hnode

theorem staging_confined_shell :
    Confined sampleSource sampleDest (copyRelpath sampleSource sampleDest 2 shellPath
        (shellStage [.name (ascii "dash")])).2.host ∧
      forall p place, (resolveRealSourcePath sampleSource 2 shellPath
        (shellStage [.name (ascii "dash")]).host).1 = .returned (p, place) ->
          Reaches (shellTree [.name (ascii "dash")]) sampleSource true sampleSource
            shellPath.parts place := by
  have hroot : (shellStage [.name (ascii "dash")]).host.tree.node sampleSource = some .dir := by
    decide +kernel
  have hconfined : Confined sampleSource sampleDest
      (shellStage [.name (ascii "dash")]).host := ⟨nofun, nofun⟩
  refine ⟨(staging_confined hroot hconfined 2).1 shell_copyRunStays, ?_⟩
  intro p place hreturned
  exact (((staging_confined hroot hconfined 2).2 shell_resolveRunStays).2 p place hreturned).2

/-- A link that climbs above the root is read and staged outside. -/
theorem staging_climbs :
    (shellTree [.up, .up, .name (ascii "etc"), .name (ascii "shadow")]).node sampleSource =
        some .dir ∧
      ¬ Confined sampleSource sampleDest (copyRelpath sampleSource sampleDest 2 shellPath
        (shellStage [.up, .up, .name (ascii "etc"), .name (ascii "shadow")])).2.host := by
  refine ⟨by decide +kernel, fun h => ?_⟩
  have hreads : ¬ Inside sampleSource (copyRelpath sampleSource sampleDest 2 shellPath
      (shellStage [.up, .up, .name (ascii "etc"), .name (ascii "shadow")])).2.host.reads := by
    decide +kernel
  exact hreads h.reads

end Staging
end Bab750
