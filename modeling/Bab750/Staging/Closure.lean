import Bab750.Staging.StageTree

/-!
# What a stage needs

The links of a path are copied until a file is reached, in the stage as in the source; and a
path of the worklist is done when its file is there.
-/

namespace Bab750
namespace Staging

open Foundation

variable {readelf : List Byte -> Option ElfInfo} {first tree : FileTree FileName (List Byte)}
  {source stage : FilePlace FileName} {requests copied : List PurePath} {p e : PurePath}

/-!
# Chains of links
-/

theorem Found.unique {place place' : FilePlace FileName}
    {node node' : FileNode FileName (List Byte)} (h : Found first source p place node)
    (h' : Found first source p place' node') :
    place = place' ∧ node = node' := by
  have hplace := h.lookup
  rw [h'.lookup] at hplace
  cases hplace
  have hnode := h.entry
  rw [h'.entry] at hnode
  cases hnode
  exact ⟨rfl, rfl⟩

theorem ResolveVisits.visited (h : ResolveVisits first source p e)
    (hvisited : Visited readelf first source requests p) :
    Visited readelf first source requests e := by
  induction h with
  | first => exact hvisited
  | next hplace hlink _ ih => exact ih (.link hvisited ⟨hplace, hlink⟩)

theorem ResolveVisits.unique {e' : PurePath} (h : ResolveVisits first source p e)
    (h' : ResolveVisits first source p e') {place place' : FilePlace FileName}
    {content content' : List Byte} (hend : Found first source e place (.file content))
    (hend' : Found first source e' place' (.file content')) : e = e' := by
  induction h with
  | first =>
      cases h' with
      | first => rfl
      | next hplace hlink _ => cases (hend.unique ⟨hplace, hlink⟩).2
  | next hplace hlink _ ih =>
      cases h' with
      | first => cases (hend'.unique ⟨hplace, hlink⟩).2
      | next hplace' hlink' h' =>
          rcases Found.unique ⟨hplace, hlink⟩ ⟨hplace', hlink'⟩ with ⟨_, htarget⟩
          cases htarget
          exact ih h' hend

def LinksFollowed (first : FileTree FileName (List Byte)) (source : FilePlace FileName)
    (copied next : List PurePath) : Prop :=
  forall p place target, p ∈ copied -> Found first source p place (.link target) ->
    resolveSymlinkRelpath p target ∈ copied ++ next

/-- What a run of `copy_relpath` leaves behind. -/
structure ChainCopied (readelf : List Byte -> Option ElfInfo)
    (first : FileTree FileName (List Byte)) (source stage : FilePlace FileName)
    (requests : List PurePath) (p : PurePath) (s s' : Stage (List Byte)) : Prop where
  staged : StagedBy readelf first source stage requests s'.copied s'.host.tree
  followed : LinksFollowed first source s'.copied []
  self : p ∈ s'.copied
  keeps : forall q, q ∈ s.copied -> q ∈ s'.copied
  new : forall q, q ∈ s'.copied -> q ∈ s.copied ∨ ResolveVisits first source p q

theorem ChainCopied.same {s s' t : Stage (List Byte)}
    (h : ChainCopied readelf first source stage requests p s s') (hcopied : t.copied = s'.copied)
    (htree : t.host.tree = s'.host.tree) :
    ChainCopied readelf first source stage requests p s t := by
  rcases h with ⟨hstaged, hfollowed, hself, hkeeps, hnew⟩
  constructor
  · rw [hcopied, htree]
    exact hstaged
  · rw [hcopied]
    exact hfollowed
  · rw [hcopied]
    exact hself
  · rw [hcopied]
    exact hkeeps
  · rw [hcopied]
    exact hnew

theorem copyRelpath_staged (hgood : RuntimeStageable readelf first source stage requests)
    {s s' : Stage (List Byte)} (fuel : Nat)
    (hstaged : StagedBy readelf first source stage requests s.copied s.host.tree)
    (hfollowed : LinksFollowed first source s.copied [p])
    (hvisited : Visited readelf first source requests p)
    (hrun : copyRelpath source stage fuel p s = (.returned (), s')) :
    ChainCopied readelf first source stage requests p s s' := by
  induction fuel generalizing p s with
  | zero =>
      cases hrun
  | succ fuel ih =>
      rw [copyRelpath] at hrun
      by_cases hold : p ∈ s.copied
      · have hstep : copyOnce source stage p s = (.returned, s) := by
          unfold copyOnce
          rw [if_pos hold]
        rw [hstep] at hrun
        cases hrun
        refine ⟨hstaged, ?_, hold, fun _ hq => hq, fun _ hq => Or.inl hq⟩
        intro q place target hq hfound
        rw [List.append_nil]
        rcases List.mem_append.mp (hfollowed q place target hq hfound) with hmem | hlast
        · exact hmem
        · rw [List.mem_singleton.mp hlast]
          exact hold
      · rcases hstep : copyOnce source stage p s with ⟨step, s₁⟩
        rw [hstep] at hrun
        have hspec := copyOnce_staged hgood hstaged hvisited hold hstep
        cases step with
        | raised exception =>
            cases hrun
        | returned =>
            cases hrun
            rcases hspec nofun with ⟨hcopied, hstaged₁, place, node, hfound, hafter⟩
            refine ⟨hstaged₁, ?_, by rw [hcopied]; simp, ?_, ?_⟩
            · intro q place' target hq hlink
              rw [hcopied] at hq ⊢
              rw [List.append_nil]
              rcases List.mem_append.mp hq with hmem | hlast
              · exact hfollowed q place' target hmem hlink
              · rw [List.mem_singleton.mp hlast] at hlink
                rw [(hfound.unique hlink).2] at hafter
                cases hafter
            · intro q hq
              rw [hcopied]
              exact List.mem_append_left _ hq
            · intro q hq
              rw [hcopied] at hq
              rcases List.mem_append.mp hq with hmem | hlast
              · exact Or.inl hmem
              · rw [List.mem_singleton.mp hlast]
                exact Or.inr (.first p)
        | follows next =>
            rcases hspec nofun with ⟨hcopied, hstaged₁, place, node, hfound, hafter⟩
            cases node with
            | dir => cases hafter
            | file content => cases hafter
            | link target =>
                cases hafter
                have hfollowed₁ : LinksFollowed first source s₁.copied
                    [resolveSymlinkRelpath p target] := by
                  intro q place' target' hq hlink
                  rw [hcopied] at hq ⊢
                  rcases List.mem_append.mp hq with hmem | hlast
                  · exact List.mem_append_left _ (hfollowed q place' target' hmem hlink)
                  · rw [List.mem_singleton.mp hlast] at hlink ⊢
                    cases (hfound.unique hlink).2
                    exact List.mem_append_right _ (List.mem_singleton_self _)
                have hmore := ih hstaged₁ hfollowed₁ (.link hvisited hfound) hrun
                have hself : p ∈ s₁.copied := by
                  rw [hcopied]
                  simp
                refine ⟨hmore.staged, hmore.followed, hmore.keeps p hself, ?_, ?_⟩
                · intro q hq
                  apply hmore.keeps
                  rw [hcopied]
                  exact List.mem_append_left _ hq
                · intro q hq
                  rcases hmore.new q hq with hbefore | hchain
                  · rw [hcopied] at hbefore
                    rcases List.mem_append.mp hbefore with hmem | hlast
                    · exact Or.inl hmem
                    · rw [List.mem_singleton.mp hlast]
                      exact Or.inr (.first p)
                  · exact Or.inr (.next hfound.lookup hfound.entry hchain)

theorem resolveRealSourcePath_end
    (hgood : RuntimeStageable readelf first source stage requests) {h h' : Host (List Byte)}
    (fuel : Nat) (hstaged : StagedBy readelf first source stage requests copied h.tree)
    (hvisited : Visited readelf first source requests p) {place : FilePlace FileName}
    (hrun : resolveRealSourcePath source fuel p h = (.returned (e, place), h')) :
    h'.tree = h.tree ∧ ResolveVisits first source p e ∧
      exists content, Found first source e place (.file content) := by
  induction fuel generalizing p h with
  | zero =>
      cases hrun
  | succ fuel ih =>
      have hp := hgood.paths p hvisited
      have hfound : forall {h₁ place₁ node₁},
          h.readSource source p = (h₁, some (place₁, node₁)) ->
            h₁.tree = h.tree ∧ Found first source p place₁ node₁ := by
        intro h₁ place₁ node₁ hread
        exact ⟨Host.readSource_tree hread,
          (found_same hgood.ready hstaged hp.stays).mp
            (readSource_found.mp (congrArg Prod.snd hread)).2⟩
      rw [resolveRealSourcePath] at hrun
      split at hrun
      · cases hrun
      · rename_i h₁ place₁ target hread
        rcases hfound hread with ⟨htree, hlink⟩
        rcases ih (by rw [htree]; exact hstaged) (.link hvisited hlink) hrun with
          ⟨hsame, hchain, hend⟩
        exact ⟨hsame.trans htree, .next hlink.lookup hlink.entry hchain, hend⟩
      · rename_i h₁ place₁ node₁ hother hread
        cases hrun
        rcases hfound hread with ⟨htree, hnode⟩
        refine ⟨htree, .first _, ?_⟩
        cases node₁ with
        | dir => exact absurd rfl (found_not_dir hp hnode)
        | link target => exact absurd rfl (hother target)
        | file content => exact ⟨content, hnode⟩

/-!
# Chains in the source
-/

theorem chain_source (hgood : RuntimeStageable readelf first source stage requests)
    (hvisited : Visited readelf first source requests p) (h : ResolveVisits first source p e)
    {place : FilePlace FileName} {content : List Byte}
    (hend : Found first source e place (.file content)) :
    exists begin node, Found first source p begin node ∧ Follows first source begin place := by
  induction h with
  | first =>
      refine ⟨place, _, hend, .stays ?_⟩
      rw [hend.entry]
      nofun
  | @next p last begin target hplace hlink _ ih =>
      have hfound : Found first source p begin (.link target) := ⟨hplace, hlink⟩
      rcases ih (.link hvisited hfound) hend with ⟨next, node, hnext, hfollows⟩
      exact ⟨begin, _, hfound, .link hlink
        (((hgood.paths p hvisited).link begin target hfound).agrees next hnext.lookup)
        hfollows⟩

/-!
# Chains in the stage
-/

theorem push_climbed (parts : List (PathPart FileName)) (names : List FileName) (ups : Nat) :
    exists ups' names', parts.foldl PurePath.push ⟨.above (ups + 1), names⟩ =
      ⟨.above (ups' + 1), names'⟩ := by
  induction parts generalizing names ups with
  | nil =>
      exact ⟨ups, names, rfl⟩
  | cons part parts ih =>
      rw [List.foldl_cons]
      cases part with
      | here =>
          exact ih names ups
      | name n =>
          exact ih (names ++ [n]) ups
      | up =>
          unfold PurePath.push
          dsimp only
          split
          · exact ih names.dropLast ups
          · exact ih names (ups + 1)

theorem push_lexical (parts : List (PathPart FileName)) (names : List FileName) {q : PurePath}
    (hpush : parts.foldl PurePath.push ⟨.above 0, names⟩ = q) (hstart : q.start = .above 0) :
    lexical names parts = some q.names := by
  induction parts generalizing names with
  | nil =>
      rw [← hpush]
      rfl
  | cons part parts ih =>
      rw [List.foldl_cons] at hpush
      cases part with
      | here =>
          exact ih names hpush
      | name n =>
          exact ih (names ++ [n]) hpush
      | up =>
          rw [lexical]
          by_cases hnil : names = []
          · rw [hnil] at hpush
            rcases push_climbed parts [] 0 with ⟨ups, names', hclimbed⟩
            have habove : q = ⟨.above (ups + 1), names'⟩ := hpush.symm.trans hclimbed
            rw [habove] at hstart
            cases hstart
          · rw [if_neg hnil]
            apply ih
            rw [← hpush]
            congr 1
            unfold PurePath.push
            exact (if_pos hnil).symm

theorem normalizeRelpath_names (names : List FileName) (parts : List (PathPart FileName)) :
    normalizeRelpath false (names.map .name ++ parts) =
      parts.foldl PurePath.push ⟨.above 0, names⟩ := by
  have hnames := normalizeRelpath_parts ⟨.above 0, names⟩
  have hparts : PurePath.parts ⟨.above 0, names⟩ = names.map .name := List.nil_append _
  rw [hparts] at hnames
  unfold normalizeRelpath at hnames ⊢
  rw [List.foldl_append]
  exact congrArg (fun q => parts.foldl PurePath.push q) hnames

/-- A text that agrees with a path leads to the copy of the path. -/
theorem stage_text (hgood : RuntimeStageable readelf first source stage requests)
    (hstaged : StagedBy readelf first source stage requests copied tree) (hself : p ∈ copied)
    {names : List FileName} {parts : List (PathPart FileName)}
    (hdir : tree.node (stage ++ names) = some .dir)
    (htext : normalizeRelpath false (names.map .name ++ parts) = p) (hplain : Plain parts)
    {base : FilePlace FileName}
    (hsource : forall place, placeOf first false (p.base source) p.parts = some place ->
      Reaches first source false base parts place) :
    Reaches tree stage false (stage ++ names) parts (stage ++ p.names) := by
  rcases hstaged.copies p hself with ⟨hvisited, place, node, hfound, hentry⟩
  have hp := hgood.paths p hvisited
  have hnames := found_names_ne hgood.ready hp hfound
  have hlexical : lexical names parts = some p.names := by
    apply push_lexical parts names _ (names_of_stays hgood.ready hp.stays).1
    rw [← normalizeRelpath_names, htext]
  have hfront : tree.node (stage ++ p.names.dropLast) = some .dir := by
    apply tree.closed _ (p.names.getLast hnames)
    rw [List.append_assoc, List.dropLast_append_getLast, hentry]
    nofun
  apply reaches_lexical hdir hlexical hfront hplain
  intro front hfronts
  -- a slash at the end would want a directory
  have hreach := hsource place hfound.lookup
  rw [hfronts] at hreach
  have hnode := hreach.dir_of_here
  rw [hfound.entry] at hnode
  exact absurd (Option.some.inj hnode) (found_not_dir hp hfound)

theorem chain_stage (hgood : RuntimeStageable readelf first source stage requests)
    (hstaged : StagedBy readelf first source stage requests copied tree)
    (hfollowed : LinksFollowed first source copied []) (hself : p ∈ copied)
    (h : ResolveVisits first source p e) {place : FilePlace FileName} {content : List Byte}
    (hend : Found first source e place (.file content)) :
    tree.node (stage ++ e.names) = some (.file content) ∧
      Follows tree stage (stage ++ p.names) (stage ++ e.names) := by
  induction h with
  | first =>
      rcases hstaged.copies _ hself with ⟨_, place', node, hfound, hentry⟩
      rw [← (hend.unique hfound).2] at hentry
      refine ⟨hentry, .stays ?_⟩
      rw [hentry]
      nofun
  | @next p last begin target hplace hlink _ ih =>
      have hfound : Found first source p begin (.link target) := ⟨hplace, hlink⟩
      rcases hstaged.copies p hself with ⟨hvisited, place', node, hfound', hentry⟩
      rw [← (hfound.unique hfound').2] at hentry
      have hp := hgood.paths p hvisited
      have hnames := found_names_ne hgood.ready hp hfound
      have hnext : resolveSymlinkRelpath p target ∈ copied := by
        have hmem := hfollowed p begin target hself hfound
        rw [List.append_nil] at hmem
        exact hmem
      rcases ih hnext hend with ⟨hfile, hfollows⟩
      refine ⟨hfile, .link hentry ?_ hfollows⟩
      have htext := hp.link begin target hfound
      have hfront : tree.node (stage ++ p.names.dropLast) = some .dir := by
        apply tree.closed _ (p.names.getLast hnames)
        rw [List.append_assoc, List.dropLast_append_getLast, hentry]
        nofun
      have hparent : p.parent.isAbsolute = false ∧
          p.parent.parts = p.names.dropLast.map .name := by
        have hstart := (names_of_stays hgood.ready hp.stays).1
        unfold PurePath.parent
        rw [if_pos hnames]
        unfold PurePath.isAbsolute PurePath.parts
        rw [hstart]
        exact ⟨rfl, List.nil_append _⟩
      rw [List.dropLast_append_of_ne_nil hnames]
      by_cases habsolute : target.absolute = true
      · have hnext' : resolveSymlinkRelpath p target = normalizeRelpath false target.parts :=
          if_pos habsolute
        have hroot : tree.node (stage ++ []) = some .dir := by
          rw [List.append_nil]
          exact dir_of_dir hfront
        have hreach := stage_text hgood hstaged hnext hroot hnext'.symm htext.plain htext.agrees
        rw [List.append_nil] at hreach
        unfold linkBase
        rw [if_pos habsolute]
        exact hreach
      · have hnext' : resolveSymlinkRelpath p target =
            normalizeRelpath false (p.names.dropLast.map .name ++ target.parts) := by
          unfold resolveSymlinkRelpath
          rw [if_neg habsolute, hparent.1, hparent.2]
        have hreach := stage_text hgood hstaged hnext hfront hnext'.symm htext.plain htext.agrees
        unfold linkBase
        rw [if_neg habsolute]
        exact hreach

/-!
# Files that are the same
-/

/-- A path leads to a file of the source, and in the stage to one with the same content. -/
def SameFile (first tree : FileTree FileName (List Byte)) (source stage : FilePlace FileName)
    (parts : List (PathPart FileName)) : Prop :=
  exists place staged content, Reaches first source true source parts place ∧
    first.node place = some (.file content) ∧ Reaches tree stage true stage parts staged ∧
      tree.node staged = some (.file content)

structure Done (first : FileTree FileName (List Byte)) (source : FilePlace FileName)
    (copied : List PurePath) (p : PurePath) : Prop where
  self : p ∈ copied
  file : exists e place content, ResolveVisits first source p e ∧
    Found first source e place (.file content)

theorem sameFile_of_text (hgood : RuntimeStageable readelf first source stage requests)
    (hstaged : StagedBy readelf first source stage requests copied tree)
    (hfollowed : LinksFollowed first source copied []) (hdone : Done first source copied p)
    {parts : List (PathPart FileName)} (htext : normalizeRelpath false parts = p)
    (hplain : Plain parts)
    (hsource : forall place, placeOf first false (p.base source) p.parts = some place ->
      Reaches first source false source parts place) :
    SameFile first tree source stage parts := by
  rcases hdone.file with ⟨e, place, content, hchain, hend⟩
  rcases hstaged.copies p hdone.self with ⟨hvisited, _⟩
  rcases chain_source hgood hvisited hchain hend with ⟨begin, node, hfound, hfollows⟩
  rcases chain_stage hgood hstaged hfollowed hdone.self hchain hend with ⟨hfile, hfollows'⟩
  have hstageDir := stageDir_staged hgood hstaged
  have hreach : Reaches tree stage false stage parts (stage ++ p.names) := by
    have hroot : tree.node (stage ++ []) = some .dir := by
      rw [List.append_nil]
      exact hstageDir
    have hlexical := stage_text hgood hstaged hdone.self hroot htext hplain hsource
    rw [List.append_nil] at hlexical
    exact hlexical
  exact ⟨place, stage ++ e.names, content,
    (hsource begin hfound.lookup).follows hgood.ready.sourceDir hfollows hgood.ready.sourceDir,
    hend.entry, hreach.follows hstageDir hfollows' hstageDir, hfile⟩

theorem sameFile_of_done (hgood : RuntimeStageable readelf first source stage requests)
    (hstaged : StagedBy readelf first source stage requests copied tree)
    (hfollowed : LinksFollowed first source copied []) (hdone : Done first source copied p) :
    SameFile first tree source stage p.parts := by
  rcases hstaged.copies p hdone.self with ⟨hvisited, _⟩
  have hp := hgood.paths p hvisited
  rcases names_of_stays hgood.ready hp.stays with ⟨hstart, hparts, _⟩
  apply sameFile_of_text hgood hstaged hfollowed hdone
  · have hself := normalizeRelpath_parts p
    unfold PurePath.isAbsolute at hself
    rw [hstart] at hself
    exact hself
  · rw [hparts]
    refine List.pairwise_of_forall_mem_list (fun a _ b hb _ hup => ?_)
    rcases List.mem_map.mp hb with ⟨n, _, hn⟩
    rw [hup] at hn
    cases hn
  · exact fun place hplace => stays_reaches hp.stays hplace

end Staging
end Bab750
