import Bab750.Staging.Relpath

/-!
# The exported root file system

`prepare_exported_rootfs` of `bab750_prepare_legacy_linux_netboot.py` and of
`bab750_prepare_linux_netboot.py`, which share the directory `EXPORTED_ROOTFS_DIR`. What a run of
`tar` leaves behind is given from outside.
-/

namespace Bab750
namespace Staging

open Foundation

structure Directory where
  tree : FileTree FileName (List Byte)
  places : List (FilePlace FileName)
  listed : forall p, tree.node p ≠ none -> p ∈ places

def Directory.Same (a b : Directory) : Prop := a.tree.node = b.tree.node

/-- The host, and `EXPORTED_ROOTFS_DIR` in a directory of it. -/
structure Share where
  host : Directory
  dir : FilePlace FileName
  dir_ne : dir ≠ []
  parentDir : host.tree.node dir.dropLast = some .dir

/-- The host with something at `EXPORTED_ROOTFS_DIR`. -/
def Share.mounted (share : Share) (rootfs : Directory) : Directory where
  tree := {
    node := fun p =>
      if share.dir <+: p then rootfs.tree.node (p.drop share.dir.length)
      else share.host.tree.node p
    topDir := by
      rw [if_neg (fun h => share.dir_ne (List.prefix_nil.mp h))]
      exact share.host.tree.topDir
    closed := by
      intro p n hentry
      by_cases hp : share.dir <+: p
      · rcases hp with ⟨names, rfl⟩
        have hdir : share.dir <+: share.dir ++ names := List.prefix_append _ _
        rw [List.append_assoc, if_pos (List.prefix_append _ _), List.drop_left] at hentry
        rw [if_pos hdir, List.drop_left]
        exact rootfs.tree.closed names n hentry
      · rw [if_neg hp]
        by_cases hchild : share.dir <+: p ++ [n]
        · -- the directory itself
          rcases List.prefix_concat_iff.mp hchild with heq | hinside
          · have hparent := share.parentDir
            rw [heq, List.dropLast_concat] at hparent
            exact hparent
          · exact absurd hinside hp
        · rw [if_neg hchild] at hentry
          exact share.host.tree.closed p n hentry }
  places := share.host.places ++ rootfs.places.map (fun p => share.dir ++ p)
  listed := by
    intro p hentry
    apply List.mem_append.mpr
    dsimp only at hentry
    split at hentry
    · rename_i hinside
      rcases hinside with ⟨names, rfl⟩
      rw [List.drop_left] at hentry
      exact Or.inr (List.mem_map_of_mem (rootfs.listed names hentry))
    · exact Or.inl (share.host.listed p hentry)

inductive PrepareScript where
  | legacy
  | linux
deriving DecidableEq

/-- `(EXPORTED_ROOTFS_DIR / "sbin" / "init").exists()` -/
def hasInit (share : Share) (rootfs : Directory) : Bool :=
  existsAt (share.mounted rootfs).tree share.dir [.name (ascii "sbin"), .name (ascii "init")]

/-- `EXPORTED_ROOTFS_DIR.glob("boot/vmlinux-*")` finds something. -/
def hasKernel (share : Share) (rootfs : Directory) : Bool :=
  (placeOf (share.mounted rootfs).tree true share.dir [.name (ascii "boot")]).any (fun boot =>
    (share.mounted rootfs).places.any (fun p =>
      p ≠ [] && p.dropLast = boot && ((share.mounted rootfs).tree.node p).isSome &&
        p.getLast?.any (fun n => (ascii "vmlinux-").isPrefixOf n)))

def looksUsable (share : Share) (script : PrepareScript) (rootfs : Directory) : Bool :=
  match script with
  | .legacy => hasInit share rootfs
  | .linux => hasKernel share rootfs

/-- How `tar -xf` ends, and what it leaves in the new directory when it does not finish. -/
inductive TarRun where
  | finished
  | stopped (left : Directory)

structure PrepareRun where
  script : PrepareScript
  tarball : Directory
  forceExtract : Bool
  tar : TarRun

inductive PrepareEnd where
  | returned
  | raised
deriving DecidableEq

/-- What `tar` leaves in the directory. -/
def PrepareRun.extracted (run : PrepareRun) : Directory :=
  match run.tar with
  | .finished => run.tarball
  | .stopped left => left

/-- `prepare_exported_rootfs`, for what is at `EXPORTED_ROOTFS_DIR`. -/
def prepareExportedRootfs (share : Share) (run : PrepareRun) (rootfs : Option Directory) :
    PrepareEnd × Option Directory :=
  let rootfs := if rootfs.isSome && run.forceExtract then none else rootfs
  match rootfs, run.tar with
  | none, .stopped left => (.raised, some left)
  | none, .finished =>
      (if looksUsable share run.script run.tarball then .returned else .raised, some run.tarball)
  | some present, _ =>
      (if looksUsable share run.script present then .returned else .raised, some present)

/-- What is at `EXPORTED_ROOTFS_DIR` behind some runs. -/
def afterRuns (share : Share) (rootfs : Option Directory) (runs : List PrepareRun) :
    Option Directory :=
  runs.foldl (fun rootfs run => (prepareExportedRootfs share run rootfs).2) rootfs

/-- A run that returns has the complete contents of its tarball in the directory. -/
def AllOrNothing (share : Share) (rootfs : Option Directory) (runs : List PrepareRun) : Prop :=
  forall before run behind, runs = before ++ run :: behind ->
    (prepareExportedRootfs share run (afterRuns share rootfs before)).1 = .returned ->
      exists present,
        (prepareExportedRootfs share run (afterRuns share rootfs before)).2 = some present ∧
          present.Same run.tarball

/-!
# The last extraction
-/

/--
What the last run of `tar` has left: the one of the last run with `force_extract`, and of the
first run if there is none and the directory did not exist.
-/
def lastExtracted (rootfs : Option Directory) (runs : List PrepareRun) : Option Directory :=
  match runs.reverse.find? (fun run => run.forceExtract) with
  | some run => some run.extracted
  | none => rootfs.or (runs.head?.map PrepareRun.extracted)

theorem prepare_rootfs (share : Share) (run : PrepareRun) (rootfs : Option Directory) :
    (prepareExportedRootfs share run rootfs).2 =
      if run.forceExtract then some run.extracted else rootfs.or (some run.extracted) := by
  rcases run with ⟨script, tarball, forceExtract, tar⟩
  cases rootfs <;> cases forceExtract <;> cases tar <;> rfl

theorem afterRuns_eq (share : Share) (rootfs : Option Directory) (runs : List PrepareRun) :
    afterRuns share rootfs runs = lastExtracted rootfs runs := by
  induction runs using List.reverseRecOn with
  | nil =>
      cases rootfs <;> rfl
  | append_singleton runs run ih =>
      rw [afterRuns, List.foldl_append, List.foldl_cons, List.foldl_nil, prepare_rootfs]
      rw [afterRuns] at ih
      rw [ih, lastExtracted, lastExtracted, List.reverse_append, List.reverse_singleton,
        List.singleton_append, List.find?_cons]
      cases run.forceExtract with
      | true => rfl
      | false =>
          cases runs.reverse.find? (fun run => run.forceExtract) with
          | some last => rfl
          | none =>
              cases rootfs with
              | some present => rfl
              | none =>
                  cases runs with
                  | nil => rfl
                  | cons first runs => rfl

/-- What a run without `force_extract` finds is complete, or its check fails on it. -/
def FindsComplete (share : Share) (rootfs : Option Directory) (run : PrepareRun) : Prop :=
  run.forceExtract = false -> forall present, rootfs = some present ->
    present.Same run.tarball ∨ looksUsable share run.script present = false

theorem prepare_complete_iff (share : Share) (run : PrepareRun) (rootfs : Option Directory) :
    ((prepareExportedRootfs share run rootfs).1 = .returned ->
      exists present, (prepareExportedRootfs share run rootfs).2 = some present ∧
        present.Same run.tarball) <-> FindsComplete share rootfs run := by
  rcases run with ⟨script, tarball, forceExtract, tar⟩
  have hfresh : ((prepareExportedRootfs share ⟨script, tarball, forceExtract, tar⟩ none).1 =
      .returned -> exists present,
        (prepareExportedRootfs share ⟨script, tarball, forceExtract, tar⟩ none).2 =
          some present ∧ present.Same tarball) := by
    intro hreturned
    cases tar with
    | finished => exact ⟨tarball, rfl, rfl⟩
    | stopped left => cases hreturned
  cases rootfs with
  | none =>
      exact iff_of_true hfresh (fun _ _ hpresent => nomatch hpresent)
  | some present =>
      cases forceExtract with
      | true =>
          exact iff_of_true hfresh (fun hforce => nomatch hforce)
      | false =>
          have hend : prepareExportedRootfs share ⟨script, tarball, false, tar⟩ (some present) =
              (if looksUsable share script present then .returned else .raised,
                some present) := by
            cases tar <;> rfl
          rw [hend]
          constructor
          · intro h _ other hother
            cases hother
            cases hlooks : looksUsable share script present with
            | false => exact Or.inr rfl
            | true =>
                rcases h (if_pos hlooks) with ⟨other, hother, hsame⟩
                cases hother
                exact Or.inl hsame
          · intro h hreturned
            rcases h rfl present rfl with hsame | hfails
            · exact ⟨present, rfl, hsame⟩
            · dsimp only at hreturned hfails
              rw [hfails] at hreturned
              cases hreturned

/--
A history of runs of both scripts is all-or-nothing exactly when no run without `force_extract`
takes over what the last extraction has left, and that is not the contents of its tarball.
-/
theorem exported_allOrNothing_iff (share : Share) (rootfs : Option Directory)
    (runs : List PrepareRun) :
    AllOrNothing share rootfs runs <->
      forall before run behind, runs = before ++ run :: behind ->
        FindsComplete share (lastExtracted rootfs before) run := by
  constructor
  · intro h before run behind hruns
    have hrun := h before run behind hruns
    rw [afterRuns_eq] at hrun
    exact (prepare_complete_iff share run _).mp hrun
  · intro h before run behind hruns
    rw [afterRuns_eq]
    exact (prepare_complete_iff share run _).mpr (h before run behind hruns)

/-!
# An interrupted extraction
-/

def Directory.ofEntries (entries : List (FilePlace FileName × FileNode FileName (List Byte))) :
    Directory where
  tree := .ofEntries entries
  places := [] :: entries.map Prod.fst
  listed := by
    intro p hentry
    rcases Option.ne_none_iff_exists'.mp hentry with ⟨node, hnode⟩
    rcases FileTree.ofEntries_node hnode with hnil | hmem
    · rw [hnil]
      exact List.mem_cons_self
    · exact List.mem_cons_of_mem _ (List.mem_map_of_mem hmem)

def sampleArchive : List (FilePlace FileName × FileNode FileName (List Byte)) :=
  [([ascii "sbin"], .dir), ([ascii "sbin", ascii "init"], .file (ascii "init")),
    ([ascii "etc"], .dir)]

def sampleShare : Share where
  host := .ofEntries [([ascii "nfsroot"], .dir)]
  dir := [ascii "nfsroot", ascii "adelie-full"]
  dir_ne := by decide
  parentDir := by decide

/-- The legacy script, whose `tar` is stopped before the last entry the first time. -/
def sampleRuns : List PrepareRun :=
  [⟨.legacy, .ofEntries sampleArchive, false, .stopped (.ofEntries (sampleArchive.take 2))⟩,
    ⟨.legacy, .ofEntries sampleArchive, false, .finished⟩]

theorem exported_partial_accepted :
    (prepareExportedRootfs sampleShare (sampleRuns.getLast (by decide))
        (afterRuns sampleShare none sampleRuns.dropLast)).1 = .returned ∧
      (forall p, (Directory.ofEntries (sampleArchive.take 2)).tree.node p = none ∨
        (Directory.ofEntries (sampleArchive.take 2)).tree.node p =
          (Directory.ofEntries sampleArchive).tree.node p) ∧
      ¬ AllOrNothing sampleShare none sampleRuns := by
  have hreturned : (prepareExportedRootfs sampleShare (sampleRuns.getLast (by decide))
      (afterRuns sampleShare none sampleRuns.dropLast)).1 = .returned := by
    decide +kernel
  have hmissing : (Directory.ofEntries (sampleArchive.take 2)).tree.node [ascii "etc"] = none ∧
      (Directory.ofEntries sampleArchive).tree.node [ascii "etc"] = some .dir := by
    decide +kernel
  refine ⟨hreturned, ?_, ?_⟩
  · intro p
    have hlast : (Directory.ofEntries sampleArchive).tree =
        ((Directory.ofEntries (sampleArchive.take 2)).tree.put [ascii "etc"] (some .dir)).getD
          (Directory.ofEntries (sampleArchive.take 2)).tree := rfl
    rw [hlast]
    cases hput : (Directory.ofEntries (sampleArchive.take 2)).tree.put [ascii "etc"]
        (some .dir) with
    | none => exact Or.inr rfl
    | some tree =>
        rw [Option.getD_some, (FileTree.put_node hput).1]
        by_cases hp : p = [ascii "etc"]
        · rw [hp]
          exact Or.inl hmissing.1
        · exact Or.inr (Function.update_of_ne hp _ _).symm
  · intro h
    rcases h _ _ [] rfl hreturned with ⟨present, hpresent, hsame⟩
    have hsame' := congrFun hsame [ascii "etc"]
    cases hpresent
    have hnone := hmissing.1.symm.trans hsame'
    exact nomatch hnone.trans hmissing.2

end Staging
end Bab750
