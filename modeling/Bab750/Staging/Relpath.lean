import Bab750.Foundation.Bytes
import Bab750.Foundation.FileTree

/-!
# Staging a path

`normalize_relpath`, `resolve_symlink_relpath`, `copy_relpath` and `resolve_real_source_path` of
`bab750_prepare_linux_netboot.py`, on the file system of the host. The lookups in the source
directory and the places that are created or replaced are kept, in their order. A directory is
given by its place on the host, and there are directories, regular files and links only. The
system refuses the text of a path of the source that is too long; the stack of the interpreter
is as deep as it needs to be.
-/

namespace Bab750
namespace Staging

open Foundation

abbrev FileName := List Byte

variable {Content : Type}

/-!
# Paths
-/

/-- Where a path begins: at the top, or so many directories up. -/
inductive Start where
  | root
  | above (ups : Nat)
deriving DecidableEq

/-- A `PurePosixPath` that is normalized. -/
structure PurePath where
  start : Start
  names : List FileName
deriving DecidableEq

/-- `p / part`, normalized again. -/
def PurePath.push (p : PurePath) : PathPart FileName -> PurePath
  | .here => p
  | .name n => { p with names := p.names ++ [n] }
  | .up =>
      if p.names ≠ [] then { p with names := p.names.dropLast }
      else
        match p.start with
        | .root => p
        | .above ups => { p with start := .above (ups + 1) }

/-- The parts of `str(p)`. -/
def PurePath.parts (p : PurePath) : List (PathPart FileName) :=
  (match p.start with
    | .root => []
    | .above ups => List.replicate ups .up) ++ p.names.map .name

def PurePath.isAbsolute (p : PurePath) : Bool := p.start = .root

def PurePath.parent (p : PurePath) : PurePath :=
  if p.names ≠ [] then { p with names := p.names.dropLast }
  else
    match p.start with
    | .above (ups + 1) => { p with start := .above ups }
    | _ => p

def normalizeRelpath (absolute : Bool) (parts : List (PathPart FileName)) : PurePath :=
  parts.foldl PurePath.push ⟨if absolute then .root else .above 0, []⟩

def resolveSymlinkRelpath (relPath : PurePath) (linkTarget : PathText FileName) : PurePath :=
  if linkTarget.absolute then normalizeRelpath false linkTarget.parts
  else normalizeRelpath relPath.parent.isAbsolute (relPath.parent.parts ++ linkTarget.parts)

/-!
# The host
-/

/-- The file system of the host, with what was looked up in the source and what was written. -/
structure Host (Content : Type) where
  tree : FileTree FileName Content
  reads : List (FilePlace FileName)
  writes : List (FilePlace FileName)

def maxSymlinks : Nat := 40

/-- Where the system begins with `base / p`. -/
def PurePath.base (p : PurePath) (dir : FilePlace FileName) : FilePlace FileName :=
  match p.start with
  | .root => []
  | .above _ => dir

/-- The place that the system finds for a path from a directory on. -/
def placeOf (tree : FileTree FileName Content) (follow : Bool) (dir : FilePlace FileName)
    (parts : List (PathPart FileName)) : Option (FilePlace FileName) :=
  (walk tree [] follow maxSymlinks dir parts).2

def seenOf (tree : FileTree FileName Content) (follow : Bool) (dir : FilePlace FileName)
    (parts : List (PathPart FileName)) : List (FilePlace FileName) :=
  dir :: (walk tree [] follow maxSymlinks dir parts).1

/-- `path.is_dir()` -/
def isDirAt (tree : FileTree FileName Content) (dir : FilePlace FileName)
    (parts : List (PathPart FileName)) : Bool :=
  (placeOf tree true dir parts).any tree.isDir

/-- `path.exists()` -/
def existsAt (tree : FileTree FileName Content) (dir : FilePlace FileName)
    (parts : List (PathPart FileName)) : Bool :=
  (placeOf tree true dir parts).any (fun p => (tree.node p).isSome)

def isLink : Option (FileNode FileName Content) -> Bool
  | some (.link _) => true
  | _ => false

/-- `path.is_symlink()` -/
def isSymlinkAt (tree : FileTree FileName Content) (dir : FilePlace FileName)
    (parts : List (PathPart FileName)) : Bool :=
  (placeOf tree false dir parts).any (fun p => isLink (tree.node p))

def pathMax : Nat := 4096

def slashedLength : List FileName -> Nat
  | [] => 0
  | n :: names => n.length + 1 + slashedLength names

/-- The length of `str(base / p)`. -/
def PurePath.textLength (p : PurePath) (dir : FilePlace FileName) : Nat :=
  match p.start with
  | .root => slashedLength p.names
  | .above ups => slashedLength dir + 3 * ups + slashedLength p.names

def PurePath.Fits (p : PurePath) (dir : FilePlace FileName) : Prop :=
  p.textLength dir < pathMax

instance (p : PurePath) (dir : FilePlace FileName) : Decidable (p.Fits dir) :=
  inferInstanceAs (Decidable (_ < _))

/-- `ensure_source_path` and what `lstat` tells: the place and what is there. -/
def Host.readSource (h : Host Content) (sourceRoot : FilePlace FileName) (p : PurePath) :
    Host Content × Option (FilePlace FileName × FileNode FileName Content) :=
  if p.Fits sourceRoot then
    ({ h with reads := h.reads ++ seenOf h.tree false (p.base sourceRoot) p.parts },
      (placeOf h.tree false (p.base sourceRoot) p.parts).bind
        (fun place => (h.tree.node place).map (fun node => (place, node))))
  else (h, none)

theorem Host.readSource_fits {h : Host Content} {sourceRoot : FilePlace FileName} {p : PurePath}
    (hfits : p.Fits sourceRoot) : h.readSource sourceRoot p =
      ({ h with reads := h.reads ++ seenOf h.tree false (p.base sourceRoot) p.parts },
        (placeOf h.tree false (p.base sourceRoot) p.parts).bind
          (fun place => (h.tree.node place).map (fun node => (place, node)))) :=
  if_pos hfits

theorem Host.readSource_long {h : Host Content} {sourceRoot : FilePlace FileName} {p : PurePath}
    (hfits : ¬ p.Fits sourceRoot) : h.readSource sourceRoot p = (h, none) :=
  if_neg hfits

theorem Host.readSource_tree {h h' : Host Content} {sourceRoot : FilePlace FileName}
    {p : PurePath} {found : Option (FilePlace FileName × FileNode FileName Content)}
    (hread : h.readSource sourceRoot p = (h', found)) : h'.tree = h.tree := by
  by_cases hfits : p.Fits sourceRoot
  · rw [Host.readSource_fits hfits] at hread
    rw [← (Prod.mk.inj hread).1]
  · rw [Host.readSource_long hfits] at hread
    rw [← (Prod.mk.inj hread).1]

def Host.put (h : Host Content) (place : FilePlace FileName)
    (entry : Option (FileNode FileName Content)) : Option (Host Content) :=
  (h.tree.put place entry).map
    (fun tree => { h with tree := tree, writes := h.writes ++ [place] })

/-- `os.mkdir` -/
def Host.mkdir (h : Host Content) (dir : FilePlace FileName) (parts : List (PathPart FileName)) :
    Option (Host Content) :=
  match placeOf h.tree false dir parts with
  | some place => if (h.tree.node place).isNone then h.put place (some .dir) else none
  | none => none

/-- The directories of a path that are missing, from the first on. -/
def Host.mkdirParts (h : Host Content) (dir : FilePlace FileName)
    (made : List (PathPart FileName)) :
    List (PathPart FileName) -> Host Content × Bool
  | [] => (h, true)
  | part :: rest =>
      if isDirAt h.tree dir (made ++ [part]) then
        h.mkdirParts dir (made ++ [part]) rest
      else
        match h.mkdir dir (made ++ [part]) with
        | some h' => h'.mkdirParts dir (made ++ [part]) rest
        | none => (h, false)

/-- `path.mkdir(parents=True, exist_ok=True)` below a directory that exists. -/
def Host.mkdirAll (h : Host Content) (dir : FilePlace FileName)
    (parts : List (PathPart FileName)) :
    Host Content × Bool :=
  if h.tree.isDir dir then h.mkdirParts dir [] parts else (h, false)

/-- `destination.unlink()`, if there is something to be replaced. -/
def Host.unlinkOld (h : Host Content) (dir : FilePlace FileName)
    (parts : List (PathPart FileName)) :
    Option (Host Content) :=
  if existsAt h.tree dir parts || isSymlinkAt h.tree dir parts then
    (placeOf h.tree false dir parts).bind (fun place => h.put place none)
  else some h

/-- `os.symlink(target, destination)` -/
def Host.symlink (h : Host Content) (target : PathText FileName) (dir : FilePlace FileName)
    (parts : List (PathPart FileName)) : Option (Host Content) :=
  match placeOf h.tree false dir parts with
  | some place => if (h.tree.node place).isNone then h.put place (some (.link target)) else none
  | none => none

/-- The link at the destination, in place of what is there. -/
def Host.relink (h : Host Content) (target : PathText FileName) (dir : FilePlace FileName)
    (parts : List (PathPart FileName)) : Host Content × Bool :=
  match h.unlinkOld dir parts with
  | none => (h, false)
  | some h' =>
      match h'.symlink target dir parts with
      | none => (h', false)
      | some h'' => (h'', true)

/-- `os.path.join(dst, os.path.basename(src))`, when `dst` is a directory. -/
def copyParts (tree : FileTree FileName Content) (dir : FilePlace FileName) (p : PurePath) :
    List (PathPart FileName) :=
  if isDirAt tree dir p.parts then p.parts ++ (p.names.getLast?.map PathPart.name).toList
  else p.parts

/-- `shutil.copy2`, for the contents; the source has its own place. -/
def Host.copyFile (h : Host Content) (source : FilePlace FileName) (content : Content)
    (dir : FilePlace FileName) (p : PurePath) : Host Content × Bool :=
  match placeOf h.tree true dir (copyParts h.tree dir p) with
  | none => (h, false)
  | some place =>
      if place = source then (h, false)
      else
        match h.put place (some (.file content)) with
        | none => (h, false)
        | some h' => (h', true)

/-!
# Copying
-/

/-- The host, and `copied`. -/
structure Stage (Content : Type) where
  host : Host Content
  copied : List PurePath

/-- What is raised; a directory or an entry that cannot be made is an `OSError`. -/
inductive Exception where
  | systemExit
  | osError
  | calledProcessError
deriving DecidableEq

/-- How one activation of `copy_relpath` ends; the last is its recursive call. -/
inductive CopyStep where
  | returned
  | raised (exception : Exception)
  | follows (next : PurePath)
deriving DecidableEq

def writeCopy (destRoot : FilePlace FileName) (relPath : PurePath) (source : FilePlace FileName)
    (node : FileNode FileName Content) (h : Host Content) : Host Content × Bool :=
  match node with
  | .link target => h.relink target (relPath.base destRoot) relPath.parts
  | .dir => h.mkdirAll (relPath.base destRoot) relPath.parts
  | .file content => h.copyFile source content (relPath.base destRoot) relPath

/-- Behind the copy of a path: the recursive call for a link. -/
def afterCopy (relPath : PurePath) : FileNode FileName Content -> CopyStep
  | .link target => .follows (resolveSymlinkRelpath relPath target)
  | _ => .returned

/-- One activation of `copy_relpath`. -/
def copyOnce (sourceRoot destRoot : FilePlace FileName) (relPath : PurePath) (s : Stage Content) :
    CopyStep × Stage Content :=
  if relPath ∈ s.copied then (.returned, s)
  else
    match s.host.readSource sourceRoot relPath with
    | (h, none) => (.raised .systemExit, { s with host := h })
    | (h, some (source, node)) =>
        match h.mkdirAll (relPath.parent.base destRoot) relPath.parent.parts with
        | (h, false) => (.raised .osError, { s with host := h })
        | (h, true) =>
            match writeCopy destRoot relPath source node h with
            | (h, false) => (.raised .osError, { s with host := h })
            | (h, true) => (afterCopy relPath node, ⟨h, s.copied ++ [relPath]⟩)

inductive Outcome (α : Type) where
  | running
  | raised (exception : Exception)
  | returned (value : α)
deriving DecidableEq

def copyRelpath (sourceRoot destRoot : FilePlace FileName) :
    Nat -> PurePath -> Stage Content -> Outcome Unit × Stage Content
  | 0, _, s => (.running, s)
  | fuel + 1, relPath, s =>
      match copyOnce sourceRoot destRoot relPath s with
      | (.returned, s) => (.returned (), s)
      | (.raised exception, s) => (.raised exception, s)
      | (.follows next, s) => copyRelpath sourceRoot destRoot fuel next s

/-- `resolve_real_source_path`, for some passes of its loop: the path and its place. -/
def resolveRealSourcePath (sourceRoot : FilePlace FileName) :
    Nat -> PurePath -> Host Content -> Outcome (PurePath × FilePlace FileName) × Host Content
  | 0, _, h => (.running, h)
  | fuel + 1, relPath, h =>
      match h.readSource sourceRoot relPath with
      | (h, none) => (.raised .systemExit, h)
      | (h, some (_, .link target)) =>
          resolveRealSourcePath sourceRoot fuel (resolveSymlinkRelpath relPath target) h
      | (h, some (source, _)) => (.returned (relPath, source), h)

theorem normalizeRelpath_parts (p : PurePath) : normalizeRelpath p.isAbsolute p.parts = p := by
  have hnames : forall names (q : PurePath),
      (names.map PathPart.name).foldl PurePath.push q = { q with names := q.names ++ names } := by
    intro names
    induction names with
    | nil =>
        intro q
        rw [List.append_nil]
        rfl
    | cons n names ih =>
        intro q
        rw [List.map_cons, List.foldl_cons, ih, PurePath.push, List.append_assoc]
        rfl
  have hups : forall ups k, (List.replicate ups PathPart.up).foldl PurePath.push ⟨.above k, []⟩ =
      ⟨.above (k + ups), []⟩ := by
    intro ups
    induction ups with
    | zero =>
        intro k
        rfl
    | succ ups ih =>
        intro k
        rw [List.replicate_succ, List.foldl_cons]
        show (List.replicate ups PathPart.up).foldl PurePath.push ⟨.above (k + 1), []⟩ = _
        rw [ih, Nat.add_assoc, Nat.add_comm 1 ups]
  rcases p with ⟨start, names⟩
  cases start with
  | root =>
      exact hnames names ⟨.root, []⟩
  | above ups =>
      show (List.replicate ups PathPart.up ++ names.map PathPart.name).foldl PurePath.push
        ⟨.above 0, []⟩ = _
      rw [List.foldl_append, hups, hnames, Nat.zero_add]
      rfl

end Staging
end Bab750
