import Bab750.Staging.Relpath
import Mathlib.Data.List.Dedup
import Mathlib.Data.List.Sort

/-!
# Staging a runtime

`is_elf_file`, `find_library_provider` and `copy_binary_runtime` of
`bab750_prepare_linux_netboot.py`. What `readelf` prints of a file is a parameter.
-/

namespace Bab750
namespace Staging

open Foundation

/-- What `readelf_needed` finds in the output of `readelf`. -/
structure ElfInfo where
  needed : List FileName
  interpreter : Option (PathText FileName)
deriving DecidableEq

def elfMagic : List Byte := 127 :: ascii "ELF"

def isElfFile (tree : FileTree FileName (List Byte)) (place : FilePlace FileName) :
    Option (List Byte) :=
  match tree.node place with
  | some (.file content) => if content.take 4 = elfMagic then some content else none
  | _ => none

def libraryDirCandidates : List (List FileName) := [[ascii "lib"], [ascii "usr", ascii "lib"]]

/-- `pathlib.PurePosixPath(prefix) / soname` -/
def candidatePath (soname : FileName) (dir : List FileName) : PurePath :=
  ⟨.above 0, dir ++ [soname]⟩

/-- `find_library_provider`, from some candidate on. -/
def searchCandidates (sourceRoot : FilePlace FileName) (soname : FileName) :
    List (List FileName) -> Host (List Byte) -> Host (List Byte) × Option PurePath
  | [], h => (h, none)
  | dir :: dirs, h =>
      match h.readSource sourceRoot (candidatePath soname dir) with
      | (h, some _) => (h, some (candidatePath soname dir))
      | (h, none) => searchCandidates sourceRoot soname dirs h

def findLibraryProvider (sourceRoot : FilePlace FileName) (soname : FileName)
    (h : Host (List Byte)) : Host (List Byte) × Option PurePath :=
  searchCandidates sourceRoot soname libraryDirCandidates h

def sortedNeeded (info : ElfInfo) : List FileName :=
  info.needed.dedup.insertionSort (· ≤ ·)

/-- The state of `copy_binary_runtime`; the last path of the queue is the next. -/
structure Worklist where
  stage : Stage (List Byte)
  queue : List PurePath
  inspected : List PurePath

def queueLibraries (sourceRoot : FilePlace FileName) :
    List FileName -> Worklist -> Outcome Unit × Worklist
  | [], w => (.returned (), w)
  | soname :: sonames, w =>
      match findLibraryProvider sourceRoot soname w.stage.host with
      | (h, none) => (.raised .systemExit, { w with stage := { w.stage with host := h } })
      | (h, some provider) =>
          queueLibraries sourceRoot sonames
            { w with stage := { w.stage with host := h }, queue := w.queue ++ [provider] }

/-- `normalize_relpath(interpreter.lstrip("/"))`, if there is one. -/
def interpreterPath (info : ElfInfo) : List PurePath :=
  (info.interpreter.map (fun interpreter => normalizeRelpath false interpreter.parts)).toList

/-- Behind the copy of a path: its real file, and what that needs. -/
def inspect (readelf : List Byte -> Option ElfInfo) (sourceRoot : FilePlace FileName)
    (chain : Nat) (relPath : PurePath) (w : Worklist) : Outcome Unit × Worklist :=
  match resolveRealSourcePath sourceRoot chain relPath w.stage.host with
  | (.running, h) => (.running, { w with stage := { w.stage with host := h } })
  | (.raised exception, h) =>
      (.raised exception, { w with stage := { w.stage with host := h } })
  | (.returned (realRelpath, realPath), h) =>
      if realRelpath ∈ w.inspected then
        (.returned (), { w with stage := { w.stage with host := h } })
      else
        match isElfFile h.tree realPath with
        | none => (.returned (), { w with stage := { w.stage with host := h } })
        | some content =>
            match readelf content with
            | none =>
                (.raised .calledProcessError, { w with
                  stage := { w.stage with host := h }
                  inspected := w.inspected ++ [realRelpath] })
            | some info =>
                queueLibraries sourceRoot (sortedNeeded info) { w with
                  stage := { w.stage with host := h }
                  queue := w.queue ++ interpreterPath info
                  inspected := w.inspected ++ [realRelpath] }

/-- One pass of the loop, for the path that was popped. -/
def copyAndInspect (readelf : List Byte -> Option ElfInfo)
    (sourceRoot stageRoot : FilePlace FileName) (chain : Nat) (relPath : PurePath)
    (w : Worklist) : Outcome Unit × Worklist :=
  match copyRelpath sourceRoot stageRoot chain relPath w.stage with
  | (.returned _, s) => inspect readelf sourceRoot chain relPath { w with stage := s }
  | (other, s) => (other, { w with stage := s })

/-- The loop of `copy_binary_runtime`, for some passes. -/
def runWorklist (readelf : List Byte -> Option ElfInfo)
    (sourceRoot stageRoot : FilePlace FileName) (chain : Nat) :
    Nat -> Worklist -> Outcome Unit × Worklist
  | 0, w => (.running, w)
  | fuel + 1, w =>
      match w.queue.getLast? with
      | none => (.returned (), w)
      | some relPath =>
          match copyAndInspect readelf sourceRoot stageRoot chain relPath
            { w with queue := w.queue.dropLast } with
          | (.returned _, w) => runWorklist readelf sourceRoot stageRoot chain fuel w
          | (other, w) => (other, w)

def requestPaths (relPaths : List (PathText FileName)) : List PurePath :=
  relPaths.map (fun path => normalizeRelpath path.absolute path.parts)

def copyBinaryRuntime (readelf : List Byte -> Option ElfInfo)
    (sourceRoot stageRoot : FilePlace FileName) (chain fuel : Nat)
    (relPaths : List (PathText FileName)) (h : Host (List Byte)) : Outcome Unit × Worklist :=
  runWorklist readelf sourceRoot stageRoot chain fuel ⟨⟨h, []⟩, requestPaths relPaths, []⟩

end Staging
end Bab750
