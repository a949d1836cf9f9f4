import Bab750.Foundation.Newest
import Bab750.Jffs2.Directories

/-!
# The log of a partition

What the lists of the scan say, without buffers: the directory entries and the fragments in the
order of the flash, and the way a path goes through them.
-/

namespace Bab750
namespace Jffs2

open Foundation

structure Dirent where
  pino : BitVec 32
  version : Nat
  ino : BitVec 32
  type : Byte
  name : List Byte
  deriving DecidableEq

/-- A fragment of a file, with its data up to a NUL. -/
structure Fragment where
  ino : BitVec 32
  dsize : Nat
  text : List Byte
  deriving DecidableEq

def direntOf (node : View) : Dirent where
  pino := node.pino
  version := node.direntVersion.toNat
  ino := node.direntIno
  type := node.direntType
  name := node.name

def fragmentOf (node : View) : Fragment where
  ino := node.ino
  dsize := node.dsize
  text := (node.bytes rawInodeSize node.dsize).takeWhile (fun c => c ≠ 0#8)

def direntAt (flash : Memory) (b : BNode) : Dirent := direntOf (flashAt flash b.offset)

def fragmentAt (flash : Memory) (b : BNode) : Fragment := fragmentOf (flashAt flash b.offset)

/-- Directory entries and fragments, in the order of the flash. -/
structure Log where
  dirents : List Dirent
  fragments : List Fragment

def logOf (flash : Memory) (lists : Lists) : Log where
  dirents := lists.dir.map (direntAt flash)
  fragments := lists.frag.map (fragmentAt flash)

namespace Log

def links (log : Log) (name : List Byte) (pino : BitVec 32) : List Dirent :=
  log.dirents.filter (fun d => d.pino = pino ∧ d.name = name ∧ d.ino ≠ 0#32)

/-- The inode of a name in a directory, 0 if there is none. -/
def find (log : Log) (name : List Byte) (pino : BitVec 32) : BitVec 32 :=
  ((newest Dirent.version (log.links name pino)).map Dirent.ino).getD 0#32

/-- The entries for a name in a directory; one without an inode removes the name. -/
def entries (log : Log) (name : List Byte) (pino : BitVec 32) : List Dirent :=
  log.dirents.filter (fun d => d.pino = pino ∧ d.name = name)

def current (log : Log) (name : List Byte) (pino : BitVec 32) : BitVec 32 :=
  ((newest Dirent.version (log.entries name pino)).map Dirent.ino).getD 0#32

def walk (log : Log) : List (List Byte) -> BitVec 32 -> BitVec 32
  | [], pino => pino
  | [name], pino => log.find name pino
  | name :: rest, pino =>
      if log.find name pino = 0#32 then 0#32 else log.walk rest (log.find name pino)

/-- The inode of a path; leading slashes do not matter. -/
def search (log : Log) (path : List Byte) (pino : BitVec 32) : Option (BitVec 32) :=
  let tmp := path.dropWhile (fun c => c = slash)
  if tmp.length < 256 then some (log.walk (tmp.splitOn slash) pino) else none

def entry (log : Log) (ino : BitVec 32) : Option Dirent :=
  newest Dirent.version (log.dirents.filter (fun d => d.ino = ino))

def file (log : Log) (ino : BitVec 32) : List Fragment :=
  log.fragments.filter (fun f => f.ino = ino)

def resolve (log : Log) (stack : List Byte) (ino : BitVec 32) : Option (BitVec 32) :=
  match log.entry ino with
  | none => some 0#32
  | some d =>
      if d.type ≠ dtLnk then some d.ino
      else
        match (log.file d.ino).head? with
        | none => log.search stack (if stack.head? = some slash then 1#32 else d.pino)
        | some f =>
            if f.dsize < 256 then
              log.search f.text (if f.text.head? = some slash then 1#32 else d.pino)
            else none

end Log

end Jffs2
end Bab750
