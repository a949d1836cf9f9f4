import Bab750.Jffs2.Scan

/-!
# Directories of a partition

The functions of `fs/jffs2/jffs2_1pass.c` that go through the lists for a name, a path or a link.
The lists are not sorted.
-/

namespace Bab750
namespace Jffs2

open Foundation

abbrev ReadBuf := Option View

def nodeMem (flash : Memory) (off : BitVec 32) (readbuf : ReadBuf) : ReadBuf :=
  let node := flashAt flash off
  let size := if node.magic = magicBitmask then node.totlen else unknownNodeSize
  readbuf.map (fun buf i => if i < size then node i else buf i)

/-- What `get_node_mem` points to: the read buffer, or else the flash itself. -/
def nodePtr (flash : Memory) (off : BitVec 32) (readbuf : ReadBuf) : View :=
  readbuf.getD (flashAt flash off)

/-- The variables of `jffs2_1pass_find_inode`. -/
structure Finding where
  readbuf : ReadBuf
  inode : BitVec 32
  version : BitVec 32

/-- The body of the loop of `jffs2_1pass_find_inode`. -/
def findStep (flash : Memory) (name : List Byte) (pino : BitVec 32) (st : Finding) (b : BNode) :
    Finding :=
  let readbuf := nodeMem flash b.offset st.readbuf
  let jDir := nodePtr flash b.offset readbuf
  if pino = jDir.pino ∧ name.length = jDir.nsize ∧ jDir.direntIno ≠ 0#32 ∧
      jDir.bytes rawDirentSize name.length = name ∧ ¬ jDir.direntVersion < st.version then
    ⟨readbuf, jDir.direntIno, jDir.direntVersion⟩
  else { st with readbuf := readbuf }

def findInode (flash : Memory) (lists : Lists) (name : List Byte) (pino : BitVec 32)
    (readbuf : ReadBuf) : BitVec 32 × ReadBuf :=
  let st := lists.dir.foldl (findStep flash name pino) ⟨readbuf, 0#32, 0#32⟩
  (st.inode, st.readbuf)

def slash : Byte := 0x2f#8

/-- The loop of `jffs2_1pass_search_inode` over the directories of a path. -/
def searchLoop (flash : Memory) (lists : Lists) :
    Nat -> List Byte -> BitVec 32 -> ReadBuf -> BitVec 32 × ReadBuf
  | 0, _, _, readbuf => (0#32, readbuf)
  | fuel + 1, tmp, pino, readbuf =>
      if slash ∈ tmp then
        let r := findInode flash lists (tmp.takeWhile (fun c => c ≠ slash)) pino readbuf
        if r.1 = 0#32 then r
        else searchLoop flash lists fuel (tmp.dropWhile (fun c => c ≠ slash)).tail r.1 r.2
      else findInode flash lists tmp pino readbuf

/-- `jffs2_1pass_search_inode`; the path has to fit into an array of 256 bytes. -/
def searchInode (flash : Memory) (lists : Lists) (fname : List Byte) (pino : BitVec 32)
    (readbuf : ReadBuf) : Option (BitVec 32 × ReadBuf) :=
  let tmp := fname.dropWhile (fun c => c = slash)
  if tmp.length < 256 then some (searchLoop flash lists (tmp.length + 1) tmp pino readbuf)
  else none

def dtLnk : Byte := 10#8

/-- The variables of the first loop of `jffs2_1pass_resolve_inode`. -/
structure Resolving where
  readbuf : ReadBuf
  type : Byte
  ino : BitVec 32
  pino : BitVec 32
  version : BitVec 32

/-- The body of the first loop of `jffs2_1pass_resolve_inode`. -/
def resolveStep (flash : Memory) (ino : BitVec 32) (st : Resolving) (b : BNode) : Resolving :=
  let readbuf := nodeMem flash b.offset st.readbuf
  let jDir := nodePtr flash b.offset readbuf
  if ino = jDir.direntIno ∧ ¬ jDir.direntVersion < st.version then
    ⟨readbuf, jDir.direntType, jDir.direntIno, jDir.pino, jDir.direntVersion⟩
  else { st with readbuf := readbuf }

/-- The second loop of `jffs2_1pass_resolve_inode`: the text of the link, if there is one. -/
def linkText (flash : Memory) (ino : BitVec 32) : List BNode -> ReadBuf ->
    Option (Nat × List Byte) × ReadBuf
  | [], readbuf => (none, readbuf)
  | b :: rest, readbuf =>
      let readbuf := nodeMem flash b.offset readbuf
      let jNode := nodePtr flash b.offset readbuf
      if jNode.ino = ino then
        (some (jNode.dsize, (jNode.bytes rawInodeSize jNode.dsize).takeWhile (fun c => c ≠ 0#8)),
          readbuf)
      else linkText flash ino rest readbuf

/-- `jffs2_1pass_resolve_inode`; `stack` is what `tmp` holds before anything is written. -/
def resolveInode (flash : Memory) (lists : Lists) (stack : List Byte) (ino : BitVec 32)
    (readbuf : ReadBuf) : Option (BitVec 32 × ReadBuf) :=
  let st := lists.dir.foldl (resolveStep flash ino) ⟨readbuf, 0#8, 0#32, 0#32, 0#32⟩
  if st.type ≠ dtLnk then some (st.ino, st.readbuf)
  else
    let link := linkText flash st.ino lists.frag st.readbuf
    let dsize := (link.1.map Prod.fst).getD 0
    let tmp := (link.1.map Prod.snd).getD stack
    if dsize < 256 then
      searchInode flash lists tmp (if tmp.head? = some slash then 1#32 else st.pino) link.2
    else none

end Jffs2
end Bab750
