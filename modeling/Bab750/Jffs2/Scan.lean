import Bab750.Jffs2.Nodes

/-!
# The scan of a partition

`jffs2_1pass_build_lists` of `fs/jffs2/jffs2_1pass.c`: the flash is read through a buffer, a
sector is skipped when it begins with erased words, and the nodes that pass their checks are
listed. Numbers of the scan are those of `u32`.
-/

namespace Bab750
namespace Jffs2

open Foundation

structure PartInfo where
  offset : BitVec 32
  size : Nat
  sectorSize : Nat

/-- `struct b_node`; `datacrc` is missing while it is `CRC_UNKNOWN`. -/
structure BNode where
  offset : BitVec 32
  datacrc : Option Bool

/-- The two lists, and the size of the longest node in them. -/
structure Lists where
  frag : List BNode
  dir : List BNode
  maxTotlen : Nat

/-- The lists behind `jffs_init_1pass_list`. -/
def Lists.empty : Lists := ⟨[], [], 0⟩

/-- `insert_node` for a fragment. -/
def Lists.insertFrag (lists : Lists) (off : BitVec 32) (totlen : Nat) : Lists :=
  { lists with frag := lists.frag ++ [⟨off, none⟩], maxTotlen := max lists.maxTotlen totlen }

/-- `insert_node` for a directory entry. -/
def Lists.insertDir (lists : Lists) (off : BitVec 32) (totlen : Nat) : Lists :=
  { lists with dir := lists.dir ++ [⟨off, none⟩], maxTotlen := max lists.maxTotlen totlen }

/-- The local variables of the scan; `buf` goes on behind the 4096 bytes of the buffer. -/
structure Scan where
  ofs : Nat
  prevofs : Nat
  bufOfs : Nat
  bufLen : Nat
  buf : View
  lists : Lists

def u32 (n : Nat) : Nat := n % 2 ^ 32

def u32Sub (m n : Nat) : Nat := u32 (m + (2 ^ 32 - n))

/-- `DEFAULT_EMPTY_SCAN_SIZE`, and the size of the buffer -/
def bufSize : Nat := 4096

def emptyScanSize (sectorSize : Nat) : Nat :=
  if sectorSize < bufSize then sectorSize else bufSize

def erasedWord : BitVec 32 := 0xffffffff#32

/-- `get_fl_mem` into the buffer. -/
def fillBuf (flash : Memory) (part : PartInfo) (buf : View) (ofs len : Nat) : View :=
  fun i => if i < len then flashAt flash (part.offset + BitVec.ofNat 32 ofs) i else buf i

/-- `get_fl_mem` at `ofs`, which moves the buffer. -/
def Scan.fetch (flash : Memory) (part : PartInfo) (s : Scan) (len : Nat) : Scan :=
  { s with buf := fillBuf flash part s.buf s.ofs len, bufOfs := s.ofs, bufLen := len }

def Scan.inbufOfs (s : Scan) : Nat := u32Sub s.ofs s.bufOfs

def Scan.node (s : Scan) : View := s.buf.drop s.inbufOfs

/-- `((totlen + 3) & ~3)` -/
def nodeLength (totlen : Nat) : Nat := u32 (totlen + 3) / 4 * 4

/-- The case `JFFS2_NODETYPE_INODE`. -/
def scanInode (flash : Memory) (part : PartInfo) (s : Scan) : Scan :=
  let s := if u32 (s.bufOfs + s.bufLen) < u32 (s.ofs + rawInodeSize) then
    s.fetch flash part s.bufLen else s
  if inodeCrc s.node then
    { s with
      lists := s.lists.insertFrag (part.offset + BitVec.ofNat 32 s.ofs) s.node.totlen }
  else s

/-- The case `JFFS2_NODETYPE_DIRENT`. -/
def scanDirent (flash : Memory) (part : PartInfo) (s : Scan) : Scan :=
  let s := if u32 (s.bufOfs + s.bufLen) < u32 (s.ofs + rawDirentSize + s.node.nsize) then
    s.fetch flash part s.bufLen else s
  if direntCrc s.node && direntNameCrc s.node then
    { s with
      lists := s.lists.insertDir (part.offset + BitVec.ofNat 32 s.ofs) s.node.totlen }
  else s

/-- The switch over the type of a node; the other types only print something. -/
def scanSwitch (flash : Memory) (part : PartInfo) (s : Scan) : Scan :=
  if s.node.nodetype = nodetypeInode then scanInode flash part s
  else if s.node.nodetype = nodetypeDirent then scanDirent flash part s
  else s

inductive Next where
  | more (s : Scan)
  | done (s : Scan)
  | empty (scanEnd : Nat) (s : Scan)

/-- The body of the loop behind `scan_more`, once the header is in the buffer. -/
def scanHeader (flash : Memory) (part : PartInfo) (sectorEnd : Nat) (s : Scan) : Next :=
  if s.node.word 0 = erasedWord then
    .empty (min (emptyScanSize part.sectorSize / 8) s.bufLen) { s with ofs := u32 (s.ofs + 4) }
  else if s.node.magic ≠ magicBitmask ∨ hdrCrc s.node = false then
    .more { s with ofs := u32 (s.ofs + 4) }
  else if sectorEnd < u32 (s.ofs + s.node.totlen) then
    .more { s with ofs := u32 (s.ofs + 4) }
  else
    let s := scanSwitch flash part s
    .more { s with ofs := u32 (s.ofs + nodeLength s.node.totlen) }

/-- The body of the loop behind `scan_more`. -/
def scanStep (flash : Memory) (part : PartInfo) (sectorEnd : Nat) (s : Scan) : Next :=
  if ¬ s.ofs < sectorEnd then .done s
  else if s.ofs = s.prevofs then .more { s with ofs := u32 (s.ofs + 4) }
  else
    let s := { s with prevofs := s.ofs }
    if sectorEnd < u32 (s.ofs + unknownNodeSize) then .done s
    else
      scanHeader flash part sectorEnd
        (if u32 (s.bufOfs + s.bufLen) < u32 (s.ofs + unknownNodeSize) then
          s.fetch flash part (min bufSize (u32Sub sectorEnd s.ofs)) else s)

/-- The loop behind `more_empty`; the answer says whether it goes on at `scan_more`. -/
def moreEmpty (flash : Memory) (part : PartInfo) (sectorEnd : Nat) :
    Nat -> Nat -> Scan -> Option (Bool × Scan)
  | 0, _, _ => none
  | fuel + 1, scanEnd, s =>
      if s.inbufOfs < scanEnd then
        if s.node.word 0 ≠ erasedWord then some (true, s)
        else moreEmpty flash part sectorEnd fuel scanEnd { s with ofs := u32 (s.ofs + 4) }
      else
        let bufLen := min bufSize (u32Sub sectorEnd s.ofs)
        if bufLen = 0 then some (false, { s with bufLen := bufLen })
        else moreEmpty flash part sectorEnd fuel bufLen (s.fetch flash part bufLen)

def scanMore (flash : Memory) (part : PartInfo) (sectorEnd : Nat) : Nat -> Scan -> Option Scan
  | 0, _ => none
  | fuel + 1, s =>
      match scanStep flash part sectorEnd s with
      | .more s => scanMore flash part sectorEnd fuel s
      | .done s => some s
      | .empty scanEnd s =>
          match moreEmpty flash part sectorEnd fuel scanEnd s with
          | none => none
          | some (true, s) => scanMore flash part sectorEnd fuel s
          | some (false, s) => some s

/-- The words at the beginning of the buffer that are erased, from byte `ofs` on. -/
def leadingErased (buf : View) (limit : Nat) : Nat -> Nat -> Nat
  | 0, ofs => ofs
  | fuel + 1, ofs =>
      if ofs < limit ∧ buf.word ofs = erasedWord then leadingErased buf limit fuel (ofs + 4)
      else ofs

def scanSector (flash : Memory) (part : PartInfo) (fuel : Nat) (buf : View) (lists : Lists)
    (i : Nat) : Option (View × Lists) :=
  let sectorOfs := u32 (i * part.sectorSize)
  let bufLen := emptyScanSize part.sectorSize
  let buf := fillBuf flash part buf sectorOfs bufLen
  let ofs := leadingErased buf bufLen bufLen 0
  if ofs = bufLen then some (buf, lists)
  else
    let ofs := u32 (ofs + sectorOfs)
    (scanMore flash part (u32 (sectorOfs + part.sectorSize)) fuel
      ⟨ofs, u32Sub ofs 1, sectorOfs, bufLen, buf, lists⟩).map (fun s => (s.buf, s.lists))

def scanSectors (flash : Memory) (part : PartInfo) (fuel : Nat) :
    Nat -> View -> Lists -> Option (View × Lists)
  | 0, buf, lists => some (buf, lists)
  | n + 1, buf, lists =>
      (scanSectors flash part fuel n buf lists).bind
        (fun r => scanSector flash part fuel r.1 r.2 n)

/-- `jffs2_1pass_build_lists`; `buf` is what the buffer holds before. -/
def buildLists (flash : Memory) (part : PartInfo) (fuel : Nat) (buf : View) : Option Lists :=
  (scanSectors flash part fuel (part.size / part.sectorSize) buf Lists.empty).map Prod.snd

end Jffs2
end Bab750
