import Bab750.Foundation.Memory
import Bab750.Support.Crc32

/-!
# Nodes of a flash file system

The structures of `include/jffs2/jffs2.h` and the checks of `fs/jffs2/jffs2_private.h`. A node is
seen through a pointer: byte `i` of the view is byte `i` behind the pointer.
-/

namespace Bab750
namespace Jffs2

open Foundation
open Support (crc32NoComp)

abbrev View := Nat -> Byte

def flashAt (flash : Memory) (off : BitVec 32) : View :=
  fun i => flash (off + BitVec.ofNat 32 i)

/-- The view behind the first `n` bytes of another one. -/
def View.drop (node : View) (n : Nat) : View := fun i => node (n + i)

/-- `count` bytes from byte `i` on. -/
def View.bytes (node : View) (i count : Nat) : List Byte :=
  (List.range count).map (fun k => node (i + k))

def View.half (node : View) (i : Nat) : BitVec 16 := node i ++ node (i + 1)

def View.word (node : View) (i : Nat) : BitVec 32 :=
  node i ++ node (i + 1) ++ node (i + 2) ++ node (i + 3)

/-!
# Fields
-/

def magicBitmask : BitVec 16 := 0x1985#16

def nodetypeDirent : BitVec 16 := 0xe001#16

def nodetypeInode : BitVec 16 := 0xe002#16

/-- `sizeof(struct jffs2_unknown_node)` -/
def unknownNodeSize : Nat := 12

/-- `sizeof(struct jffs2_raw_dirent)` -/
def rawDirentSize : Nat := 40

/-- `sizeof(struct jffs2_raw_inode)` -/
def rawInodeSize : Nat := 68

namespace View

def magic (node : View) : BitVec 16 := node.half 0
def nodetype (node : View) : BitVec 16 := node.half 2
def totlen (node : View) : Nat := (node.word 4).toNat
def hdrCrcField (node : View) : BitVec 32 := node.word 8

/-! Fields of `struct jffs2_raw_dirent`. -/

def pino (node : View) : BitVec 32 := node.word 12
def direntVersion (node : View) : BitVec 32 := node.word 16
def direntIno (node : View) : BitVec 32 := node.word 20
def nsize (node : View) : Nat := (node 28).toNat
def direntType (node : View) : Byte := node 29
def direntCrcField (node : View) : BitVec 32 := node.word 32
def nameCrcField (node : View) : BitVec 32 := node.word 36
def name (node : View) : List Byte := node.bytes rawDirentSize node.nsize

/-! Fields of `struct jffs2_raw_inode`. -/

def ino (node : View) : BitVec 32 := node.word 12
def dsize (node : View) : Nat := (node.word 52).toNat
def inodeCrcField (node : View) : BitVec 32 := node.word 64

end View

/-!
# Checks

The value of `crc32_no_comp` does not depend on the address of the buffer.
-/

def hdrCrc (node : View) : Bool :=
  node.hdrCrcField = crc32NoComp 0#32 0 (node.bytes 0 (unknownNodeSize - 4))

def direntCrc (node : View) : Bool :=
  node.direntCrcField = crc32NoComp 0#32 0 (node.bytes 0 (rawDirentSize - 8))

def direntNameCrc (node : View) : Bool :=
  node.nameCrcField = crc32NoComp 0#32 0 node.name

def inodeCrc (node : View) : Bool :=
  node.inodeCrcField = crc32NoComp 0#32 0 (node.bytes 0 (rawInodeSize - 8))

/-!
# Views that agree
-/

/-- Two views have the same first `n` bytes. -/
def Agree (n : Nat) (first second : View) : Prop := forall i, i < n -> first i = second i

theorem Agree.symm {n : Nat} {first second : View} (h : Agree n first second) :
    Agree n second first := fun i hi => (h i hi).symm

theorem Agree.mono {m n : Nat} {first second : View} (h : Agree n first second) (hle : m ≤ n) :
    Agree m first second := fun i hi => h i (Nat.lt_of_lt_of_le hi hle)

section

variable {n : Nat} {first second : View} (h : Agree n first second)
include h

theorem Agree.bytes {i count : Nat} (hle : i + count ≤ n) :
    first.bytes i count = second.bytes i count := by
  apply List.map_congr_left
  intro k hk
  have hlt := List.mem_range.mp hk
  exact h (i + k) (by omega)

theorem Agree.half {i : Nat} (hle : i + 2 ≤ n) : first.half i = second.half i := by
  unfold View.half
  rw [h i (by omega), h (i + 1) (by omega)]

theorem Agree.word {i : Nat} (hle : i + 4 ≤ n) : first.word i = second.word i := by
  unfold View.word
  rw [h i (by omega), h (i + 1) (by omega), h (i + 2) (by omega), h (i + 3) (by omega)]

theorem Agree.magic (hle : 2 ≤ n) : first.magic = second.magic := h.half hle

theorem Agree.nodetype (hle : 4 ≤ n) : first.nodetype = second.nodetype := h.half hle

theorem Agree.totlen (hle : 8 ≤ n) : first.totlen = second.totlen :=
  congrArg BitVec.toNat (h.word hle)

theorem Agree.hdrCrc (hle : 12 ≤ n) : hdrCrc first = hdrCrc second := by
  unfold Jffs2.hdrCrc View.hdrCrcField
  rw [h.word (by omega), h.bytes (by unfold unknownNodeSize; omega)]

theorem Agree.inodeCrc (hle : rawInodeSize ≤ n) : inodeCrc first = inodeCrc second := by
  unfold rawInodeSize at hle
  unfold Jffs2.inodeCrc View.inodeCrcField
  rw [h.word (by omega), h.bytes (by unfold rawInodeSize; omega)]

theorem Agree.nsize (hle : 29 ≤ n) : first.nsize = second.nsize :=
  congrArg BitVec.toNat (h 28 (by omega))

theorem Agree.name (hle : rawDirentSize + first.nsize ≤ n) : first.name = second.name := by
  have hnsize : first.nsize = second.nsize := h.nsize (by unfold rawDirentSize at hle; omega)
  unfold View.name
  rw [← hnsize]
  exact h.bytes hle

theorem Agree.direntCrc (hle : rawDirentSize ≤ n) : direntCrc first = direntCrc second := by
  unfold rawDirentSize at hle
  unfold Jffs2.direntCrc View.direntCrcField
  rw [h.word (by omega), h.bytes (by unfold rawDirentSize; omega)]

theorem Agree.direntNameCrc (hle : rawDirentSize + first.nsize ≤ n) :
    direntNameCrc first = direntNameCrc second := by
  unfold Jffs2.direntNameCrc View.nameCrcField
  rw [h.word (by unfold rawDirentSize at hle; omega), h.name hle]

end

end Jffs2
end Bab750
