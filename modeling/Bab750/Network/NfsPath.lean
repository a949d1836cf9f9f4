import Bab750.Environment.Copies
import Bab750.Foundation.HexText
import Bab750.Network.NfsBounds

/-!
# Directory and name of an NFS path

`basename` and `dirname` of `net/nfs.c` on the characters around `nfs_path_buff`, and their
use by `NfsStart` and behind each symbolic link.  `dirname` ends the path in place, and the
next link is put behind what it has left.
-/

namespace Bab750
namespace Network
namespace Nfs

open Foundation
open Environment

/-!
# Pointers into the path
-/

/-- The characters by their distance from the start of `nfs_path_buff`. -/
abbrev PathMemory := Int -> Byte

inductive PathAccess where
  | read (place : Int)
  | write (place : Int)
deriving DecidableEq

def PathAccess.place : PathAccess -> Int
  | .read place => place
  | .write place => place

def strlenAt (memory : PathMemory) : Nat -> Int -> Option Nat
  | 0, _ => none
  | room + 1, path =>
      if memory path = 0#8 then some 0
      else (strlenAt memory room (path + 1)).map (fun len => len + 1)

/-- The loop of `basename`, which looks at the character in front of the place `n` first. -/
def basenameLoop (memory : PathMemory) (path : Int) : Nat -> Int × List PathAccess
  | 0 => (path - 1, [])
  | n + 1 =>
      if memory (path + n) = 0x2f#8 then (path + n + 1, [.read (path + n)])
      else
        let front := basenameLoop memory path n
        (front.1, .read (path + n) :: front.2)

def basenameAt (memory : PathMemory) (path : Int) : Option (Int × List PathAccess) :=
  (strlenAt memory nfsPathSize path).map (fun len =>
    let fname := basenameLoop memory path len
    (fname.1, (List.range (len + 1)).map (fun i : Nat => PathAccess.read (path + i)) ++ fname.2))

def dirnameAt (memory : PathMemory) (path : Int) : Option (PathMemory × List PathAccess) :=
  (basenameAt memory path).map (fun fname =>
    (Function.update memory (fname.1 - 1) 0#8, fname.2 ++ [.write (fname.1 - 1)]))

structure PathSplit where
  memory : PathMemory
  nfsFilename : Int
  accesses : List PathAccess

/-- `nfs_filename = basename (nfs_path)` and `nfs_path = dirname (nfs_path)`. -/
def splitPath (memory : PathMemory) : Option PathSplit :=
  (basenameAt memory 0).bind (fun fname =>
    (dirnameAt memory 0).map (fun cut => ⟨cut.1, fname.1, fname.2 ++ cut.2⟩))

/-!
# Paths that are split
-/

/-- `strcpy` or `memcpy` to the path. -/
def storeAt (memory : PathMemory) (place : Int) (bytes : List Byte) : PathMemory :=
  fun p => if place <= p then bytes[(p - place).toNat]?.getD (memory p) else memory p

/-- The name that `NfsStart` makes of the address of the board. -/
def defaultFilename (netOurIP : BitVec 32) : List Byte :=
  ascii "/nfsroot/" ++ upperHex (wordBytes netOurIP).reverse ++ ascii ".img"

def bootPath (bootFile : List Byte) : List Byte :=
  if 0x3a#8 ∈ bootFile then (bootFile.dropWhile (fun c => c != 0x3a#8)).drop 1 else bootFile

/-- `NfsServerIP` and the path in `NfsStart`. -/
def startPath (netServerIP netOurIP : BitVec 32) (bootFile : List Byte) :
    BitVec 32 × List Byte :=
  if bootFile = [] then (netServerIP, defaultFilename netOurIP)
  else if 0x3a#8 ∈ bootFile then (stringToIp (some bootFile), bootPath bootFile)
  else (netServerIP, bootPath bootFile)

/-- What a path comes from; a link target is a length and the bytes that it is the length
of. -/
inductive PathCall where
  | start (netServerIP netOurIP : BitVec 32) (bootFile : List Byte)
  | readlink (data : Buffer) (rlen : Nat)

def writePath (memory : PathMemory) : PathCall -> Option PathMemory
  | .start netServerIP netOurIP bootFile =>
      some (storeAt memory 0 ((startPath netServerIP netOurIP bootFile).2 ++ [0#8]))
  | .readlink data rlen =>
      if data 0 ≠ 0x2f#8 then
        (strlenAt memory nfsPathSize 0).bind (fun len : Nat =>
          let memory := storeAt memory len [0x2f#8, 0#8]
          (strlenAt memory nfsPathSize 0).map (fun pathlen : Nat =>
            let memory := storeAt memory pathlen (bytesAt data 0 rlen)
            storeAt memory (pathlen + rlen) [0#8]))
      else some (storeAt (storeAt memory 0 (bytesAt data 0 rlen)) rlen [0#8])

/-!
# Strings
-/

def Cells (memory : PathMemory) : Int -> List Byte -> Prop
  | _, [] => True
  | place, c :: bytes => memory place = c ∧ Cells memory (place + 1) bytes

structure HoldsText (memory : PathMemory) (place : Int) (text : List Byte) : Prop where
  noNul : 0#8 ∉ text
  cells : Cells memory place (text ++ [0#8])

def fullPath (dir : List Byte) : PathCall -> List Byte
  | .start netServerIP netOurIP bootFile => (startPath netServerIP netOurIP bootFile).2
  | .readlink data rlen =>
      if data 0 ≠ 0x2f#8 then upToNul (dir ++ ascii "/" ++ bytesAt data 0 rlen)
      else upToNul (bytesAt data 0 rlen)

/-- The path and its NUL have room, and a boot file name is a string. -/
def Fits (memory : PathMemory) : PathCall -> Prop
  | .start netServerIP netOurIP bootFile =>
      0#8 ∉ bootFile ∧ (startPath netServerIP netOurIP bootFile).2.length < nfsPathSize
  | .readlink data rlen =>
      if data 0 ≠ 0x2f#8 then
        forall dir, HoldsText memory 0 dir -> dir.length + 1 + rlen < nfsPathSize
      else rlen < nfsPathSize

/-- Directory and name make up the path, and only the path was touched. -/
structure SplitsWell (text : List Byte) (split : PathSplit) : Prop where
  parts : exists dir base, HoldsText split.memory 0 dir ∧
    HoldsText split.memory split.nfsFilename base ∧ dir ++ 0x2f#8 :: base = text ∧
    0x2f#8 ∉ base
  inside : forall access, access ∈ split.accesses ->
    0 <= access.place ∧ access.place <= text.length

/-- A boot file name has a slash behind its server, and a link target from the root is not
empty. -/
def HasSlash : PathCall -> Prop
  | .start _ _ bootFile => bootFile = [] ∨ 0x2f#8 ∈ bootPath bootFile
  | .readlink data rlen => data 0 ≠ 0x2f#8 ∨ rlen ≠ 0

def PathStep (memory : PathMemory) (call : PathCall) (next : PathMemory) : Prop :=
  Fits memory call ∧ exists written split, writePath memory call = some written ∧
    splitPath written = some split ∧ next = split.memory

variable {memory : PathMemory} {place other : Int} {bytes text dir base : List Byte}

theorem cells_cons {c : Byte} : Cells memory place (c :: bytes) <->
    memory place = c ∧ Cells memory (place + 1) bytes :=
  Iff.rfl

theorem cells_iff : Cells memory place bytes <->
    forall (k : Nat) (c : Byte), bytes[k]? = some c -> memory (place + k) = c := by
  induction bytes generalizing place with
  | nil =>
      exact ⟨fun _ k c h => by simp at h, fun _ => trivial⟩
  | cons b bytes ih =>
      unfold Cells
      rw [ih]
      constructor
      · rintro ⟨hhead, htail⟩ k c hc
        cases k with
        | zero =>
            rw [List.getElem?_cons_zero] at hc
            rw [Nat.cast_zero, Int.add_zero, hhead]
            exact Option.some.inj hc
        | succ k =>
            rw [List.getElem?_cons_succ] at hc
            rw [← htail k c hc]
            congr 1
            omega
      · intro h
        refine ⟨?_, fun k c hc => ?_⟩
        · have hhead := h 0 b List.getElem?_cons_zero
          rw [Nat.cast_zero, Int.add_zero] at hhead
          exact hhead
        · rw [← h (k + 1) c (by rw [List.getElem?_cons_succ]; exact hc)]
          congr 1
          omega

theorem cells_append {more : List Byte} : Cells memory place (bytes ++ more) <->
    Cells memory place bytes ∧ Cells memory (place + bytes.length) more := by
  induction bytes generalizing place with
  | nil =>
      rw [List.nil_append, List.length_nil, Nat.cast_zero, Int.add_zero]
      exact ⟨fun h => ⟨trivial, h⟩, fun h => h.2⟩
  | cons b bytes ih =>
      rw [List.cons_append, cells_cons, cells_cons, ih, and_assoc, List.length_cons]
      have hplace : place + 1 + bytes.length = place + (bytes.length + 1 : Nat) := by omega
      rw [hplace]

theorem cells_storeAt (memory : PathMemory) (place : Int) (bytes : List Byte) :
    Cells (storeAt memory place bytes) place bytes := by
  rw [cells_iff]
  intro k c hc
  have hindex : (place + k - place).toNat = k := by omega
  unfold storeAt
  rw [if_pos (by omega), hindex, hc]
  rfl

theorem Cells.storeAt (h : Cells memory place bytes) {more : List Byte}
    (hfront : place + bytes.length <= other) :
    Cells (storeAt memory other more) place bytes := by
  rw [cells_iff] at h ⊢
  intro k c hc
  have hk := (List.getElem?_eq_some_iff.1 hc).1
  unfold Nfs.storeAt
  rw [if_neg (by omega)]
  exact h k c hc

theorem Cells.extend (h : Cells memory 0 bytes) (hother : other = bytes.length)
    (more : List Byte) : Cells (Nfs.storeAt memory other more) 0 (bytes ++ more) := by
  rw [cells_append]
  refine ⟨h.storeAt (by omega), ?_⟩
  have hplace : 0 + (bytes.length : Int) = other := by omega
  rw [hplace]
  exact cells_storeAt memory other more

theorem Cells.update (h : Cells memory place bytes) {c : Byte}
    (houtside : other < place ∨ place + bytes.length <= other) :
    Cells (Function.update memory other c) place bytes := by
  rw [cells_iff] at h ⊢
  intro k b hb
  have hk := (List.getElem?_eq_some_iff.1 hb).1
  rw [Function.update_of_ne (by omega)]
  exact h k b hb

theorem strlenAt_text {room : Nat} (h : HoldsText memory place text)
    (hroom : text.length < room) : strlenAt memory room place = some text.length := by
  obtain ⟨hnul, hcells⟩ := h
  induction text generalizing place room with
  | nil =>
      obtain ⟨room, rfl⟩ := Nat.exists_eq_succ_of_ne_zero (Nat.pos_iff_ne_zero.1 hroom)
      unfold strlenAt
      exact if_pos hcells.1
  | cons c text ih =>
      obtain ⟨room, rfl⟩ := Nat.exists_eq_succ_of_ne_zero (Nat.ne_zero_of_lt hroom)
      have hnonzero : memory place ≠ 0#8 := by
        rw [hcells.1]
        exact fun hc => hnul (hc ▸ List.mem_cons_self)
      unfold strlenAt
      rw [if_neg hnonzero, ih (Nat.lt_of_succ_lt_succ hroom)
        (fun hmem => hnul (List.mem_cons_of_mem c hmem)) hcells.2]
      rfl

theorem mem_upToNul {c : Byte} (h : c ∈ upToNul bytes) : c ≠ 0#8 := by
  have hc := List.mem_takeWhile_imp h
  exact bne_iff_ne.1 hc

theorem holdsText_upToNul (h : Cells memory place (bytes ++ [0#8])) :
    HoldsText memory place (upToNul bytes) := by
  refine ⟨fun hmem => mem_upToNul hmem rfl, ?_⟩
  induction bytes generalizing place with
  | nil =>
      exact h
  | cons c bytes ih =>
      unfold upToNul
      by_cases hc : c = 0#8
      · rw [List.takeWhile_cons_of_neg (by simp [hc])]
        exact ⟨h.1.trans hc, trivial⟩
      · rw [List.takeWhile_cons_of_pos (by simp [hc])]
        exact ⟨h.1, ih h.2⟩

/-!
# The path that is written
-/

def Ready (memory : PathMemory) (dir : List Byte) : Prop :=
  HoldsText memory 0 dir ∧ dir.length < nfsPathSize

theorem bytesAt_length_eq (data : Buffer) (rlen : Nat) : (bytesAt data 0 rlen).length = rlen :=
  bytesAt_length data 0 rlen

theorem upToNul_length_le (bytes : List Byte) : (upToNul bytes).length <= bytes.length :=
  (List.takeWhile_sublist _).length_le

theorem bootPath_noNul {bootFile : List Byte} (h : 0#8 ∉ bootFile) : 0#8 ∉ bootPath bootFile := by
  unfold bootPath
  split
  · exact fun hmem => h ((List.dropWhile_suffix _).subset (List.mem_of_mem_drop hmem))
  · exact h

theorem upperHex_noNul (bytes : List Byte) : 0#8 ∉ upperHex bytes := by
  unfold upperHex
  have hdigits : forall b : Byte,
      0#8 ∉ [upperDigit ((b >>> (4 : Nat)) &&& 15#8), upperDigit (b &&& 15#8)] := by decide
  rw [List.mem_flatMap]
  rintro ⟨b, _, hb⟩
  exact hdigits b hb

theorem defaultFilename_noNul (netOurIP : BitVec 32) : 0#8 ∉ defaultFilename netOurIP := by
  unfold defaultFilename
  rw [List.mem_append, List.mem_append, not_or, not_or]
  exact ⟨⟨by decide, upperHex_noNul _⟩, by decide⟩

theorem startPath_eq {bootFile : List Byte} (netServerIP netOurIP : BitVec 32) :
    (startPath netServerIP netOurIP bootFile).2 =
      if bootFile = [] then defaultFilename netOurIP else bootPath bootFile := by
  unfold startPath
  split
  · rfl
  · split
    · rfl
    · rfl

theorem writePath_text {call : PathCall} (hready : Ready memory dir) (hfits : Fits memory call) :
    exists written, writePath memory call = some written ∧ Ready written (fullPath dir call) := by
  cases call with
  | start netServerIP netOurIP bootFile =>
      refine ⟨_, rfl, ⟨?_, cells_storeAt _ _ _⟩, hfits.2⟩
      unfold fullPath
      dsimp only
      rw [startPath_eq]
      split
      · exact defaultFilename_noNul netOurIP
      · exact bootPath_noNul hfits.1
  | readlink data rlen =>
      have hlength := bytesAt_length_eq data rlen
      unfold Fits at hfits
      unfold writePath fullPath
      dsimp only at hfits ⊢
      by_cases hrelative : data 0 ≠ 0x2f#8
      · rw [if_pos hrelative] at hfits ⊢
        rw [if_pos hrelative]
        have hroom := hfits dir hready.1
        obtain ⟨hnul, hcells⟩ := hready.1
        have hslash :
            HoldsText (storeAt memory dir.length [0x2f#8, 0#8]) 0 (dir ++ ascii "/") := by
          refine ⟨?_, ?_⟩
          · rw [List.mem_append, not_or]
            exact ⟨hnul, by decide⟩
          · rw [List.append_assoc]
            exact (cells_append.1 hcells).1.extend rfl _
        have hdir : (dir ++ ascii "/").length = dir.length + 1 := List.length_append
        rw [strlenAt_text hready.1 hready.2, Option.bind_some,
          strlenAt_text hslash (by omega), Option.map_some]
        refine ⟨_, rfl, ?_, ?_⟩
        · apply holdsText_upToNul
          have htarget := (cells_append.1 hslash.cells).1.extend rfl (bytesAt data 0 rlen)
          refine htarget.extend ?_ [0#8]
          have hboth : (dir ++ ascii "/" ++ bytesAt data 0 rlen).length =
              (dir ++ ascii "/").length + rlen := by
            rw [List.length_append, hlength]
          rw [hboth]
          rfl
        · have hle := upToNul_length_le (dir ++ ascii "/" ++ bytesAt data 0 rlen)
          rw [List.length_append, hdir, hlength] at hle
          omega
      · rw [if_neg hrelative] at hfits ⊢
        rw [if_neg hrelative]
        refine ⟨_, rfl, ?_, ?_⟩
        · apply holdsText_upToNul
          refine (cells_storeAt memory 0 (bytesAt data 0 rlen)).extend ?_ [0#8]
          rw [hlength]
        · have hle := upToNul_length_le (bytesAt data 0 rlen)
          rw [hlength] at hle
          omega

/-!
# The split
-/

theorem basename_noSlash (text : List Byte) : 0x2f#8 ∉ basename text := by
  unfold basename
  rw [List.mem_reverse]
  intro hmem
  have hother := List.mem_takeWhile_imp (p := fun c => c != 0x2f#8) hmem
  exact bne_iff_ne.1 hother rfl

theorem dirname_append_basename (h : 0x2f#8 ∈ text) :
    dirname text ++ 0x2f#8 :: basename text = text := by
  have hsplit := @List.takeWhile_append_dropWhile Byte (fun c => c != 0x2f#8) text.reverse
  have hne : text.reverse.dropWhile (fun c => c != 0x2f#8) ≠ [] := by
    intro hnil
    have hall := List.dropWhile_eq_nil_iff.1 hnil 0x2f#8 (List.mem_reverse.2 h)
    exact bne_iff_ne.1 hall rfl
  have hhead := List.head_dropWhile_not (p := fun c => c != 0x2f#8) hne
  unfold dirname basename
  generalize text.reverse.takeWhile (fun c => c != 0x2f#8) = name at hsplit ⊢
  generalize text.reverse.dropWhile (fun c => c != 0x2f#8) = rest at hsplit hne hhead ⊢
  obtain ⟨c, rest, rfl⟩ := List.exists_cons_of_ne_nil hne
  have hslash : c = 0x2f#8 := bne_eq_false_iff_eq.1 hhead
  have htext : text = (name ++ c :: rest).reverse := by
    rw [hsplit, List.reverse_reverse]
  rw [htext, List.reverse_append, List.reverse_cons, List.append_assoc, hslash]
  rfl

theorem basenameLoop_succ {n : Nat} (h : memory (place + n) ≠ 0x2f#8) :
    (basenameLoop memory place (n + 1)).1 = (basenameLoop memory place n).1 := by
  rw [basenameLoop, if_neg h]

theorem basenameLoop_skip {n : Nat} (j : Nat)
    (hskip : forall k : Nat, n <= k -> k < n + j -> memory (place + k) ≠ 0x2f#8) :
    (basenameLoop memory place (n + j)).1 = (basenameLoop memory place n).1 := by
  induction j with
  | zero =>
      rfl
  | succ j ih =>
      rw [← Nat.add_assoc, basenameLoop_succ (hskip (n + j) (Nat.le_add_right n j) (by omega))]
      exact ih (fun k hlower hupper => hskip k hlower (by omega))

theorem basenameLoop_reads (memory : PathMemory) (place : Int) (n : Nat) :
    forall access, access ∈ (basenameLoop memory place n).2 ->
      exists k : Nat, k < n ∧ access = .read (place + k) := by
  induction n with
  | zero =>
      intro access h
      cases h
  | succ n ih =>
      intro access h
      unfold basenameLoop at h
      split at h
      · rw [List.mem_singleton] at h
        exact ⟨n, Nat.lt_succ_self n, h⟩
      · rcases List.mem_cons.1 h with hhead | htail
        · exact ⟨n, Nat.lt_succ_self n, hhead⟩
        · obtain ⟨k, hk, hread⟩ := ih access htail
          exact ⟨k, Nat.lt_succ_of_lt hk, hread⟩

/-- What `basename` reads of a path. -/
def pathReads (memory : PathMemory) (len : Nat) : List PathAccess :=
  (List.range (len + 1)).map (fun i : Nat => PathAccess.read (0 + i)) ++
    (basenameLoop memory 0 len).2

theorem pathReads_inside {len : Nat} :
    forall access, access ∈ pathReads memory len -> 0 <= access.place ∧ access.place <= len := by
  intro access haccess
  rcases List.mem_append.1 haccess with hscan | hloop
  · obtain ⟨i, hi, rfl⟩ := List.mem_map.1 hscan
    rw [List.mem_range] at hi
    change 0 <= 0 + (i : Int) ∧ 0 + (i : Int) <= len
    omega
  · obtain ⟨k, hk, rfl⟩ := basenameLoop_reads memory 0 len access hloop
    change 0 <= 0 + (k : Int) ∧ 0 + (k : Int) <= len
    omega

theorem splitPath_text (h : Ready memory text) :
    splitPath memory = some
      { memory := Function.update memory ((basenameLoop memory 0 text.length).1 - 1) 0#8
        nfsFilename := (basenameLoop memory 0 text.length).1
        accesses := pathReads memory text.length ++ (pathReads memory text.length ++
          [.write ((basenameLoop memory 0 text.length).1 - 1)]) } := by
  have hbase : basenameAt memory 0 =
      some ((basenameLoop memory 0 text.length).1, pathReads memory text.length) := by
    unfold basenameAt
    rw [strlenAt_text h.1 h.2]
    rfl
  unfold splitPath dirnameAt
  rw [hbase]
  rfl

theorem splitPath_slash (h : Ready memory text) (hslash : 0x2f#8 ∈ text) :
    exists split, splitPath memory = some split ∧
      HoldsText split.memory 0 (dirname text) ∧
      HoldsText split.memory split.nfsFilename (basename text) ∧
      forall access, access ∈ split.accesses ->
        0 <= access.place ∧ access.place <= text.length := by
  have hparts := dirname_append_basename hslash
  have hnoSlash := basename_noSlash text
  generalize hdir : dirname text = dir at hparts ⊢
  generalize hbase : basename text = base at hparts hnoSlash ⊢
  obtain ⟨⟨hnul, hcells⟩, _⟩ := id h
  have hlength : text.length = dir.length + 1 + base.length := by
    rw [← hparts, List.length_append, List.length_cons]
    omega
  have hindex : forall (k : Nat) (c : Byte), text[k]? = some c -> memory (0 + k) = c := by
    intro k c hc
    exact cells_iff.1 (cells_append.1 hcells).1 k c hc
  have hfound : (basenameLoop memory 0 text.length).1 = dir.length + 1 := by
    rw [hlength, basenameLoop_skip base.length]
    · have hat : memory (0 + (dir.length : Nat)) = 0x2f#8 := by
        apply hindex
        rw [← hparts, List.getElem?_append_right (Nat.le_refl _), Nat.sub_self]
        rfl
      unfold basenameLoop
      rw [if_pos hat]
      omega
    · intro k hlower hupper hat
      obtain ⟨i, rfl⟩ := Nat.exists_eq_add_of_le hlower
      have hi : i < base.length := by omega
      have hbehind : dir.length + 1 + i - dir.length = i + 1 := by omega
      have hchar : text[dir.length + 1 + i]? = some base[i] := by
        rw [← hparts, List.getElem?_append_right (by omega), hbehind, List.getElem?_cons_succ,
          List.getElem?_eq_getElem hi]
      rw [hindex _ _ hchar] at hat
      exact hnoSlash (hat ▸ List.getElem_mem hi)
  have hcut : (basenameLoop memory 0 text.length).1 - 1 = dir.length := by omega
  rw [← hparts, List.append_assoc, List.cons_append, cells_append, cells_cons] at hcells
  obtain ⟨hdirCells, _, hbaseCells⟩ := hcells
  refine ⟨_, splitPath_text h, ?_, ?_, ?_⟩
  · rw [hcut]
    refine ⟨fun hmem => hnul (hparts ▸ List.mem_append_left _ hmem), ?_⟩
    refine cells_append.2 ⟨hdirCells.update (Or.inr (by omega)), ?_, trivial⟩
    rw [Int.zero_add]
    exact Function.update_self _ _ _
  · rw [hcut, hfound]
    refine ⟨fun hmem => hnul (hparts ▸ List.mem_append_right _ (List.mem_cons_of_mem _ hmem)), ?_⟩
    rw [Int.zero_add] at hbaseCells
    exact hbaseCells.update (Or.inl (by omega))
  · intro access haccess
    rcases List.mem_append.1 haccess with hread | hboth
    · exact pathReads_inside access hread
    · rcases List.mem_append.1 hboth with hread | hwrite
      · exact pathReads_inside access hread
      · rw [List.mem_singleton, hcut] at hwrite
        rw [hwrite]
        change 0 <= (dir.length : Int) ∧ (dir.length : Int) <= text.length
        omega

theorem splitPath_slashless (h : Ready memory text) (hslash : 0x2f#8 ∉ text) :
    exists split, splitPath memory = some split ∧ Ready split.memory text ∧
      split.nfsFilename = -1 ∧ PathAccess.write (-2) ∈ split.accesses := by
  have hcells := (cells_append.1 h.1.cells).1
  have hnone : (basenameLoop memory 0 text.length).1 = -1 := by
    have hskip := @basenameLoop_skip memory 0 0 text.length (fun k _ hk hat => by
      rw [Nat.zero_add] at hk
      rw [cells_iff.1 hcells k _ (List.getElem?_eq_getElem hk)] at hat
      exact hslash (hat ▸ List.getElem_mem hk))
    rw [Nat.zero_add] at hskip
    exact hskip
  have hsplit := splitPath_text h
  rw [hnone] at hsplit
  refine ⟨_, hsplit, ⟨⟨h.1.noNul, h.1.cells.update (Or.inl (by decide))⟩, h.2⟩, rfl, ?_⟩
  exact List.mem_append_right _ (List.mem_append_right _ (List.mem_singleton.2 rfl))

theorem splitsWell_iff (h : Ready memory text) :
    exists split, splitPath memory = some split ∧ (exists dir, Ready split.memory dir) ∧
      (SplitsWell text split <-> 0x2f#8 ∈ text) := by
  by_cases hslash : 0x2f#8 ∈ text
  · obtain ⟨split, hsplit, hdir, hbase, hinside⟩ := splitPath_slash h hslash
    have hparts := dirname_append_basename hslash
    have hlength := congrArg List.length hparts
    rw [List.length_append] at hlength
    have hroom := h.2
    refine ⟨split, hsplit, ⟨dirname text, hdir, by omega⟩,
      fun _ => hslash, fun _ => ⟨⟨_, _, hdir, hbase, hparts, basename_noSlash text⟩, hinside⟩⟩
  · obtain ⟨split, hsplit, hready, _⟩ := splitPath_slashless h hslash
    refine ⟨split, hsplit, ⟨text, hready⟩, fun hwell => ?_, fun hmem => absurd hmem hslash⟩
    obtain ⟨dir, base, _, _, hparts, _⟩ := hwell.parts
    rw [← hparts]
    exact List.mem_append_right _ List.mem_cons_self

theorem nfsReadlinkReply_path {s : NfsClient} {pkt : Buffer} (h : Accepted s pkt statusFields) :
    nfsReadlinkReply s pkt = (0, { s with
      nfsPath := fullPath s.nfsPath
        (.readlink (fun i => pkt (32 + i)) (rpcWord pkt 7).toNat) }) := by
  have htarget : bytesAt pkt 32 (rpcWord pkt 7).toNat =
      bytesAt (fun i => pkt (32 + i)) 0 (rpcWord pkt 7).toNat :=
    bytesAt_congr (fun k _ => by rw [Nat.zero_add])
  obtain ⟨hid, haccepted⟩ := accepted_status.1 h
  unfold nfsReadlinkReply fullPath
  rw [if_neg (not_not.2 hid), if_neg haccepted, htarget]
  dsimp only
  by_cases hrelative : pkt 32 ≠ 0x2f#8
  · rw [if_pos hrelative, if_pos (show pkt (32 + 0) ≠ 0x2f#8 from hrelative)]
  · rw [if_neg hrelative, if_neg (show ¬ pkt (32 + 0) ≠ 0x2f#8 from hrelative)]

/-!
# Every path of a download
-/

theorem mem_upToNul_of_front {front back : List Byte} {c : Byte} (hfront : 0#8 ∉ front)
    (hc : c ≠ 0#8) : c ∈ upToNul (front ++ c :: back) := by
  have hpass : forall b, b ∈ front -> (b != 0#8) = true := by
    intro b hb
    exact bne_iff_ne.2 (fun hzero => hfront (hzero ▸ hb))
  have hlast : (c != 0#8) = true := bne_iff_ne.2 hc
  unfold upToNul
  rw [List.takeWhile_append_of_pos hpass, List.takeWhile_cons, if_pos hlast]
  exact List.mem_append_right _ List.mem_cons_self

theorem slash_fullPath_iff (call : PathCall) (hdir : 0#8 ∉ dir) :
    0x2f#8 ∈ fullPath dir call <-> HasSlash call := by
  cases call with
  | start netServerIP netOurIP bootFile =>
      unfold fullPath HasSlash
      dsimp only
      rw [startPath_eq]
      by_cases hempty : bootFile = []
      · rw [if_pos hempty]
        have hslash : 0x2f#8 ∈ ascii "/nfsroot/" := by decide
        exact iff_of_true (List.mem_append_left _ (List.mem_append_left _ hslash))
          (Or.inl hempty)
      · rw [if_neg hempty, or_iff_right hempty]
  | readlink data rlen =>
      unfold fullPath HasSlash
      dsimp only
      by_cases hrelative : data 0 ≠ 0x2f#8
      · rw [if_pos hrelative]
        refine iff_of_true ?_ (Or.inl hrelative)
        rw [List.append_assoc]
        exact mem_upToNul_of_front hdir (by decide)
      · rw [if_neg hrelative, or_iff_right hrelative]
        cases rlen with
        | zero =>
            exact iff_of_false List.not_mem_nil (fun h => h rfl)
        | succ rlen =>
            have htarget : bytesAt data 0 (rlen + 1) = 0x2f#8 :: bytesAt data 1 rlen := by
              unfold bytesAt
              rw [List.range_succ_eq_map, List.map_cons, List.map_map, not_not.1 hrelative]
              congr 1
              exact List.map_congr_left (fun i _ => by rw [Nat.add_comm 1 i]; simp)
            rw [htarget]
            have hfront : 0x2f#8 ∈ upToNul ([] ++ 0x2f#8 :: bytesAt data 1 rlen) :=
              mem_upToNul_of_front List.not_mem_nil (by decide)
            exact iff_of_true hfront (Nat.succ_ne_zero rlen)

theorem ready_step {call : PathCall} {next : PathMemory} (h : exists dir, Ready memory dir)
    (hstep : PathStep memory call next) : exists dir, Ready next dir := by
  obtain ⟨dir, hready⟩ := h
  obtain ⟨hfits, written, split, hwrite, hsplit, rfl⟩ := hstep
  obtain ⟨written', hwrite', hfull⟩ := writePath_text hready hfits
  rw [hwrite] at hwrite'
  cases hwrite'
  obtain ⟨split', hsplit', hnext, _⟩ := splitsWell_iff hfull
  rw [hsplit] at hsplit'
  cases hsplit'
  exact hnext

theorem nfs_path_split_iff (hclear : memory 0 = 0#8) {calls : List PathCall} {now : PathMemory}
    (hrun : Run PathStep memory calls now) {call : PathCall} (hfits : Fits now call) :
    exists dir written split, HoldsText now 0 dir ∧ writePath now call = some written ∧
      HoldsText written 0 (fullPath dir call) ∧ splitPath written = some split ∧
      (SplitsWell (fullPath dir call) split <-> HasSlash call) := by
  have hstart : exists dir, Ready memory dir :=
    ⟨[], ⟨List.not_mem_nil, hclear, trivial⟩, by decide⟩
  obtain ⟨dir, hready⟩ := hrun.invariant (fun m => exists dir, Ready m dir)
    (fun _ _ _ h hstep => ready_step h hstep) hstart
  obtain ⟨written, hwrite, hfull⟩ := writePath_text hready hfits
  obtain ⟨split, hsplit, _, hwell⟩ := splitsWell_iff hfull
  exact ⟨dir, written, split, hready.1, hwrite, hfull.1, hsplit,
    hwell.trans (slash_fullPath_iff call hready.1.noNul)⟩

/-- A link from the root behind a boot file in a directory. -/
theorem nfs_path_split_iff_link :
    exists now, Run PathStep (fun _ => 0#8) [.start 0#32 0#32 (ascii "/d/f")] now ∧
      exists written split,
        writePath now (.readlink (packetBuffer (ascii "/x") (fun _ => 0#8)) 2) = some written ∧
        splitPath written = some split ∧ SplitsWell (ascii "/x") split := by
  have hempty : Ready (fun _ => 0#8) [] := ⟨⟨List.not_mem_nil, rfl, trivial⟩, by decide⟩
  have hfits : Fits (fun _ => 0#8) (.start 0#32 0#32 (ascii "/d/f")) := ⟨by decide, by decide⟩
  obtain ⟨path, hpath, hready⟩ := writePath_text hempty hfits
  obtain ⟨first, hfirst, _⟩ := splitsWell_iff hready
  have hrun : Run PathStep (fun _ => 0#8) [.start 0#32 0#32 (ascii "/d/f")] first.memory :=
    .cons ⟨hfits, path, first, hpath, hfirst, rfl⟩ (.nil _)
  have hlink : Fits first.memory (.readlink (packetBuffer (ascii "/x") (fun _ => 0#8)) 2) :=
    show 2 < nfsPathSize by decide
  obtain ⟨dir, written, split, _, hwrite, _, hsplit, hwell⟩ := nfs_path_split_iff rfl hrun hlink
  exact ⟨_, hrun, written, split, hwrite, hsplit, hwell.2 (Or.inr (by decide))⟩

/-- A boot file name without a directory. -/
theorem nfs_path_split_slashless :
    exists written split,
      writePath (fun _ => 0#8) (.start 0#32 0#32 (ascii "uImage")) = some written ∧
      splitPath written = some split ∧ ¬ SplitsWell (ascii "uImage") split ∧
      split.nfsFilename = -1 ∧ PathAccess.write (-2) ∈ split.accesses := by
  have hempty : Ready (fun _ => 0#8) [] := ⟨⟨List.not_mem_nil, rfl, trivial⟩, by decide⟩
  have hfits : Fits (fun _ => 0#8) (.start 0#32 0#32 (ascii "uImage")) := ⟨by decide, by decide⟩
  obtain ⟨written, hwrite, hready⟩ := writePath_text hempty hfits
  obtain ⟨split, hsplit, _, hfilename, haccess⟩ := splitPath_slashless hready (by decide)
  refine ⟨written, split, hwrite, hsplit, fun hwell => ?_, hfilename, haccess⟩
  exact absurd (hwell.inside _ haccess).1 (by decide)

end Nfs
end Network
end Bab750
