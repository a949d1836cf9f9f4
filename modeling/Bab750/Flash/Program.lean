import Bab750.Foundation.Memory
import Bab750.Foundation.Words

/-!
# Programming words

`write_word` and `write_buff` of `board/eltec/bab7xx/flash.c`.  The chip is given by
what a byte holds once it has been programmed or erased: data polling ends when bit
seven is right, and runs into its time-out when it stays wrong.
-/

namespace Bab750
namespace Flash

open Foundation

/-!
# The chip
-/

structure Chip where
  /-- A byte that is programmed: address, content, and data. -/
  program : BitVec 32 -> Byte -> Byte -> Byte
  /-- A byte of a sector that is erased: address and content. -/
  erase : BitVec 32 -> Byte -> Byte
  /-- The dots that are printed while the sector at an address is erased. -/
  dots : BitVec 32 -> Nat

/-- The cells of a sound chip: programming clears bits, erasing sets them. -/
def norChip : Chip where
  program := fun _ content data => content &&& data
  erase := fun _ _ => 0xff#8
  dots := fun _ => 0

/-!
# Return codes
-/

def errOk : Nat := 0
def errTimout : Nat := 1
def errNotErased : Nat := 2
def errProtected : Nat := 4
def errInval : Nat := 8

/-!
# One word
-/

def pollEnds (content data : Byte) : Bool := content &&& 0x80#8 == data &&& 0x80#8

/-- The loop of `write_word`. -/
def programBytes (chip : Chip) : Memory -> BitVec 32 -> List Byte -> Nat × Memory
  | memory, _, [] => (errOk, memory)
  | memory, dest, b :: bytes =>
      let content := chip.program dest (memory dest) b
      if pollEnds content b then
        programBytes chip (Function.update memory dest content) (dest + 1#32) bytes
      else (errTimout, Function.update memory dest content)

/-- `write_word`; the check compares the first byte with the last one of the data. -/
def writeWord (chip : Chip) (memory : Memory) (dest data : BitVec 32) : Nat × Memory :=
  if memory dest &&& data.setWidth 8 ≠ data.setWidth 8 then (errNotErased, memory)
  else programBytes chip memory dest (wordBytes data)

/-!
# A buffer
-/

/-- The word at `wp` with `n` bytes of the source in it, from its byte `l` on. -/
def mixedWord (memory : Memory) (wp src : BitVec 32) (l n : Nat) : BitVec 32 :=
  bytesWord ((List.range 4).map (fun i =>
    if l <= i ∧ i < l + n then memory (src + BitVec.ofNat 32 (i - l))
    else memory (wp + BitVec.ofNat 32 i)))

/-- `write_buff` from the word aligned part on. -/
def writeAligned (chip : Chip) : Memory -> BitVec 32 -> BitVec 32 -> Nat -> Nat × Memory
  | memory, src, wp, cnt + 4 =>
      let result := writeWord chip memory wp (mixedWord memory wp src 0 4)
      if result.1 = errOk then writeAligned chip result.2 (src + 4#32) (wp + 4#32) cnt
      else result
  | memory, src, wp, cnt =>
      if cnt = 0 then (errOk, memory)
      else writeWord chip memory wp (mixedWord memory wp src 0 cnt)

def writeBuff (chip : Chip) (memory : Memory) (src addr : BitVec 32) (cnt : Nat) :
    Nat × Memory :=
  let wp := addr &&& ~~~3#32
  let l := (addr - wp).toNat
  if l ≠ 0 then
    let n := min (4 - l) cnt
    let result := writeWord chip memory wp (mixedWord memory wp src l n)
    if result.1 = errOk then
      writeAligned chip result.2 (src + BitVec.ofNat 32 n) (wp + 4#32) (cnt - n)
    else result
  else writeAligned chip memory src wp cnt

/-!
# What a word does
-/

/-- The content that the word at `wp` meets with decides its return code. -/
def wordVerdict (chip : Chip) (memory target : Memory) (wp : BitVec 32) : Nat :=
  if memory wp &&& target (wp + 3#32) ≠ target (wp + 3#32) then errNotErased
  else if (List.range 4).all (fun i =>
      let a := wp + BitVec.ofNat 32 i
      pollEnds (chip.program a (memory a) (target a)) (target a)) then errOk
  else errTimout

/-- The first return code that is no success among some words. -/
def wordsVerdict (chip : Chip) (memory target : Memory) : BitVec 32 -> Nat -> Nat
  | _, 0 => errOk
  | wp, n + 1 =>
      let verdict := wordVerdict chip memory target wp
      if verdict = errOk then wordsVerdict chip memory target (wp + 4#32) n
      else verdict

/-- The number of words in front of the first return code that is no success. -/
def okWords (chip : Chip) (memory target : Memory) : BitVec 32 -> Nat -> Nat
  | _, 0 => 0
  | wp, n + 1 =>
      if wordVerdict chip memory target wp = errOk then
        okWords chip memory target (wp + 4#32) n + 1
      else 0

/-- The memory with its first `k` bytes from `start` on programmed. -/
def programmed (chip : Chip) (memory target : Memory) (start : BitVec 32) (k : Nat) :
    Memory :=
  fun a => if (a - start).toNat < k then chip.program a (memory a) (target a)
    else memory a

theorem offset_toNat (start : BitVec 32) {k : Nat} (hk : k < 2 ^ 32) :
    (start + BitVec.ofNat 32 k - start).toNat = k := by
  rw [BitVec.add_comm, BitVec.add_sub_cancel, BitVec.toNat_ofNat]
  exact Nat.mod_eq_of_lt hk

def overlay (chip : Chip) (memory : Memory) (dest : BitVec 32) (bytes : List Byte) :
    Memory :=
  fun a =>
    match bytes[(a - dest).toNat]? with
    | some b => chip.program a (memory a) b
    | none => memory a

theorem sub_succ_toNat {a dest : BitVec 32} (h : a ≠ dest) :
    (a - dest).toNat = (a - (dest + 1#32)).toNat + 1 := by
  have hne : (a - dest).toNat ≠ 0 := by
    intro hzero
    apply h
    have hsub : a - dest = 0#32 := BitVec.eq_of_toNat_eq hzero
    rw [← BitVec.sub_add_cancel a dest, hsub, BitVec.zero_add]
  have hstep := toNat_sub_offset a dest 1 (by decide)
  rw [if_pos (by omega)] at hstep
  have hone : (BitVec.ofNat 32 1 : BitVec 32) = 1#32 := rfl
  rw [hone] at hstep
  omega

theorem overlay_cons (chip : Chip) (memory : Memory) (dest : BitVec 32) (b : Byte)
    (bytes : List Byte) (hsize : bytes.length < 2 ^ 32 - 1) :
    overlay chip (Function.update memory dest (chip.program dest (memory dest) b))
        (dest + 1#32) bytes =
      overlay chip memory dest (b :: bytes) := by
  funext a
  unfold overlay
  by_cases ha : a = dest
  · subst ha
    have hlast : (a - (a + 1#32)).toNat = 2 ^ 32 - 1 := by
      have hstep := toNat_sub_offset a a 1 (by decide)
      rw [BitVec.sub_self] at hstep
      exact hstep
    rw [hlast, List.getElem?_eq_none (by omega), BitVec.sub_self]
    exact Function.update_self _ _ _
  · rw [sub_succ_toNat ha, List.getElem?_cons_succ, Function.update_of_ne ha]

def pollsEnd (chip : Chip) (memory : Memory) (dest : BitVec 32) (bytes : List Byte) :
    Bool :=
  (List.range bytes.length).all (fun i =>
    let a := dest + BitVec.ofNat 32 i
    pollEnds (chip.program a (memory a) (bytes.getD i 0#8)) (bytes.getD i 0#8))

theorem pollsEnd_cons (chip : Chip) (memory : Memory) (dest : BitVec 32) (b : Byte)
    (bytes : List Byte) (hsize : bytes.length < 2 ^ 32 - 1) :
    pollsEnd chip memory dest (b :: bytes) =
      (pollEnds (chip.program dest (memory dest) b) b &&
        pollsEnd chip (Function.update memory dest (chip.program dest (memory dest) b))
          (dest + 1#32) bytes) := by
  unfold pollsEnd
  rw [List.length_cons, List.range_succ_eq_map, List.all_cons, List.all_map]
  congr 1
  · simp
  · rw [Bool.eq_iff_iff, List.all_eq_true, List.all_eq_true]
    refine forall_congr' (fun i => ?_)
    refine imp_congr_right (fun hi => ?_)
    rw [List.mem_range] at hi
    have haddr : dest + BitVec.ofNat 32 (i + 1) = dest + 1#32 + BitVec.ofNat 32 i := by
      rw [BitVec.ofNat_add, BitVec.add_assoc, BitVec.add_comm (BitVec.ofNat 32 i)]
    have hne : dest + 1#32 + BitVec.ofNat 32 i ≠ dest := by
      intro h
      have hk := offset_toNat dest (show i + 1 < 2 ^ 32 by omega)
      rw [haddr, h, BitVec.sub_self] at hk
      exact absurd hk (by simp)
    simp only [Function.comp, haddr, List.getD_cons_succ, Function.update_of_ne hne]

theorem programBytes_eq (chip : Chip) (memory : Memory) (dest : BitVec 32)
    (bytes : List Byte) (hsize : bytes.length < 2 ^ 32) :
    (programBytes chip memory dest bytes).1 =
        (if pollsEnd chip memory dest bytes then errOk else errTimout) ∧
      (pollsEnd chip memory dest bytes = true ->
        (programBytes chip memory dest bytes).2 = overlay chip memory dest bytes) := by
  induction bytes generalizing memory dest with
  | nil =>
      exact ⟨rfl, fun _ => rfl⟩
  | cons b bytes ih =>
      rw [List.length_cons] at hsize
      rw [pollsEnd_cons chip memory dest b bytes (by omega)]
      unfold programBytes
      dsimp only
      split
      case isTrue hpoll =>
          rw [hpoll, Bool.true_and]
          rcases ih (Function.update memory dest (chip.program dest (memory dest) b))
            (dest + 1#32) (by omega) with ⟨hcode, hmemory⟩
          refine ⟨hcode, ?_⟩
          intro hpolls
          rw [hmemory hpolls, overlay_cons chip memory dest b bytes (by omega)]
      case isFalse hpoll =>
          rw [Bool.not_eq_true] at hpoll
          rw [hpoll, Bool.false_and]
          exact ⟨rfl, fun h => absurd h (by decide)⟩

/-- The four bytes of the word at `wp`. -/
def targetBytes (target : Memory) (wp : BitVec 32) : List Byte :=
  (List.range 4).map (fun i => target (wp + BitVec.ofNat 32 i))

theorem targetBytes_getD (target : Memory) (wp : BitVec 32) {i : Nat} (hi : i < 4) :
    (targetBytes target wp).getD i 0#8 = target (wp + BitVec.ofNat 32 i) := by
  unfold targetBytes
  rw [List.getD_eq_getElem?_getD, List.getElem?_map, List.getElem?_range hi]
  rfl

theorem setWidth_targetBytes (target : Memory) (wp : BitVec 32) :
    (bytesWord (targetBytes target wp)).setWidth 8 = target (wp + 3#32) := by
  have hbytes := wordBytes_bytesWord (show (targetBytes target wp).length = 4 from rfl)
  have hlast := congrArg (fun bytes => bytes.getD 3 0#8) hbytes
  exact hlast

theorem pollsEnd_targetBytes (chip : Chip) (memory target : Memory) (wp : BitVec 32) :
    pollsEnd chip memory wp (targetBytes target wp) =
      (List.range 4).all (fun i =>
        let a := wp + BitVec.ofNat 32 i
        pollEnds (chip.program a (memory a) (target a)) (target a)) := by
  unfold pollsEnd
  rw [show (targetBytes target wp).length = 4 from rfl, Bool.eq_iff_iff, List.all_eq_true,
    List.all_eq_true]
  refine forall_congr' (fun i => ?_)
  refine imp_congr_right (fun hi => ?_)
  rw [List.mem_range] at hi
  simp only [targetBytes_getD target wp hi]

theorem writeWord_target (chip : Chip) (memory target : Memory) (wp : BitVec 32) :
    (writeWord chip memory wp (bytesWord (targetBytes target wp))).1 =
        wordVerdict chip memory target wp ∧
      (wordVerdict chip memory target wp = errOk ->
        (writeWord chip memory wp (bytesWord (targetBytes target wp))).2 =
          overlay chip memory wp (targetBytes target wp)) := by
  have hsize : (targetBytes target wp).length = 4 := rfl
  rcases programBytes_eq chip memory wp (targetBytes target wp) (by rw [hsize]; decide)
    with ⟨hcode, hmemory⟩
  unfold writeWord wordVerdict
  rw [setWidth_targetBytes, wordBytes_bytesWord hsize]
  rw [pollsEnd_targetBytes] at hcode hmemory
  split
  · exact ⟨rfl, fun h => absurd h (by decide)⟩
  · refine ⟨hcode, ?_⟩
    intro hok
    apply hmemory
    split at hok
    case isTrue hpolls =>
        exact hpolls
    case isFalse hpolls =>
        exact absurd hok (by decide)

theorem overlay_programmed (chip : Chip) (memory target : Memory) (start : BitVec 32)
    (k : Nat) (hk : k + 4 <= 2 ^ 32) :
    overlay chip (programmed chip memory target start k) (start + BitVec.ofNat 32 k)
        (targetBytes target (start + BitVec.ofNat 32 k)) =
      programmed chip memory target start (k + 4) := by
  funext a
  have hoff := toNat_sub_offset a start k (by omega)
  have hlt := (a - start).isLt
  unfold overlay programmed
  by_cases hin : (a - (start + BitVec.ofNat 32 k)).toNat < 4
  · have hget : (targetBytes target (start + BitVec.ofNat 32 k))[
        (a - (start + BitVec.ofNat 32 k)).toNat]? = some (target a) := by
      unfold targetBytes
      rw [List.getElem?_map, List.getElem?_range hin, Option.map_some,
        BitVec.ofNat_toNat, BitVec.setWidth_eq, BitVec.add_comm, BitVec.sub_add_cancel]
    rw [hget]
    split at hoff
    · rw [if_neg (by omega), if_pos (by omega)]
    · omega
  · rw [List.getElem?_eq_none (by
      rw [show (targetBytes target (start + BitVec.ofNat 32 k)).length = 4 from rfl]
      omega)]
    dsimp only
    split at hoff
    · by_cases hdone : (a - start).toNat < k
      · omega
      · rw [if_neg hdone, if_neg (by omega)]
    · rw [if_pos (by omega), if_pos (by omega)]

theorem programmed_behind (chip : Chip) (memory target : Memory) (start a : BitVec 32)
    (k : Nat) (h : k <= (a - start).toNat) :
    programmed chip memory target start k a = memory a :=
  if_neg (by omega)

theorem wordVerdict_programmed (chip : Chip) (memory target : Memory) (start : BitVec 32)
    (k : Nat) (hk : k + 4 <= 2 ^ 32) :
    wordVerdict chip (programmed chip memory target start k) target
        (start + BitVec.ofNat 32 k) =
      wordVerdict chip memory target (start + BitVec.ofNat 32 k) := by
  have hsame : forall i, i < 4 ->
      programmed chip memory target start k
          (start + BitVec.ofNat 32 k + BitVec.ofNat 32 i) =
        memory (start + BitVec.ofNat 32 k + BitVec.ofNat 32 i) := by
    intro i hi
    apply programmed_behind
    rw [BitVec.add_assoc, ← BitVec.ofNat_add, offset_toNat start (by omega)]
    omega
  have hfirst := hsame 0 (by decide)
  rw [BitVec.add_zero] at hfirst
  have hpolls : (List.range 4).all (fun i =>
      let a := start + BitVec.ofNat 32 k + BitVec.ofNat 32 i
      pollEnds (chip.program a (programmed chip memory target start k a) (target a))
        (target a)) =
      (List.range 4).all (fun i =>
        let a := start + BitVec.ofNat 32 k + BitVec.ofNat 32 i
        pollEnds (chip.program a (memory a) (target a)) (target a)) := by
    rw [Bool.eq_iff_iff, List.all_eq_true, List.all_eq_true]
    refine forall_congr' (fun i => ?_)
    refine imp_congr_right (fun hi => ?_)
    rw [List.mem_range] at hi
    simp only [hsame i hi]
  unfold wordVerdict
  rw [hfirst, hpolls]

theorem writeWord_programmed (chip : Chip) (memory target : Memory) (start : BitVec 32)
    (k : Nat) (hk : k + 4 <= 2 ^ 32) {data : BitVec 32}
    (hdata : data = bytesWord (targetBytes target (start + BitVec.ofNat 32 k))) :
    (writeWord chip (programmed chip memory target start k) (start + BitVec.ofNat 32 k)
        data).1 =
        wordVerdict chip memory target (start + BitVec.ofNat 32 k) ∧
      (wordVerdict chip memory target (start + BitVec.ofNat 32 k) = errOk ->
        (writeWord chip (programmed chip memory target start k)
          (start + BitVec.ofNat 32 k) data).2 =
          programmed chip memory target start (k + 4)) := by
  subst hdata
  have hword := writeWord_target chip (programmed chip memory target start k) target
    (start + BitVec.ofNat 32 k)
  rw [wordVerdict_programmed chip memory target start k hk,
    overlay_programmed chip memory target start k hk] at hword
  exact hword

theorem writeWord_refused (chip : Chip) (memory target : Memory) (start : BitVec 32)
    (k : Nat) (hk : k + 4 <= 2 ^ 32) {data : BitVec 32}
    (hdata : data = bytesWord (targetBytes target (start + BitVec.ofNat 32 k)))
    (hrefused : wordVerdict chip memory target (start + BitVec.ofNat 32 k) =
      errNotErased) :
    (writeWord chip (programmed chip memory target start k) (start + BitVec.ofNat 32 k)
      data).2 = programmed chip memory target start k := by
  subst hdata
  rw [← wordVerdict_programmed chip memory target start k hk] at hrefused
  unfold wordVerdict at hrefused
  unfold writeWord
  rw [setWidth_targetBytes]
  split
  · rfl
  case isFalse hcheck =>
      rw [if_neg hcheck] at hrefused
      split at hrefused
      · exact absurd hrefused (by decide)
      · exact absurd hrefused (by decide)

/-!
# What a buffer does
-/

theorem add_ofNat_add (start : BitVec 32) (k i : Nat) :
    start + BitVec.ofNat 32 k + BitVec.ofNat 32 i = start + BitVec.ofNat 32 (k + i) := by
  rw [BitVec.add_assoc, ← BitVec.ofNat_add]

/-- The source lies outside of the words, and the target agrees with it. -/
structure SourceAt (memory target : Memory) (start : BitVec 32) (total : Nat)
    (src : BitVec 32) (k l cnt : Nat) : Prop where
  outside : forall i, i < cnt -> total <= (src + BitVec.ofNat 32 i - start).toNat
  inside : forall i, i < cnt ->
    target (start + BitVec.ofNat 32 (k + l + i)) = memory (src + BitVec.ofNat 32 i)
  around : forall i, i < l ∨ l + cnt <= i -> k + i < total ->
    target (start + BitVec.ofNat 32 (k + i)) = memory (start + BitVec.ofNat 32 (k + i))

section Words

variable {chip : Chip} {memory target : Memory} {start src : BitVec 32}
  {total k l cnt n : Nat}

theorem mixedWord_target (h : SourceAt memory target start total src k l cnt)
    (hn : n = min (4 - l) cnt) (hl : l < 4) (hk : k + 4 <= total)
    (htotal : total <= 2 ^ 32) :
    mixedWord (programmed chip memory target start k) (start + BitVec.ofNat 32 k) src l n =
      bytesWord (targetBytes target (start + BitVec.ofNat 32 k)) := by
  unfold mixedWord targetBytes
  congr 1
  apply List.map_congr_left
  intro i hi
  rw [List.mem_range] at hi
  rw [add_ofNat_add]
  split
  case isTrue hin =>
      rw [programmed_behind]
      · have hsame := h.inside (i - l) (by omega)
        rw [show k + l + (i - l) = k + i by omega] at hsame
        exact hsame.symm
      · have hout := h.outside (i - l) (by omega)
        omega
  case isFalse hout =>
      rw [programmed_behind]
      · exact (h.around i (by omega) (by omega)).symm
      · rw [offset_toNat start (by omega)]
        omega

theorem SourceAt.next (h : SourceAt memory target start total src k l cnt)
    (hn : n = min (4 - l) cnt) (hfull : l + n = 4) :
    SourceAt memory target start total (src + BitVec.ofNat 32 n) (k + 4) 0 (cnt - n) := by
  constructor
  · intro i hi
    rw [add_ofNat_add]
    exact h.outside (n + i) (by omega)
  · intro i hi
    have hsame := h.inside (n + i) (by omega)
    rw [add_ofNat_add, show k + 4 + 0 + i = k + l + (n + i) by omega]
    exact hsame
  · intro i hi htotal
    have hsame := h.around (4 + i) (by omega) (by omega)
    rw [show k + (4 + i) = k + 4 + i by omega] at hsame
    exact hsame

theorem wordVerdict_codes (chip : Chip) (memory target : Memory) (wp : BitVec 32) :
    wordVerdict chip memory target wp = errOk ∨
      wordVerdict chip memory target wp = errTimout ∨
      wordVerdict chip memory target wp = errNotErased := by
  unfold wordVerdict
  split
  · exact Or.inr (Or.inr rfl)
  · split
    · exact Or.inl rfl
    · exact Or.inr (Or.inl rfl)

theorem wordsVerdict_one (chip : Chip) (memory target : Memory) (wp : BitVec 32) :
    wordsVerdict chip memory target wp 1 = wordVerdict chip memory target wp := by
  unfold wordsVerdict
  dsimp only
  split
  case isTrue hok =>
      exact hok.symm
  case isFalse hbad =>
      rfl

theorem okWords_one (chip : Chip) (memory target : Memory) (wp : BitVec 32) :
    okWords chip memory target wp 1 =
      if wordVerdict chip memory target wp = errOk then 1 else 0 :=
  rfl

theorem writeWord_mixed (h : SourceAt memory target start total src k l cnt)
    (hn : n = min (4 - l) cnt) (hl : l < 4) (hk : k + 4 <= total)
    (htotal : total <= 2 ^ 32) :
    (writeWord chip (programmed chip memory target start k) (start + BitVec.ofNat 32 k)
        (mixedWord (programmed chip memory target start k) (start + BitVec.ofNat 32 k)
          src l n)).1 =
        wordVerdict chip memory target (start + BitVec.ofNat 32 k) ∧
      (wordVerdict chip memory target (start + BitVec.ofNat 32 k) ≠ errTimout ->
        (writeWord chip (programmed chip memory target start k)
          (start + BitVec.ofNat 32 k)
          (mixedWord (programmed chip memory target start k) (start + BitVec.ofNat 32 k)
            src l n)).2 =
          programmed chip memory target start
            (k + 4 * okWords chip memory target (start + BitVec.ofNat 32 k) 1)) := by
  have hdata := @mixedWord_target chip _ _ _ _ _ _ _ _ _ h hn hl hk htotal
  rcases writeWord_programmed chip memory target start k (by omega) hdata with
    ⟨hcode, hmemory⟩
  refine ⟨hcode, ?_⟩
  intro hpolls
  rcases wordVerdict_codes chip memory target (start + BitVec.ofNat 32 k) with
    hok | hbad | hrefused
  · rw [hmemory hok, okWords_one, if_pos hok]
  · exact absurd hbad hpolls
  · rw [writeWord_refused chip memory target start k (by omega) hdata hrefused]
    rw [okWords_one, if_neg (by rw [hrefused]; decide)]
    rfl

/-- The aligned part of a buffer: its return code, and the words it has programmed. -/
theorem writeAligned_words (words r : Nat) (hr : r < 4)
    (h : SourceAt memory target start total src k 0 (4 * words + r))
    (hsize : k + 4 * (words + (r + 3) / 4) <= total) (htotal : total <= 2 ^ 32) :
    (writeAligned chip (programmed chip memory target start k) src
        (start + BitVec.ofNat 32 k) (4 * words + r)).1 =
        wordsVerdict chip memory target (start + BitVec.ofNat 32 k)
          (words + (r + 3) / 4) ∧
      (wordsVerdict chip memory target (start + BitVec.ofNat 32 k)
          (words + (r + 3) / 4) ≠ errTimout ->
        (writeAligned chip (programmed chip memory target start k) src
          (start + BitVec.ofNat 32 k) (4 * words + r)).2 =
          programmed chip memory target start (k + 4 * okWords chip memory target
            (start + BitVec.ofNat 32 k) (words + (r + 3) / 4))) := by
  induction words generalizing k src with
  | zero =>
      have hstep : writeAligned chip (programmed chip memory target start k) src
          (start + BitVec.ofNat 32 k) (4 * 0 + r) =
          if r = 0 then (errOk, programmed chip memory target start k)
          else writeWord chip (programmed chip memory target start k)
            (start + BitVec.ofNat 32 k) (mixedWord (programmed chip memory target start k)
              (start + BitVec.ofNat 32 k) src 0 r) := by
        rw [Nat.mul_zero, Nat.zero_add]
        match r, hr with
        | 0, _ => rfl
        | 1, _ => rfl
        | 2, _ => rfl
        | 3, _ => rfl
      rw [hstep]
      by_cases hzero : r = 0
      · subst hzero
        exact ⟨rfl, fun _ => rfl⟩
      · have hone : (r + 3) / 4 = 1 := by omega
        rw [hone] at hsize
        rw [if_neg hzero, hone, Nat.zero_add, wordsVerdict_one]
        exact writeWord_mixed h (show r = min (4 - 0) (4 * 0 + r) by omega) (by decide)
          (by omega) htotal
  | succ words ih =>
      have hstep : writeAligned chip (programmed chip memory target start k) src
          (start + BitVec.ofNat 32 k) (4 * (words + 1) + r) =
          (let result := writeWord chip (programmed chip memory target start k)
            (start + BitVec.ofNat 32 k) (mixedWord (programmed chip memory target start k)
              (start + BitVec.ofNat 32 k) src 0 4)
          if result.1 = errOk then writeAligned chip result.2 (src + 4#32)
            (start + BitVec.ofNat 32 k + 4#32) (4 * words + r)
          else result) := by
        rw [show 4 * (words + 1) + r = 4 * words + r + 4 by omega]
        rfl
      rw [hstep]
      rcases @writeWord_mixed chip _ _ _ _ _ _ _ _ 4 h (by omega) (by decide) (by omega)
        htotal with ⟨hcode, hmemory⟩
      dsimp only
      rw [hcode, show words + 1 + (r + 3) / 4 = words + (r + 3) / 4 + 1 by omega]
      rw [okWords_one] at hmemory
      unfold wordsVerdict okWords
      dsimp only
      by_cases hok : wordVerdict chip memory target (start + BitVec.ofNat 32 k) = errOk
      · rw [if_pos hok] at hmemory ⊢
        rw [if_pos hok, if_pos hok, hmemory (by rw [hok]; decide)]
        have hnext := h.next (show 4 = min (4 - 0) (4 * (words + 1) + r) by omega) rfl
        rw [show 4 * (words + 1) + r - 4 = 4 * words + r by omega] at hnext
        have hrest := ih hnext (by omega)
        rw [show start + BitVec.ofNat 32 k + 4#32 = start + BitVec.ofNat 32 (k + 4) from
          add_ofNat_add start k 4]
        rw [Nat.mul_one, Nat.mul_succ, ← Nat.add_assoc, Nat.add_right_comm k _ 4]
        exact hrest
      · rw [if_neg hok] at hmemory ⊢
        rw [if_neg hok, if_neg hok]
        exact ⟨hcode, hmemory⟩

end Words

/-- What the words of a buffer are to hold: the source, and around it what is there. -/
def bufferTarget (memory : Memory) (src addr : BitVec 32) (cnt : Nat) : Memory :=
  fun a => if (a - addr).toNat < cnt then memory (src + (a - addr)) else memory a

def wordBase (addr : BitVec 32) : BitVec 32 := addr &&& ~~~3#32

def wordOffset (addr : BitVec 32) : Nat := (addr - wordBase addr).toNat

def wordCount (addr : BitVec 32) (cnt : Nat) : Nat := (wordOffset addr + cnt + 3) / 4

theorem wordOffset_eq (addr : BitVec 32) : wordOffset addr = addr.toNat % 4 := by
  unfold wordOffset wordBase
  have happart : (addr &&& ~~~3#32) &&& (addr &&& 3#32) = 0#32 := by
    have hmask : ~~~3#32 &&& 3#32 = 0#32 := by decide
    calc (addr &&& ~~~3#32) &&& (addr &&& 3#32)
        = (addr &&& addr) &&& (~~~3#32 &&& 3#32) := by ac_rfl
      _ = 0#32 := by rw [hmask, BitVec.and_zero]
  have hsplit : (addr &&& ~~~3#32) + (addr &&& 3#32) = addr := by
    rw [BitVec.add_eq_or_of_and_eq_zero _ _ happart, ← BitVec.and_or_distrib_left]
    exact BitVec.and_allOnes
  have hlow : addr - (addr &&& ~~~3#32) = addr &&& 3#32 := by
    rw [BitVec.sub_eq_iff_eq_add, BitVec.add_comm]
    exact hsplit.symm
  rw [hlow, BitVec.toNat_and]
  exact Nat.and_two_pow_sub_one_eq_mod addr.toNat 2

theorem wordOffset_lt (addr : BitVec 32) : wordOffset addr < 4 := by
  rw [wordOffset_eq]
  exact Nat.mod_lt _ (by decide)

theorem wordBase_add (addr : BitVec 32) :
    wordBase addr + BitVec.ofNat 32 (wordOffset addr) = addr := by
  unfold wordOffset
  rw [BitVec.ofNat_toNat, BitVec.setWidth_eq, BitVec.add_comm, BitVec.sub_add_cancel]

/-- The source lies outside of the words that the buffer touches. -/
def SourceApart (src addr : BitVec 32) (cnt : Nat) : Prop :=
  forall i, i < cnt ->
    4 * wordCount addr cnt <= (src + BitVec.ofNat 32 i - wordBase addr).toNat

theorem bufferTarget_sourceAt (memory : Memory) (src addr : BitVec 32) (cnt : Nat)
    (hapart : SourceApart src addr cnt) (hsize : cnt + 8 <= 2 ^ 32) :
    SourceAt memory (bufferTarget memory src addr cnt) (wordBase addr)
      (4 * wordCount addr cnt) src 0 (wordOffset addr) cnt := by
  have hl := wordOffset_lt addr
  have hindex : forall i, i < 2 ^ 32 -> wordOffset addr <= i ->
      (wordBase addr + BitVec.ofNat 32 i - addr).toNat = i - wordOffset addr := by
    intro i hi hle
    have hoff := toNat_sub_offset (wordBase addr + BitVec.ofNat 32 i) (wordBase addr)
      (wordOffset addr) (by omega)
    rw [wordBase_add, offset_toNat _ hi, if_pos hle] at hoff
    exact hoff
  unfold wordCount
  refine ⟨hapart, ?_, ?_⟩
  · intro i hi
    rw [Nat.zero_add]
    have hat : wordBase addr + BitVec.ofNat 32 (wordOffset addr + i) - addr =
        BitVec.ofNat 32 i := by
      apply BitVec.eq_of_toNat_eq
      rw [hindex _ (by omega) (by omega), BitVec.toNat_ofNat, Nat.mod_eq_of_lt (by omega)]
      omega
    unfold bufferTarget
    rw [hat, if_pos]
    rw [BitVec.toNat_ofNat, Nat.mod_eq_of_lt (by omega)]
    exact hi
  · intro i hi htotal
    rw [Nat.zero_add] at htotal ⊢
    unfold bufferTarget
    rw [if_neg]
    rcases hi with hfront | hback
    · have hoff := toNat_sub_offset (wordBase addr + BitVec.ofNat 32 i) (wordBase addr)
        (wordOffset addr) (by omega)
      rw [wordBase_add, offset_toNat _ (by omega), if_neg (by omega)] at hoff
      omega
    · rw [hindex _ (by omega) (by omega)]
      omega

theorem programmed_zero (chip : Chip) (memory target : Memory) (start : BitVec 32) :
    programmed chip memory target start 0 = memory := by
  funext a
  exact if_neg (Nat.not_lt_zero _)

theorem writeBuff_eq (chip : Chip) (memory : Memory) (src addr : BitVec 32) (cnt : Nat) :
    writeBuff chip memory src addr cnt =
      if wordOffset addr ≠ 0 then
        (let result := writeWord chip memory (wordBase addr) (mixedWord memory
          (wordBase addr) src (wordOffset addr) (min (4 - wordOffset addr) cnt))
        if result.1 = errOk then writeAligned chip result.2
          (src + BitVec.ofNat 32 (min (4 - wordOffset addr) cnt)) (wordBase addr + 4#32)
          (cnt - min (4 - wordOffset addr) cnt)
        else result)
      else writeAligned chip memory src (wordBase addr) cnt :=
  rfl

theorem writeBuff_words (chip : Chip) (memory : Memory) (src addr : BitVec 32)
    (cnt : Nat) (hapart : SourceApart src addr cnt) (hsize : cnt + 8 <= 2 ^ 32) :
    (writeBuff chip memory src addr cnt).1 =
        wordsVerdict chip memory (bufferTarget memory src addr cnt) (wordBase addr)
          (wordCount addr cnt) ∧
      ((writeBuff chip memory src addr cnt).1 ≠ errTimout ->
        (writeBuff chip memory src addr cnt).2 =
          programmed chip memory (bufferTarget memory src addr cnt) (wordBase addr)
            (4 * okWords chip memory (bufferTarget memory src addr cnt) (wordBase addr)
              (wordCount addr cnt))) := by
  have hl := wordOffset_lt addr
  have hsource := bufferTarget_sourceAt memory src addr cnt hapart hsize
  generalize htarget : bufferTarget memory src addr cnt = target at hsource ⊢
  have htotal : 4 * wordCount addr cnt <= 2 ^ 32 := by
    unfold wordCount
    omega
  have hcount : wordCount addr cnt = (wordOffset addr + cnt + 3) / 4 := rfl
  have hzero := programmed_zero chip memory target (wordBase addr)
  have hbase : wordBase addr + BitVec.ofNat 32 0 = wordBase addr := BitVec.add_zero _
  have hrest : forall (k count : Nat) (here : BitVec 32),
      SourceAt memory target (wordBase addr) (4 * wordCount addr cnt) here k 0 count ->
      k + 4 * ((count + 3) / 4) = 4 * wordCount addr cnt ->
      (writeAligned chip (programmed chip memory target (wordBase addr) k) here
          (wordBase addr + BitVec.ofNat 32 k) count).1 =
          wordsVerdict chip memory target (wordBase addr + BitVec.ofNat 32 k)
            ((count + 3) / 4) ∧
        ((writeAligned chip (programmed chip memory target (wordBase addr) k) here
          (wordBase addr + BitVec.ofNat 32 k) count).1 ≠ errTimout ->
          (writeAligned chip (programmed chip memory target (wordBase addr) k) here
            (wordBase addr + BitVec.ofNat 32 k) count).2 =
            programmed chip memory target (wordBase addr) (k + 4 * okWords chip memory
              target (wordBase addr + BitVec.ofNat 32 k) ((count + 3) / 4))) := by
    intro k count here hat htotal'
    have hsplit : 4 * (count / 4) + count % 4 = count := Nat.div_add_mod count 4
    have hwords : count / 4 + (count % 4 + 3) / 4 = (count + 3) / 4 := by omega
    rw [← hsplit] at hat
    have haligned := @writeAligned_words chip memory target (wordBase addr) here
      (4 * wordCount addr cnt) k (count / 4) (count % 4) (Nat.mod_lt _ (by decide)) hat
      (by rw [hwords]; omega) htotal
    rw [hsplit, hwords] at haligned
    refine ⟨haligned.left, ?_⟩
    intro hpolls
    rw [haligned.left] at hpolls
    exact haligned.right hpolls
  rw [writeBuff_eq]
  by_cases haligned : wordOffset addr = 0
  · rw [if_neg (by omega)]
    rw [haligned] at hsource
    have hall := hrest 0 cnt src hsource (by rw [hcount, haligned]; omega)
    rw [hzero, hbase, Nat.zero_add] at hall
    rw [hcount, haligned, Nat.zero_add]
    exact hall
  · rw [if_pos haligned]
    have hone : exists words, wordCount addr cnt = words + 1 :=
      ⟨(wordOffset addr + cnt + 3) / 4 - 1, by rw [hcount]; omega⟩
    rcases hone with ⟨words, hwords⟩
    have hword := @writeWord_mixed chip _ _ _ _ _ _ _ _ _ hsource rfl hl (by omega) htotal
    rw [hzero, hbase, Nat.zero_add] at hword
    rcases hword with ⟨hcode, hmemory⟩
    dsimp only
    rw [hcode]
    rw [hwords] at htotal hrest ⊢
    rw [okWords_one] at hmemory
    unfold wordsVerdict okWords
    dsimp only
    by_cases hok : wordVerdict chip memory target (wordBase addr) = errOk
    · rw [if_pos hok] at hmemory ⊢
      rw [if_pos hok, if_pos hok, hmemory (by rw [hok]; decide)]
      by_cases hfull : wordOffset addr + min (4 - wordOffset addr) cnt = 4
      · have hnext := hsource.next rfl hfull
        rw [hwords] at hnext
        have hmore := hrest 4 _ _ hnext (by omega)
        rw [show (cnt - min (4 - wordOffset addr) cnt + 3) / 4 = words by omega] at hmore
        rw [Nat.mul_one, Nat.mul_succ, Nat.add_comm (4 * _)]
        exact hmore
      · -- the buffer ends inside its first word
        have hnone : cnt - min (4 - wordOffset addr) cnt = 0 := by omega
        have hlast : words = 0 := by omega
        rw [hnone, hlast]
        exact ⟨rfl, fun _ => rfl⟩
    · rw [if_neg hok] at hmemory ⊢
      rw [if_neg hok, if_neg hok]
      refine ⟨hcode, ?_⟩
      intro hpolls
      rw [hcode] at hpolls
      exact hmemory hpolls

theorem okWords_all {chip : Chip} {memory target : Memory} {wp : BitVec 32} {n : Nat}
    (h : wordsVerdict chip memory target wp n = errOk) :
    okWords chip memory target wp n = n := by
  induction n generalizing wp with
  | zero =>
      rfl
  | succ n ih =>
      unfold wordsVerdict at h
      unfold okWords
      dsimp only at h
      split at h
      case isTrue hok =>
          rw [if_pos hok, ih h]
      case isFalse hbad =>
          exact absurd h hbad

theorem writeBuff_programmed (chip : Chip) (memory : Memory) (src addr : BitVec 32)
    (cnt : Nat) (hapart : SourceApart src addr cnt) (hsize : cnt + 8 <= 2 ^ 32) :
    (writeBuff chip memory src addr cnt).1 =
        wordsVerdict chip memory (bufferTarget memory src addr cnt) (wordBase addr)
          (wordCount addr cnt) ∧
      ((writeBuff chip memory src addr cnt).1 = errOk ->
        (writeBuff chip memory src addr cnt).2 =
          programmed chip memory (bufferTarget memory src addr cnt) (wordBase addr)
            (4 * wordCount addr cnt)) := by
  rcases writeBuff_words chip memory src addr cnt hapart hsize with ⟨hcode, hmemory⟩
  refine ⟨hcode, ?_⟩
  intro hok
  rw [hmemory (by rw [hok]; decide)]
  rw [hcode] at hok
  rw [okWords_all hok]

end Flash
end Bab750
