import Bab750.Flash.Program
import Bab750.Console.Download

/-!
# Writing to the flash

`addr2info`, `flash_write`, and `flash_perror` of `common/flash.c`.  A range may run
from one bank into the next; it is cut into one `write_buff` for each bank.
-/

namespace Bab750
namespace Flash

open Foundation
open Console (decimalText)

/-!
# Banks
-/

structure FlashInfo where
  size : BitVec 32
  sectorCount : Nat
  flashId : BitVec 32
  start : Nat -> BitVec 32
  protect : Nat -> Bool

def flashUnknown : BitVec 32 := 0xffff#32

namespace FlashInfo

def isKnown (info : FlashInfo) : Bool := info.flashId != flashUnknown

/-- The first address behind the bank; zero at the end of the address space. -/
def bankEnd (info : FlashInfo) : BitVec 32 := info.start 0 + info.size

def sectorLast (info : FlashInfo) (i : Nat) : BitVec 32 :=
  if i = info.sectorCount - 1 then info.bankEnd - 1#32 else info.start (i + 1) - 1#32

/-- The test of `addr2info`. -/
def holds (info : FlashInfo) (addr : BitVec 32) : Bool :=
  info.isKnown && info.start 0 <= addr && addr <= info.bankEnd - 1#32

end FlashInfo

def addr2info (banks : List FlashInfo) (addr : BitVec 32) : Option Nat :=
  banks.findIdx? (fun info => info.holds addr)

/-!
# The write
-/

def sectorHit (info : FlashInfo) (addr last : BitVec 32) (i : Nat) : Bool :=
  let eAddr := if i = info.sectorCount - 1 then info.bankEnd else info.start (i + 1)
  info.start i <= last && addr < eAddr && info.protect i

def protectedIn (info : FlashInfo) (addr last : BitVec 32) : Bool :=
  (List.range info.sectorCount).any (sectorHit info addr last)

/-- The banks from `info_first` to `info_last`. -/
def bankSpan (banks : List FlashInfo) (first last : Nat) : List FlashInfo :=
  (banks.drop first).take (last + 1 - first)

/-- The loop of `flash_write` over the banks. -/
def writeBanks (chip : Chip) :
    List FlashInfo -> Memory -> BitVec 32 -> BitVec 32 -> BitVec 32 -> Nat × Memory
  | [], memory, _, _, _ => (errOk, memory)
  | info :: banks, memory, src, addr, cnt =>
      if cnt = 0#32 then (errOk, memory)
      else
        let room := info.bankEnd - addr
        let len := if cnt < room then cnt else room
        let result := writeBuff chip memory src addr len.toNat
        if result.1 = errOk then
          writeBanks chip banks result.2 (src + len) (addr + len) (cnt - len)
        else result

def flashWrite (chip : Chip) (banks : List FlashInfo) (memory : Memory)
    (src addr cnt : BitVec 32) : Nat × Memory :=
  let last := addr + cnt - 1#32
  if cnt = 0#32 then (errOk, memory)
  else
    match addr2info banks addr, addr2info banks last with
    | some infoFirst, some infoLast =>
        if (bankSpan banks infoFirst infoLast).any (fun info => protectedIn info addr last)
          then (errProtected, memory)
        else writeBanks chip (bankSpan banks infoFirst infoLast) memory src addr cnt
    | _, _ => (errInval, memory)

def flashPerror (err : Nat) : Text :=
  match err with
  | 0 => []
  | 1 => chars "Timeout writing to Flash\n"
  | 2 => chars "Flash not Erased\n"
  | 4 => chars "Can't write to protected Flash sectors\n"
  | 8 => chars "Outside available Flash\n"
  | 16 => chars "Start and/or end address not on sector boundary\n"
  | 32 => chars "Unknown Vendor of Flash\n"
  | 64 => chars "Unknown Type of Flash\n"
  | 128 => chars "General Flash Programming Error\n"
  | other => chars "flash.c[224] FIXME: rc=" ++ decimalText other ++ chars "\n"

/-!
# A range in adjacent banks
-/

/-- A range that lies in the first bank, or goes on in a bank that follows without a gap. -/
def Chained : List FlashInfo -> BitVec 32 -> Nat -> Prop
  | [], _, _ => False
  | info :: banks, addr, cnt =>
      cnt <= (info.bankEnd - addr).toNat ∨
        (addr ≠ info.bankEnd ∧ wordOffset info.bankEnd = 0 ∧
          Chained banks info.bankEnd (cnt - (info.bankEnd - addr).toNat))

theorem wordBase_of_offset {addr : BitVec 32} (h : wordOffset addr = 0) :
    wordBase addr = addr := by
  have hadd := wordBase_add addr
  rw [h, BitVec.add_zero] at hadd
  exact hadd

theorem writeBuff_aligned (chip : Chip) (memory : Memory) (src addr : BitVec 32)
    (cnt : Nat) (h : wordOffset addr = 0) :
    writeBuff chip memory src addr cnt = writeAligned chip memory src addr cnt := by
  rw [writeBuff_eq, if_neg (by omega), wordBase_of_offset h]

theorem writeAligned_add (chip : Chip) (memory : Memory) (src wp : BitVec 32)
    (words rest : Nat) :
    writeAligned chip memory src wp (4 * words + rest) =
      (let result := writeAligned chip memory src wp (4 * words)
      if result.1 = errOk then
        writeAligned chip result.2 (src + BitVec.ofNat 32 (4 * words))
          (wp + BitVec.ofNat 32 (4 * words)) rest
      else result) := by
  induction words generalizing memory src wp with
  | zero =>
      have hzero : writeAligned chip memory src wp (4 * 0) = (errOk, memory) := rfl
      rw [hzero]
      dsimp only
      rw [if_pos rfl, Nat.mul_zero, Nat.zero_add, BitVec.add_zero, BitVec.add_zero]
  | succ words ih =>
      have hstep : forall more, writeAligned chip memory src wp (4 * (words + 1) + more) =
          (let result := writeWord chip memory wp (mixedWord memory wp src 0 4)
          if result.1 = errOk then
            writeAligned chip result.2 (src + 4#32) (wp + 4#32) (4 * words + more)
          else result) := by
        intro more
        rw [show 4 * (words + 1) + more = 4 * words + more + 4 by omega]
        rfl
      have hwhole := hstep 0
      simp only [Nat.add_zero] at hwhole
      have haddr : forall a : BitVec 32, a + 4#32 + BitVec.ofNat 32 (4 * words) =
          a + BitVec.ofNat 32 (4 * (words + 1)) := by
        intro a
        rw [show (4#32 : BitVec 32) = BitVec.ofNat 32 4 from rfl, add_ofNat_add]
        congr 2
        omega
      rw [hstep rest, hwhole]
      dsimp only
      by_cases hok : (writeWord chip memory wp (mixedWord memory wp src 0 4)).1 = errOk
      · rw [if_pos hok, if_pos hok, ih]
        dsimp only
        rw [haddr, haddr]
      · rw [if_neg hok, if_neg hok, if_neg hok]

theorem writeBuff_add (chip : Chip) (memory : Memory) (src addr : BitVec 32)
    (len rest : Nat) (hlen : 0 < len) (hsize : len < 2 ^ 32)
    (hcut : wordOffset (addr + BitVec.ofNat 32 len) = 0) :
    writeBuff chip memory src addr (len + rest) =
      (let result := writeBuff chip memory src addr len
      if result.1 = errOk then
        writeBuff chip result.2 (src + BitVec.ofNat 32 len) (addr + BitVec.ofNat 32 len) rest
      else result) := by
  have hmod : (wordOffset addr + len) % 4 = 0 := by
    rw [wordOffset_eq, BitVec.toNat_add, BitVec.toNat_ofNat] at hcut
    rw [wordOffset_eq]
    omega
  simp only [writeBuff_aligned chip _ _ _ rest hcut]
  by_cases haligned : wordOffset addr = 0
  · simp only [writeBuff_aligned chip _ _ _ _ haligned]
    have hwords : len = 4 * (len / 4) := by omega
    rw [hwords]
    exact writeAligned_add chip memory src addr (len / 4) rest
  · have hl := wordOffset_lt addr
    have hfirst : forall more, min (4 - wordOffset addr) (len + more) = 4 - wordOffset addr := by
      intro more
      omega
    have hwhole := hfirst 0
    rw [Nat.add_zero] at hwhole
    have hwords : len - (4 - wordOffset addr) = 4 * ((len - (4 - wordOffset addr)) / 4) := by
      omega
    have haddr : addr + BitVec.ofNat 32 len = wordBase addr + 4#32 +
        BitVec.ofNat 32 (len - (4 - wordOffset addr)) := by
      conv_lhs => rw [← wordBase_add addr]
      rw [show (4#32 : BitVec 32) = BitVec.ofNat 32 4 from rfl, add_ofNat_add, add_ofNat_add]
      congr 2
      omega
    have hsrc : src + BitVec.ofNat 32 len = src + BitVec.ofNat 32 (4 - wordOffset addr) +
        BitVec.ofNat 32 (len - (4 - wordOffset addr)) := by
      rw [add_ofNat_add]
      congr 2
      omega
    simp only [writeBuff_eq chip memory src addr]
    rw [if_pos haligned, if_pos haligned, hfirst rest, hwhole]
    split
    case isTrue hok =>
        rw [show len + rest - (4 - wordOffset addr) = len - (4 - wordOffset addr) + rest by
          omega, haddr, hsrc, hwords]
        exact writeAligned_add chip _ _ _ _ rest
    case isFalse hbad =>
        rfl

theorem writeBanks_chained (chip : Chip) (banks : List FlashInfo) (memory : Memory)
    (src addr cnt : BitVec 32) (hcnt : cnt ≠ 0#32) (h : Chained banks addr cnt.toNat) :
    writeBanks chip banks memory src addr cnt = writeBuff chip memory src addr cnt.toNat := by
  induction banks generalizing memory src addr cnt with
  | nil =>
      exact h.elim
  | cons info banks ih =>
      unfold writeBanks
      rw [if_neg hcnt]
      dsimp only
      by_cases hinside : cnt.toNat <= (info.bankEnd - addr).toNat
      · -- the whole range lies in this bank, and nothing is left for the next ones
        have hlen : (if cnt < info.bankEnd - addr then cnt else info.bankEnd - addr) = cnt := by
          split
          · rfl
          case isFalse hlt =>
              rw [BitVec.lt_def] at hlt
              exact BitVec.eq_of_toNat_eq (by omega)
        rw [hlen, BitVec.sub_self]
        split
        case isTrue hok =>
            have hnothing : forall m s a, writeBanks chip banks m s a 0#32 = (errOk, m) := by
              intro m s a
              cases banks with
              | nil =>
                  rfl
              | cons info banks =>
                  rfl
            rw [hnothing, ← hok]
        case isFalse hbad =>
            rfl
      · rcases h with hinside' | ⟨hne, hcut, hchain⟩
        · exact absurd hinside' hinside
        · have hlen : (if cnt < info.bankEnd - addr then cnt else info.bankEnd - addr) =
              info.bankEnd - addr := by
            rw [if_neg]
            rw [BitVec.lt_def]
            omega
          have hend : addr + (info.bankEnd - addr) = info.bankEnd := by
            rw [BitVec.add_comm, BitVec.sub_add_cancel]
          have hlenPos : 0 < (info.bankEnd - addr).toNat := by
            apply Nat.pos_of_ne_zero
            intro hzero
            apply hne
            have hsub : info.bankEnd - addr = 0#32 := BitVec.eq_of_toNat_eq hzero
            rw [hsub, BitVec.add_zero] at hend
            exact hend
          have hleft : (cnt - (info.bankEnd - addr)).toNat =
              cnt.toNat - (info.bankEnd - addr).toNat := by
            rw [BitVec.toNat_sub_of_le (by rw [BitVec.le_def]; omega)]
          have hback : BitVec.ofNat 32 (info.bankEnd - addr).toNat = info.bankEnd - addr := by
            rw [BitVec.ofNat_toNat, BitVec.setWidth_eq]
          have hadd := writeBuff_add chip memory src addr (info.bankEnd - addr).toNat
            (cnt.toNat - (info.bankEnd - addr).toNat) hlenPos (info.bankEnd - addr).isLt
            (by rw [hback, hend]; exact hcut)
          rw [show (info.bankEnd - addr).toNat + (cnt.toNat - (info.bankEnd - addr).toNat) =
            cnt.toNat by omega, hback, hend] at hadd
          rw [hlen, hend, hadd]
          dsimp only
          split
          case isTrue hok =>
              rw [← hleft] at hchain ⊢
              apply ih _ _ _ _ _ hchain
              intro hzero
              rw [hzero] at hleft
              have hnone : (0#32 : BitVec 32).toNat = 0 := rfl
              omega
          case isFalse hbad =>
              rfl

/-!
# What a write leaves behind
-/

def HoldsBytes (memory : Memory) (addr : BitVec 32) (bytes : Nat -> Byte) (cnt : Nat) :
    Prop :=
  forall i, i < cnt -> memory (addr + BitVec.ofNat 32 i) = bytes i

def WordsTake (chip : Chip) (memory target : Memory) (start : BitVec 32) (n : Nat) : Prop :=
  forall i, i < 4 * n ->
    let a := start + BitVec.ofNat 32 i
    chip.program a (memory a) (target a) = target a

def wordPolls (chip : Chip) (memory target : Memory) (wp : BitVec 32) : Bool :=
  (List.range 4).all (fun i =>
    let a := wp + BitVec.ofNat 32 i
    pollEnds (chip.program a (memory a) (target a)) (target a))

/-- The check of `write_word` for the first byte of a word. -/
def wordRefused (memory target : Memory) (wp : BitVec 32) : Bool :=
  memory wp &&& target (wp + 3#32) != target (wp + 3#32)

/-- Some word is refused, and data polling ends in all words in front of it. -/
def WordsRefused (chip : Chip) (memory target : Memory) (start : BitVec 32) (n : Nat) :
    Prop :=
  exists k, k < n ∧ wordRefused memory target (start + BitVec.ofNat 32 (4 * k)) = true ∧
    forall j, j < k -> wordPolls chip memory target (start + BitVec.ofNat 32 (4 * j)) = true

theorem wordVerdict_eq (chip : Chip) (memory target : Memory) (wp : BitVec 32) :
    wordVerdict chip memory target wp =
      if wordRefused memory target wp then errNotErased
      else if wordPolls chip memory target wp then errOk else errTimout := by
  unfold wordVerdict wordRefused wordPolls
  by_cases h : memory wp &&& target (wp + 3#32) = target (wp + 3#32)
  · have hnot : (memory wp &&& target (wp + 3#32) != target (wp + 3#32)) = false := by
      rw [h]
      exact bne_self_eq_false _
    rw [if_neg (not_not_intro h), hnot]
    rfl
  · rw [if_pos h, if_pos (bne_iff_ne.mpr h)]

theorem add_four_mul (start : BitVec 32) (k : Nat) :
    start + 4#32 + BitVec.ofNat 32 (4 * k) = start + BitVec.ofNat 32 (4 * (k + 1)) := by
  rw [show (4#32 : BitVec 32) = BitVec.ofNat 32 4 from rfl, add_ofNat_add]
  congr 2
  omega

theorem wordsVerdict_refused {chip : Chip} {memory target : Memory} {start : BitVec 32}
    {n : Nat} (h : WordsRefused chip memory target start n) :
    wordsVerdict chip memory target start n = errNotErased := by
  rcases h with ⟨k, hk, hrefused, hpolls⟩
  induction n generalizing start k with
  | zero =>
      omega
  | succ n ih =>
      unfold wordsVerdict
      dsimp only
      rw [wordVerdict_eq]
      by_cases hfirst : wordRefused memory target start = true
      · rw [if_pos hfirst]
        rfl
      · cases k with
        | zero =>
            rw [Nat.mul_zero, BitVec.add_zero] at hrefused
            exact absurd hrefused hfirst
        | succ k =>
            have hpoll := hpolls 0 (by omega)
            rw [Nat.mul_zero, BitVec.add_zero] at hpoll
            rw [if_neg hfirst, if_pos hpoll, if_pos rfl]
            refine ih k (by omega) ?_ ?_
            · rw [add_four_mul]
              exact hrefused
            · intro j hj
              rw [add_four_mul]
              exact hpolls (j + 1) (by omega)

theorem wordsVerdict_takes {chip : Chip} {memory target : Memory} {start : BitVec 32}
    {n : Nat} (h : WordsTake chip memory target start n) :
    wordsVerdict chip memory target start n = errOk ∨
      wordsVerdict chip memory target start n = errNotErased := by
  induction n generalizing start with
  | zero =>
      exact Or.inl rfl
  | succ n ih =>
      have hpolls : wordPolls chip memory target start = true := by
        unfold wordPolls
        rw [List.all_eq_true]
        intro i hi
        rw [List.mem_range] at hi
        dsimp only
        rw [h i (by omega)]
        exact beq_self_eq_true _
      have hrest : WordsTake chip memory target (start + 4#32) n := by
        intro i hi
        have hnext := h (4 + i) (by omega)
        rw [← add_ofNat_add] at hnext
        exact hnext
      unfold wordsVerdict
      dsimp only
      rw [wordVerdict_eq, hpolls]
      by_cases hrefused : wordRefused memory target start = true
      · rw [if_pos hrefused]
        exact Or.inr rfl
      · rw [if_neg hrefused, if_pos rfl, if_pos rfl]
        exact ih hrest

theorem writeBuff_holds (chip : Chip) (memory : Memory) (src addr : BitVec 32) (cnt : Nat)
    (hapart : SourceApart src addr cnt) (hsize : cnt + 8 <= 2 ^ 32)
    (htakes : WordsTake chip memory (bufferTarget memory src addr cnt) (wordBase addr)
      (wordCount addr cnt))
    (hok : (writeBuff chip memory src addr cnt).1 = errOk) :
    HoldsBytes (writeBuff chip memory src addr cnt).2 addr
      (fun i => memory (src + BitVec.ofNat 32 i)) cnt := by
  intro i hi
  have hl := wordOffset_lt addr
  have hplace : addr + BitVec.ofNat 32 i =
      wordBase addr + BitVec.ofNat 32 (wordOffset addr + i) := by
    conv_lhs => rw [← wordBase_add addr]
    exact add_ofNat_add _ _ _
  have hindex : wordOffset addr + i < 4 * wordCount addr cnt := by
    unfold wordCount
    omega
  have htarget : bufferTarget memory src addr cnt (addr + BitVec.ofNat 32 i) =
      memory (src + BitVec.ofNat 32 i) := by
    have hat : addr + BitVec.ofNat 32 i - addr = BitVec.ofNat 32 i := by
      rw [BitVec.add_comm, BitVec.add_sub_cancel]
    unfold bufferTarget
    rw [hat, if_pos]
    rw [BitVec.toNat_ofNat, Nat.mod_eq_of_lt (by omega)]
    exact hi
  have htake := htakes (wordOffset addr + i) hindex
  dsimp only at htake
  rw [(writeBuff_programmed chip memory src addr cnt hapart hsize).right hok, hplace]
  unfold programmed
  rw [offset_toNat _ (by omega), if_pos hindex, htake, ← hplace, htarget]

/-!
# The write as a whole
-/

/--
The range lies in known banks that follow each other, none of its sectors is found to
be protected, and its source lies apart from it.
-/
structure Writable (banks : List FlashInfo) (src addr cnt : BitVec 32) : Prop where
  apart : SourceApart src addr cnt.toNat
  inFlash : exists first last, addr2info banks addr = some first ∧
    addr2info banks (addr + cnt - 1#32) = some last ∧
    (bankSpan banks first last).any
      (fun info => protectedIn info addr (addr + cnt - 1#32)) = false ∧
    Chained (bankSpan banks first last) addr cnt.toNat

theorem flashWrite_writable {chip : Chip} {banks : List FlashInfo} {memory : Memory}
    {src addr cnt : BitVec 32} (hcnt : cnt ≠ 0#32) (h : Writable banks src addr cnt) :
    flashWrite chip banks memory src addr cnt =
      writeBuff chip memory src addr cnt.toNat := by
  rcases h.inFlash with ⟨first, last, hfirst, hlast, hprotect, hchain⟩
  unfold flashWrite
  dsimp only
  rw [if_neg hcnt, hfirst, hlast]
  dsimp only
  rw [hprotect, if_neg (by decide)]
  exact writeBanks_chained chip _ memory src addr cnt hcnt hchain

end Flash
end Bab750
