import Bab750.Flash.Layout
import Bab750.Flash.NorCells

/-!
# Write protection

`flash_protect` of `common/flash.c`, and what the check of `flash_write` for protected
sectors is worth.  The check takes the end of a sector as the address behind it, and the
last sector of the address space has none.
-/

namespace Bab750
namespace Flash

open Foundation

/-!
# What a write leaves alone
-/

theorem programBytes_keeps (memory : Memory) (dest : BitVec 32) (bytes : List Byte)
    (a : BitVec 32) (h : forall i, i < bytes.length -> a = dest + BitVec.ofNat 32 i ->
      bytes.getD i 0#8 = memory a) :
    (programBytes norChip memory dest bytes).2 a = memory a := by
  induction bytes generalizing memory dest with
  | nil =>
      rfl
  | cons b bytes ih =>
      have hcell : Function.update memory dest (memory dest &&& b) a = memory a := by
        by_cases ha : a = dest
        · have hb : b = memory a := h 0 (by simp) (by rw [BitVec.add_zero]; exact ha)
          rw [← ha, Function.update_self, hb]
          exact BitVec.and_self
        · exact Function.update_of_ne ha _ _
      unfold programBytes
      dsimp only
      split
      · rw [ih _ _ ?_]
        · exact hcell
        · intro i hi ha
          have hnext := h (i + 1) (by rw [List.length_cons]; omega) (by
            rw [ha, show (1#32 : BitVec 32) = BitVec.ofNat 32 1 from rfl, add_ofNat_add,
              Nat.add_comm])
          rw [List.getD_cons_succ] at hnext
          rw [hnext]
          exact hcell.symm
      · exact hcell

theorem writeWord_keeps (memory : Memory) (wp src : BitVec 32) (l n : Nat) (a : BitVec 32)
    (h : forall i, i < 4 -> a = wp + BitVec.ofNat 32 i -> ¬ (l <= i ∧ i < l + n)) :
    (writeWord norChip memory wp (mixedWord memory wp src l n)).2 a = memory a := by
  unfold writeWord
  split
  · rfl
  · unfold mixedWord
    rw [wordBytes_bytesWord (by simp)]
    apply programBytes_keeps
    intro i hi ha
    have hlt : i < 4 := by simpa using hi
    rw [List.getD_eq_getElem?_getD, List.getElem?_map, List.getElem?_range hlt]
    show (if _ then _ else _) = _
    rw [if_neg (h i hlt ha), ha]

theorem writeAligned_tail (chip : Chip) (memory : Memory) (src wp : BitVec 32) {cnt : Nat}
    (hcnt : cnt < 4) :
    writeAligned chip memory src wp cnt =
      if cnt = 0 then (errOk, memory)
      else writeWord chip memory wp (mixedWord memory wp src 0 cnt) := by
  match cnt, hcnt with
  | 0, _ => rfl
  | 1, _ => rfl
  | 2, _ => rfl
  | 3, _ => rfl

theorem writeAligned_keeps (memory : Memory) (src wp : BitVec 32) (cnt : Nat)
    (a : BitVec 32) (h : cnt <= (a - wp).toNat) :
    (writeAligned norChip memory src wp cnt).2 a = memory a := by
  induction cnt using Nat.strongRecOn generalizing memory src wp with
  | ind cnt ih =>
      have hplace : forall i, i < 4 -> a = wp + BitVec.ofNat 32 i -> (a - wp).toNat = i := by
        intro i hi ha
        rw [ha]
        exact offset_toNat wp (by omega)
      by_cases hwhole : 4 <= cnt
      · rcases Nat.exists_eq_add_of_le' hwhole with ⟨rest, rfl⟩
        have hword := writeWord_keeps memory wp src 0 4 a (by
          intro i hi ha
          rw [hplace i hi ha] at h
          omega)
        unfold writeAligned
        dsimp only
        split
        · have hoff := toNat_sub_offset a wp 4 (by decide)
          rw [if_pos (by omega)] at hoff
          have hfour : (4#32 : BitVec 32) = BitVec.ofNat 32 4 := rfl
          rw [ih rest (by omega) _ _ _ (by rw [hfour, hoff]; omega)]
          exact hword
        · exact hword
      · rw [writeAligned_tail norChip memory src wp (by omega)]
        split
        · rfl
        · apply writeWord_keeps
          intro i hi ha
          rw [hplace i hi ha] at h
          omega

theorem writeBuff_keeps (memory : Memory) (src addr : BitVec 32) (cnt : Nat)
    (a : BitVec 32) (h : cnt <= (a - addr).toNat) :
    (writeBuff norChip memory src addr cnt).2 a = memory a := by
  have hl := wordOffset_lt addr
  rw [writeBuff_eq]
  by_cases haligned : wordOffset addr = 0
  · rw [if_neg (by omega), wordBase_of_offset haligned]
    exact writeAligned_keeps memory src addr cnt a h
  · rw [if_pos haligned]
    have hword := writeWord_keeps memory (wordBase addr) src (wordOffset addr)
      (min (4 - wordOffset addr) cnt) a (by
        intro i hi ha hin
        have hoff := toNat_sub_offset a (wordBase addr) (wordOffset addr) (by omega)
        rw [wordBase_add, ha, offset_toNat _ (by omega), if_pos hin.left, ← ha] at hoff
        omega)
    dsimp only
    split
    · by_cases hnone : cnt - min (4 - wordOffset addr) cnt = 0
      · rw [hnone]
        exact hword
      · have hbehind : wordBase addr + 4#32 =
            addr + BitVec.ofNat 32 (4 - wordOffset addr) := by
          rw [addr_place addr, show wordOffset addr + (4 - wordOffset addr) = 4 by omega]
        have hoff := toNat_sub_offset a addr (4 - wordOffset addr) (by omega)
        rw [if_pos (by omega)] at hoff
        rw [writeAligned_keeps _ _ _ _ a (by rw [hbehind, hoff]; omega)]
        exact hword
    · exact hword

theorem writeBanks_keeps (banks : List FlashInfo) (memory : Memory) (src addr cnt : BitVec 32)
    (a : BitVec 32) (h : cnt.toNat <= (a - addr).toNat) :
    (writeBanks norChip banks memory src addr cnt).2 a = memory a := by
  induction banks generalizing memory src addr cnt with
  | nil =>
      rfl
  | cons info banks ih =>
      unfold writeBanks
      split
      · rfl
      · dsimp only
        generalize hlen : (if cnt < info.bankEnd - addr then cnt else info.bankEnd - addr) =
          len
        have hle : len.toNat <= cnt.toNat := by
          rw [← hlen]
          split
          · exact Nat.le_refl _
          case isFalse hlt =>
              rw [BitVec.lt_def] at hlt
              omega
        have hbuff := writeBuff_keeps memory src addr len.toNat a (by omega)
        split
        · have hoff := toNat_sub_offset a addr len.toNat len.isLt
          rw [BitVec.ofNat_toNat, BitVec.setWidth_eq, if_pos (by omega)] at hoff
          rw [ih _ _ _ _ (by
            rw [hoff, BitVec.toNat_sub_of_le (by rw [BitVec.le_def]; exact hle)]
            omega)]
          exact hbuff
        · exact hbuff

theorem flashWrite_keeps (banks : List FlashInfo) (memory : Memory) (src addr cnt : BitVec 32)
    (a : BitVec 32) (h : cnt.toNat <= (a - addr).toNat) :
    (flashWrite norChip banks memory src addr cnt).2 a = memory a := by
  unfold flashWrite
  dsimp only
  split
  · rfl
  · split
    · split
      · rfl
      · exact writeBanks_keeps _ memory src addr cnt a h
    · rfl

/-!
# Return codes
-/

theorem programBytes_codes (chip : Chip) (memory : Memory) (dest : BitVec 32)
    (bytes : List Byte) : (programBytes chip memory dest bytes).1 <= errTimout := by
  induction bytes generalizing memory dest with
  | nil =>
      exact Nat.zero_le _
  | cons b bytes ih =>
      unfold programBytes
      dsimp only
      split
      · exact ih _ _
      · exact Nat.le_refl _

theorem writeWord_codes (chip : Chip) (memory : Memory) (dest data : BitVec 32) :
    (writeWord chip memory dest data).1 <= errNotErased := by
  unfold writeWord
  split
  · exact Nat.le_refl _
  · exact Nat.le_trans (programBytes_codes chip memory dest _) (by decide)

theorem writeAligned_codes (chip : Chip) (memory : Memory) (src wp : BitVec 32) (cnt : Nat) :
    (writeAligned chip memory src wp cnt).1 <= errNotErased := by
  induction cnt using Nat.strongRecOn generalizing memory src wp with
  | ind cnt ih =>
      by_cases hwhole : 4 <= cnt
      · rcases Nat.exists_eq_add_of_le' hwhole with ⟨rest, rfl⟩
        unfold writeAligned
        dsimp only
        split
        · exact ih rest (by omega) _ _ _
        · exact writeWord_codes chip memory wp _
      · rw [writeAligned_tail chip memory src wp (by omega)]
        split
        · exact Nat.zero_le _
        · exact writeWord_codes chip memory wp _

theorem writeBuff_codes (chip : Chip) (memory : Memory) (src addr : BitVec 32) (cnt : Nat) :
    (writeBuff chip memory src addr cnt).1 <= errNotErased := by
  rw [writeBuff_eq]
  split
  · dsimp only
    split
    · exact writeAligned_codes chip _ _ _ _
    · exact writeWord_codes chip memory _ _
  · exact writeAligned_codes chip memory _ _ _

/-- Neither a protected sector nor a wrong address is found while the banks are written. -/
theorem writeBanks_codes (chip : Chip) (banks : List FlashInfo) (memory : Memory)
    (src addr cnt : BitVec 32) :
    (writeBanks chip banks memory src addr cnt).1 <= errNotErased := by
  induction banks generalizing memory src addr cnt with
  | nil =>
      exact Nat.zero_le _
  | cons info banks ih =>
      unfold writeBanks
      split
      · exact Nat.zero_le _
      · dsimp only
        generalize (if cnt < info.bankEnd - addr then cnt else info.bankEnd - addr) = len
        split
        · exact ih _ _ _ _
        · exact writeBuff_codes chip memory src addr _

/-!
# Setting the protection
-/

def flagProtectSet : BitVec 32 := 0x01#32

def flagProtectClear : BitVec 32 := 0x02#32

def flashProtect (flag : BitVec 32) (lower upper : BitVec 32) (info : FlashInfo) : FlashInfo :=
  if info.sectorCount = 0 ∨ info.size = 0#32 ∨ upper < lower then info
  else if info.isKnown = false ∨ upper < info.start 0 ∨ info.bankEnd - 1#32 < lower then info
  else
    { info with
      protect := fun i =>
        if i < info.sectorCount ∧ lower <= info.sectorLast i ∧ info.start i <= upper then
          if flag &&& flagProtectClear ≠ 0#32 then false
          else if flag &&& flagProtectSet ≠ 0#32 then true
          else info.protect i
        else info.protect i }

theorem flashProtect_protect (flag lower upper : BitVec 32) (info : FlashInfo) :
    flashProtect flag lower upper info =
      { info with protect := (flashProtect flag lower upper info).protect } := by
  unfold flashProtect
  split
  · rfl
  · split
    · rfl
    · rfl

theorem flashProtect_set {lower upper : BitVec 32} {info : FlashInfo} (hlaid : info.Laid)
    (hknown : info.isKnown = true) {a : BitVec 32} (hlower : lower <= a) (hupper : a <= upper)
    {i : Nat} (hi : i < info.sectorCount)
    (hin : info.cut i <= a.toNat ∧ a.toNat < info.cut (i + 1)) :
    (flashProtect flagProtectSet lower upper info).protect i = true := by
  have hfirst := hlaid.ascending.le (Nat.zero_le i) (by omega)
  have hlast := hlaid.cut_le_top (show i + 1 <= info.sectorCount from hi)
  have hend := hlaid.bankLast_toNat
  have hsector := hlaid.sectorLast_toNat hi
  have hstart := @FlashInfo.Laid.start_toNat info i hi
  have hzero := @FlashInfo.Laid.start_toNat info 0 hlaid.some
  have hsize : info.size ≠ 0#32 := by
    intro hnone
    have hpos := hlaid.cut_zero_lt
    unfold FlashInfo.top at hpos
    rw [hnone, hzero] at hpos
    exact absurd hpos (Nat.lt_irrefl _)
  rw [BitVec.le_def] at hlower hupper
  unfold flashProtect
  rw [if_neg, if_neg]
  · dsimp only
    rw [if_pos, if_neg (by decide), if_pos (by decide)]
    refine ⟨hi, ?_, ?_⟩
    · rw [BitVec.le_def, hsector]
      omega
    · rw [BitVec.le_def, hstart]
      omega
  · rw [hknown]
    rintro (h | h | h)
    · exact absurd h (by decide)
    · rw [BitVec.lt_def, hzero] at h
      omega
    · rw [BitVec.lt_def, hend] at h
      omega
  · rintro (h | h | h)
    · omega
    · exact hsize h
    · rw [BitVec.lt_def] at h
      omega

/-!
# The check of a write
-/

def ProtectedAt (banks : List FlashInfo) (n : Nat) : Prop :=
  exists info, info ∈ banks ∧ exists i, i < info.sectorCount ∧ info.protect i = true ∧
    info.cut i <= n ∧ n < info.cut (i + 1)

def MeetsProtected (banks : List FlashInfo) (addr cnt : BitVec 32) : Prop :=
  exists n, addr.toNat <= n ∧ n < addr.toNat + cnt.toNat ∧ ProtectedAt banks n

/-- The range meets a protected sector that does not end with the address space. -/
def MeetsBelowTop (banks : List FlashInfo) (addr cnt : BitVec 32) : Prop :=
  exists info, info ∈ banks ∧ exists i, i < info.sectorCount ∧ info.protect i = true ∧
    info.cut i < addr.toNat + cnt.toNat ∧ addr.toNat < info.cut (i + 1) ∧
      info.cut (i + 1) < 2 ^ 32

theorem addr2info_some {banks : List FlashInfo} {addr : BitVec 32} {i : Nat}
    (h : addr2info banks addr = some i) :
    exists info, banks[i]? = some info ∧ info.holds addr = true := by
  unfold addr2info at h
  rw [List.findIdx?_eq_some_iff_getElem] at h
  rcases h with ⟨hi, hholds, _⟩
  exact ⟨banks[i], List.getElem?_eq_getElem hi, hholds⟩

theorem known_of_holds {info : FlashInfo} {a : BitVec 32} (h : info.holds a = true) :
    info.isKnown = true := by
  unfold FlashInfo.holds at h
  rw [Bool.and_eq_true, Bool.and_eq_true] at h
  exact h.left.left

theorem mem_bankSpan {banks : List FlashInfo} {first last i : Nat} {info : FlashInfo}
    (hi : banks[i]? = some info) (hfirst : first <= i) (hlast : i <= last) :
    info ∈ bankSpan banks first last := by
  apply List.mem_of_getElem? (i := i - first)
  unfold bankSpan
  rw [List.getElem?_take, if_pos (by omega), List.getElem?_drop, Nat.add_sub_cancel' hfirst]
  exact hi

theorem bankSpan_subset {banks : List FlashInfo} {first last : Nat} {info : FlashInfo}
    (h : info ∈ bankSpan banks first last) : info ∈ banks :=
  List.mem_of_mem_drop (List.mem_of_mem_take h)

theorem sectorHit_iff {info : FlashInfo} (hlaid : info.Laid) {i : Nat}
    (hi : i < info.sectorCount) (addr last : BitVec 32) :
    sectorHit info addr last i = true ↔ info.protect i = true ∧ info.cut i <= last.toNat ∧
      addr.toNat < info.cut (i + 1) ∧ info.cut (i + 1) < 2 ^ 32 := by
  have hbehind : (if i = info.sectorCount - 1 then info.bankEnd else info.start (i + 1)).toNat =
      info.cut (i + 1) % 2 ^ 32 := by
    split
    case isTrue hlast =>
        rw [show i + 1 = info.sectorCount by omega, FlashInfo.Laid.cut_count]
        exact FlashInfo.Laid.bankEnd_toNat info
    case isFalse hlast =>
        rw [← @FlashInfo.Laid.start_toNat info (i + 1) (by omega),
          Nat.mod_eq_of_lt (info.start (i + 1)).isLt]
  have hle := hlaid.cut_le_top (show i + 1 <= info.sectorCount from hi)
  have hspace := hlaid.space
  have hstart := @FlashInfo.Laid.start_toNat info i hi
  unfold sectorHit
  dsimp only
  rw [Bool.and_eq_true, Bool.and_eq_true, decide_eq_true_eq, decide_eq_true_eq, BitVec.le_def,
    BitVec.lt_def, hbehind, hstart]
  constructor
  · rintro ⟨⟨hbefore, hafter⟩, hprotect⟩
    exact ⟨hprotect, hbefore, by omega, by omega⟩
  · rintro ⟨hprotect, hbefore, hafter, htop⟩
    exact ⟨⟨hbefore, by omega⟩, hprotect⟩

theorem Layout.before {banks : List FlashInfo} (h : Layout banks) {i j : Nat}
    {before behind : FlashInfo} (hi : banks[i]? = some before) (hj : banks[j]? = some behind)
    (hij : i < j) (hbefore : before.isKnown = true) (hbehind : behind.isKnown = true) :
    before.top <= behind.cut 0 := by
  rcases List.getElem?_eq_some_iff.mp hi with ⟨hilt, rfl⟩
  rcases List.getElem?_eq_some_iff.mp hj with ⟨hjlt, rfl⟩
  exact List.pairwise_iff_getElem.mp h.ascending i j hilt hjlt hij hbefore hbehind

theorem cnt_pos {cnt : BitVec 32} (hcnt : cnt ≠ 0#32) : 0 < cnt.toNat := by
  apply Nat.pos_of_ne_zero
  intro hzero
  exact hcnt (BitVec.eq_of_toNat_eq hzero)

theorem rangeLast_toNat {addr cnt : BitVec 32} (hcnt : cnt ≠ 0#32)
    (hspace : addr.toNat + cnt.toNat <= 2 ^ 32) :
    (addr + cnt - 1#32).toNat = addr.toNat + cnt.toNat - 1 := by
  have hpos := cnt_pos hcnt
  rw [BitVec.toNat_sub, BitVec.toNat_add]
  show (2 ^ 32 - 1 + _) % 2 ^ 32 = _
  omega

section Check

variable {banks : List FlashInfo} {memory : Memory} {src addr cnt : BitVec 32}

theorem bankSpan_meets (hlayout : Layout banks) {first last : Nat} {info : FlashInfo}
    (hinfo : info ∈ banks) (hknown : info.isKnown = true) {top : BitVec 32}
    (hfirst : addr2info banks addr = some first) (hlast : addr2info banks top = some last)
    (hbelow : info.cut 0 <= top.toNat) (habove : addr.toNat < info.top) :
    info ∈ bankSpan banks first last := by
  rcases List.getElem?_of_mem hinfo with ⟨i, hi⟩
  rcases addr2info_some hfirst with ⟨lower, hlower, hlowerHolds⟩
  rcases addr2info_some hlast with ⟨upper, hupper, hupperHolds⟩
  have hlowerKnown := known_of_holds hlowerHolds
  have hupperKnown := known_of_holds hupperHolds
  have hlowerIn := ((hlayout.laid lower (List.mem_of_getElem? hlower)
    hlowerKnown).holds_iff hlowerKnown addr).mp hlowerHolds
  have hupperIn := ((hlayout.laid upper (List.mem_of_getElem? hupper)
    hupperKnown).holds_iff hupperKnown top).mp hupperHolds
  unfold FlashInfo.Covers at hlowerIn hupperIn
  apply mem_bankSpan hi
  · apply Nat.le_of_not_lt
    intro hlt
    have hbefore := hlayout.before hi hlower hlt hknown hlowerKnown
    omega
  · apply Nat.le_of_not_lt
    intro hlt
    have hbehind := hlayout.before hupper hi hlt hupperKnown hknown
    omega

/-- The check finds the protected sectors that do not end with the address space. -/
theorem bankSpan_protected_iff (hlayout : Layout banks)
    (hknown : forall info, info ∈ banks -> info.isKnown = true) (hcnt : cnt ≠ 0#32)
    (hspace : addr.toNat + cnt.toNat <= 2 ^ 32) {first last : Nat}
    (hfirst : addr2info banks addr = some first)
    (hlast : addr2info banks (addr + cnt - 1#32) = some last) :
    (bankSpan banks first last).any (fun info => protectedIn info addr (addr + cnt - 1#32)) =
      true ↔ MeetsBelowTop banks addr cnt := by
  have hend := rangeLast_toNat hcnt hspace
  have hpos := cnt_pos hcnt
  rw [List.any_eq_true]
  constructor
  · rintro ⟨info, hinfo, hhit⟩
    have hmem := bankSpan_subset hinfo
    unfold protectedIn at hhit
    rw [List.any_eq_true] at hhit
    rcases hhit with ⟨i, hi, hhit⟩
    rw [List.mem_range] at hi
    rcases (sectorHit_iff (hlayout.laid info hmem (hknown info hmem)) hi _ _).mp hhit with
      ⟨hprotect, hbefore, hafter, htop⟩
    exact ⟨info, hmem, i, hi, hprotect, by omega, hafter, htop⟩
  · rintro ⟨info, hmem, i, hi, hprotect, hbefore, hafter, htop⟩
    have hlaid := hlayout.laid info hmem (hknown info hmem)
    have hzero := hlaid.ascending.le (Nat.zero_le i) (by omega)
    have hle := hlaid.cut_le_top (show i + 1 <= info.sectorCount from hi)
    refine ⟨info, bankSpan_meets hlayout hmem (hknown info hmem) hfirst hlast (by omega)
      (by omega), ?_⟩
    unfold protectedIn
    rw [List.any_eq_true]
    exact ⟨i, List.mem_range.mpr hi, (sectorHit_iff hlaid hi _ _).mpr
      ⟨hprotect, by omega, hafter, htop⟩⟩

theorem flashWrite_protected_iff (hlayout : Layout banks)
    (hknown : forall info, info ∈ banks -> info.isKnown = true) (hcnt : cnt ≠ 0#32)
    (hspace : addr.toNat + cnt.toNat <= 2 ^ 32)
    (hfirst : (addr2info banks addr).isSome = true)
    (hlast : (addr2info banks (addr + cnt - 1#32)).isSome = true) :
    (flashWrite norChip banks memory src addr cnt).1 = errProtected ↔
      MeetsBelowTop banks addr cnt := by
  rcases Option.isSome_iff_exists.mp hfirst with ⟨first, hfirst⟩
  rcases Option.isSome_iff_exists.mp hlast with ⟨last, hlast⟩
  have hcheck := bankSpan_protected_iff hlayout hknown hcnt hspace hfirst hlast
  unfold flashWrite
  dsimp only
  rw [if_neg hcnt, hfirst, hlast]
  dsimp only
  split
  case isTrue hhit =>
      exact ⟨fun _ => hcheck.mp hhit, fun _ => rfl⟩
  case isFalse hmiss =>
      constructor
      · intro hcode
        have hsmall := writeBanks_codes norChip (bankSpan banks first last) memory src addr cnt
        rw [hcode] at hsmall
        exact absurd hsmall (by decide)
      · intro hmeets
        exact absurd (hcheck.mpr hmeets) hmiss

theorem flashWrite_refused (h : (flashWrite norChip banks memory src addr cnt).1 =
    errProtected) : (flashWrite norChip banks memory src addr cnt).2 = memory := by
  unfold flashWrite at h ⊢
  dsimp only at h ⊢
  split at h
  case isTrue hcnt =>
      rw [if_pos hcnt]
  case isFalse hcnt =>
      rw [if_neg hcnt]
      split at h
      case h_1 first last hfirst hlast =>
          split at h
          case isTrue hhit =>
              rw [if_pos hhit]
          case isFalse hmiss =>
              have hsmall := writeBanks_codes norChip (bankSpan banks first last) memory src
                addr cnt
              rw [h] at hsmall
              exact absurd hsmall (by decide)
      · exact absurd (show errInval = errProtected from h) (by decide)

theorem meetsProtected_of_below (hlayout : Layout banks)
    (hknown : forall info, info ∈ banks -> info.isKnown = true) (hcnt : cnt ≠ 0#32)
    (h : MeetsBelowTop banks addr cnt) : MeetsProtected banks addr cnt := by
  rcases h with ⟨info, hmem, i, hi, hprotect, hbefore, hafter, _⟩
  have hpos := cnt_pos hcnt
  have hstep := (hlayout.laid info hmem (hknown info hmem)).ascending i hi
  exact ⟨max addr.toNat (info.cut i), by omega, by omega, info, hmem, i, hi, hprotect,
    by omega, by omega⟩

structure EnforcesProtection (banks : List FlashInfo) (memory : Memory)
    (src addr cnt : BitVec 32) : Prop where
  refused : (flashWrite norChip banks memory src addr cnt).1 = errProtected ↔
    MeetsProtected banks addr cnt
  unchanged : MeetsProtected banks addr cnt ->
    (flashWrite norChip banks memory src addr cnt).2 = memory
  never : forall (lower upper : BitVec 32) (before : FlashInfo),
    flashProtect flagProtectSet lower upper before ∈ banks -> forall a : BitVec 32,
      lower <= a -> a <= upper -> before.holds a = true ->
        (flashWrite norChip banks memory src addr cnt).2 a = memory a

theorem protectedAt_of_set (hlayout : Layout banks) {lower upper : BitVec 32}
    {before : FlashInfo} (hmem : flashProtect flagProtectSet lower upper before ∈ banks)
    {a : BitVec 32} (hlower : lower <= a) (hupper : a <= upper) (hholds : before.holds a = true) :
    ProtectedAt banks a.toNat := by
  have hknown := known_of_holds hholds
  have hsame := flashProtect_protect flagProtectSet lower upper before
  have hlaid : before.Laid := by
    have hafter := hlayout.laid _ hmem (by rw [hsame]; exact hknown)
    rw [hsame] at hafter
    exact ⟨hafter.some, hafter.ascending, hafter.space⟩
  rcases FlashInfo.Laid.exists_sector ((hlaid.holds_iff hknown a).mp hholds) with ⟨i, hi, hin⟩
  have hprotect := flashProtect_set hlaid hknown hlower hupper hi hin
  refine ⟨_, hmem, i, ?_, hprotect, ?_⟩
  · rw [hsame]
    exact hi
  · rw [hsame]
    exact hin

/--
Write protection is enforced exactly if the range does not meet a protected sector that
ends with the address space and no other one.
-/
theorem protection_enforced_iff (hlayout : Layout banks)
    (hknown : forall info, info ∈ banks -> info.isKnown = true) (hcnt : cnt ≠ 0#32)
    (hspace : addr.toNat + cnt.toNat <= 2 ^ 32)
    (hfirst : (addr2info banks addr).isSome = true)
    (hlast : (addr2info banks (addr + cnt - 1#32)).isSome = true) :
    EnforcesProtection banks memory src addr cnt ↔
      (MeetsProtected banks addr cnt -> MeetsBelowTop banks addr cnt) := by
  have hcode := @flashWrite_protected_iff banks memory src addr cnt hlayout hknown hcnt hspace
    hfirst hlast
  constructor
  · intro h hmeets
    exact hcode.mp (h.refused.mpr hmeets)
  · intro h
    constructor
    · constructor
      · intro hrefused
        exact meetsProtected_of_below hlayout hknown hcnt (hcode.mp hrefused)
      · intro hmeets
        exact hcode.mpr (h hmeets)
    · intro hmeets
      exact flashWrite_refused (hcode.mpr (h hmeets))
    · intro lower upper before hmem a hlower hupper hholds
      have hprotected := protectedAt_of_set hlayout hmem hlower hupper hholds
      by_cases hin : (a - addr).toNat < cnt.toNat
      · -- the byte lies in the range, and the write is refused
        have hplace : (a - addr).toNat = (2 ^ 32 - addr.toNat + a.toNat) % 2 ^ 32 :=
          BitVec.toNat_sub a addr
        have hlt := a.isLt
        have hmeets : MeetsProtected banks addr cnt :=
          ⟨a.toNat, by omega, by omega, hprotected⟩
        rw [flashWrite_refused (hcode.mpr (h hmeets))]
      · exact flashWrite_keeps banks memory src addr cnt a (by omega)

end Check

/-- The two banks of the board with 4 MB each, and the protection of the second one. -/
def boardBanks (locked : Nat -> Bool) : List FlashInfo :=
  [chipInfo 0xff800000#32 0x41#8 (fun _ => false) missingBank 64 0x00400000#32,
    chipInfo 0xffc00000#32 0x41#8 locked missingBank 64 0x00400000#32]

theorem boardBanks_layout (locked : Nat -> Bool) : Layout (boardBanks locked) := by
  constructor
  · intro info hinfo _
    rcases List.mem_pair.mp hinfo with rfl | rfl
    · exact chipInfo_laid rfl (by decide)
    · exact chipInfo_laid rfl (by decide)
  · apply List.pairwise_pair.mpr
    intro _ _
    rw [chipInfo_top rfl (by decide), chipInfo_cut rfl (by decide) (Nat.zero_le _)]
    decide

theorem boardBanks_known (locked : Nat -> Bool) :
    forall info, info ∈ boardBanks locked -> info.isKnown = true := by
  intro info hinfo
  rcases List.mem_pair.mp hinfo with rfl | rfl
  · rfl
  · rfl

/-- The protection of the last sector of the board is not seen. -/
theorem last_sector_unprotected :
    MeetsProtected (boardBanks (fun i => i == 63)) 0xffff0000#32 4#32 ∧
      ¬ EnforcesProtection (boardBanks (fun i => i == 63)) (fun _ => 0xff#8) 0x00400000#32
        0xffff0000#32 4#32 := by
  have hmeets : MeetsProtected (boardBanks (fun i => i == 63)) 0xffff0000#32 4#32 :=
    ⟨0xffff0000, by decide, by decide, _, List.mem_pair.mpr (Or.inr rfl), 63, by decide,
      by decide, by decide, by decide⟩
  refine ⟨hmeets, ?_⟩
  intro h
  exact absurd (h.refused.mpr hmeets) (by decide)

theorem protection_enforced_below :
    EnforcesProtection (boardBanks (fun i => i == 62)) (fun _ => 0xff#8) 0x00400000#32
      0xfffe0000#32 4#32 := by
  apply (protection_enforced_iff (boardBanks_layout _) (boardBanks_known _) (by decide)
    (by decide) (by decide) (by decide)).mpr
  intro _
  exact ⟨_, List.mem_pair.mpr (Or.inr rfl), 62, by decide, by decide, by decide, by decide,
    by decide⟩

end Flash
end Bab750
