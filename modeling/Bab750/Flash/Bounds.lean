import Bab750.Flash.Protection

/-!
# The bounds of a write

`flash_write` looks at the two ends of a range only, and goes through the banks in the order
of the array.  What its success means for a range that runs over the end of the address
space or over a gap between the banks.
-/

namespace Bab750
namespace Flash

open Foundation

/--
Ascending banks that consist of whole words, where no bank is missing between two others;
with two banks, none can be.
-/
structure WordLayout (banks : List FlashInfo) : Prop extends Layout banks where
  aligned : forall info, info ∈ banks -> info.isKnown = true -> info.top % 4 = 0
  between : forall (i j k : Nat) (first second third : FlashInfo), i < j -> j < k ->
    banks[i]? = some first -> banks[j]? = some second -> banks[k]? = some third ->
      first.isKnown = true -> third.isKnown = true -> second.isKnown = true

/-- Every address of the range lies in a known bank. -/
def InFlash (banks : List FlashInfo) (addr cnt : BitVec 32) : Prop :=
  forall n, addr.toNat <= n -> n < addr.toNat + cnt.toNat ->
    exists info, info ∈ banks ∧ info.isKnown = true ∧ info.Covers n

/-!
# A range in flash
-/

theorem bankRoom_toNat {info : FlashInfo} (hlaid : info.Laid) {addr : BitVec 32}
    (haddr : info.Covers addr.toNat) : (info.bankEnd - addr).toNat = info.top - addr.toNat := by
  have hspace := hlaid.space
  have hzero := hlaid.cut_zero
  have hsize := info.size.isLt
  have htop : info.top = (info.start 0).toNat + info.size.toNat := rfl
  rcases haddr with ⟨hlower, hupper⟩
  rw [BitVec.toNat_sub, FlashInfo.Laid.bankEnd_toNat]
  omega

theorem chained_of_covered (banks : List FlashInfo) (info : FlashInfo) (addr : BitVec 32)
    (cnt : Nat) (hlaid : forall bank, bank ∈ info :: banks -> bank.Laid)
    (haligned : forall bank, bank ∈ info :: banks -> bank.top % 4 = 0)
    (hascending : (info :: banks).Pairwise (fun before behind => before.top <= behind.cut 0))
    (haddr : info.Covers addr.toNat)
    (hcovered : forall n, addr.toNat <= n -> n < addr.toNat + cnt ->
      exists bank, bank ∈ info :: banks ∧ bank.Covers n) :
    Chained (info :: banks) addr cnt := by
  induction banks generalizing info addr cnt with
  | nil =>
      have hroom := bankRoom_toNat (hlaid info List.mem_cons_self) haddr
      left
      rw [hroom]
      apply Nat.le_of_not_lt
      intro hlt
      rcases hcovered info.top (Nat.le_of_lt haddr.right) (by omega) with ⟨bank, hbank, hin⟩
      rw [List.mem_singleton] at hbank
      subst hbank
      exact absurd hin.right (Nat.lt_irrefl _)
  | cons next banks ih =>
      have hroom := bankRoom_toNat (hlaid info List.mem_cons_self) haddr
      by_cases hinside : cnt <= info.top - addr.toNat
      · left
        rw [hroom]
        exact hinside
      · right
        have hlower := haddr.right
        have hpairs := List.pairwise_cons.mp hascending
        -- the address behind the bank lies in the next one
        have hnext : next.Covers info.top := by
          rcases hcovered info.top (by omega) (by omega) with ⟨bank, hbank, hin⟩
          have hstart := hpairs.left next List.mem_cons_self
          rcases List.mem_cons.mp hbank with rfl | hbank
          · exact absurd hin.right (Nat.lt_irrefl _)
          · rcases List.mem_cons.mp hbank with rfl | hbank
            · exact hin
            · have hlater := (List.pairwise_cons.mp hpairs.right).left bank hbank
              have hpos := (hlaid next (by simp)).cut_zero_lt
              have hfirst := hin.left
              omega
        have hspace := (hlaid next (by simp)).space
        have hend : info.bankEnd.toNat = info.top := by
          rw [FlashInfo.Laid.bankEnd_toNat, Nat.mod_eq_of_lt]
          have hupper := hnext.right
          omega
        refine ⟨?_, ?_, ?_⟩
        · intro heq
          rw [heq, hend] at hlower
          exact absurd hlower (Nat.lt_irrefl _)
        · rw [wordOffset_eq, hend]
          exact haligned info List.mem_cons_self
        · rw [hroom]
          apply ih next info.bankEnd _
            (fun bank hbank => hlaid bank (List.mem_cons_of_mem _ hbank))
            (fun bank hbank => haligned bank (List.mem_cons_of_mem _ hbank)) hpairs.right
          · rw [hend]
            exact hnext
          · intro n hn hlt
            rw [hend] at hn hlt
            rcases hcovered n (by omega) (by omega) with ⟨bank, hbank, hin⟩
            rcases List.mem_cons.mp hbank with rfl | hbank
            · have hupper := hin.right
              omega
            · exact ⟨bank, hbank, hin⟩

section Range

variable {banks : List FlashInfo} {memory : Memory} {src addr cnt : BitVec 32}

theorem addr2info_isSome (hlayout : Layout banks) {a : BitVec 32} {info : FlashInfo}
    (hinfo : info ∈ banks) (hknown : info.isKnown = true) (ha : info.Covers a.toNat) :
    exists i, addr2info banks a = some i := by
  apply Option.isSome_iff_exists.mp
  unfold addr2info
  rw [List.findIdx?_isSome, List.any_eq_true]
  exact ⟨info, hinfo, ((hlayout.laid info hinfo hknown).holds_iff hknown a).mpr ha⟩

theorem addr2info_covers (hlayout : Layout banks) {a : BitVec 32} {i : Nat}
    (h : addr2info banks a = some i) :
    exists info, banks[i]? = some info ∧ info.isKnown = true ∧ info.Covers a.toNat := by
  rcases addr2info_some h with ⟨info, hi, hholds⟩
  have hknown := known_of_holds hholds
  have hlaid := hlayout.laid info (List.mem_of_getElem? hi) hknown
  exact ⟨info, hi, hknown, (hlaid.holds_iff hknown a).mp hholds⟩

theorem InFlash.space (hlayout : Layout banks) (hcnt : cnt ≠ 0#32)
    (h : InFlash banks addr cnt) : addr.toNat + cnt.toNat <= 2 ^ 32 := by
  have hpos := cnt_pos hcnt
  rcases h (addr.toNat + cnt.toNat - 1) (by omega) (by omega) with ⟨info, hinfo, hknown, hin⟩
  have hspace := (hlayout.laid info hinfo hknown).space
  have hupper := hin.right
  omega

theorem InFlash.ends (hlayout : Layout banks) (hcnt : cnt ≠ 0#32)
    (h : InFlash banks addr cnt) :
    exists first last, addr2info banks addr = some first ∧
      addr2info banks (addr + cnt - 1#32) = some last ∧ first <= last := by
  have hpos := cnt_pos hcnt
  have hlast := rangeLast_toNat hcnt (h.space hlayout hcnt)
  rcases h addr.toNat (Nat.le_refl _) (by omega) with ⟨info, hinfo, hknown, hin⟩
  rcases addr2info_isSome hlayout hinfo hknown hin with ⟨first, hfirst⟩
  rcases h (addr + cnt - 1#32).toNat (by omega) (by omega) with ⟨info', hinfo', hknown', hin'⟩
  rcases addr2info_isSome hlayout hinfo' hknown' hin' with ⟨last, htop⟩
  refine ⟨first, last, hfirst, htop, ?_⟩
  apply Nat.le_of_not_lt
  intro hlt
  rcases addr2info_covers hlayout hfirst with ⟨lower, hlower, hlowerKnown, hlowerIn⟩
  rcases addr2info_covers hlayout htop with ⟨upper, hupper, hupperKnown, hupperIn⟩
  have hbefore := hlayout.before hupper hlower hlt hupperKnown hlowerKnown
  have hstart := hlowerIn.left
  have hend := hupperIn.right
  omega

theorem mem_bankSpan_index {first last : Nat} {info : FlashInfo}
    (h : info ∈ bankSpan banks first last) :
    exists i, first <= i ∧ i <= last ∧ banks[i]? = some info := by
  unfold bankSpan at h
  rcases List.getElem?_of_mem h with ⟨i, hi⟩
  rw [List.getElem?_take] at hi
  split at hi
  · rw [List.getElem?_drop] at hi
    exact ⟨first + i, by omega, by omega, hi⟩
  · exact absurd hi (by simp)

theorem bankSpan_known (hlayout : WordLayout banks) {first last : Nat} {a top : BitVec 32}
    (hfirst : addr2info banks a = some first) (hlast : addr2info banks top = some last)
    {info : FlashInfo} (h : info ∈ bankSpan banks first last) : info.isKnown = true := by
  rcases addr2info_covers hlayout.toLayout hfirst with ⟨lower, hlower, hlowerKnown, _⟩
  rcases addr2info_covers hlayout.toLayout hlast with ⟨upper, hupper, hupperKnown, _⟩
  rcases mem_bankSpan_index h with ⟨i, hge, hle, hi⟩
  cases Nat.eq_or_lt_of_le hge with
  | inl heq =>
      rw [← heq, hlower] at hi
      cases hi
      exact hlowerKnown
  | inr hlt =>
      cases Nat.eq_or_lt_of_le hle with
      | inl heq =>
          rw [heq, hupper] at hi
          cases hi
          exact hupperKnown
      | inr hgt =>
          exact hlayout.between first i last lower info upper hlt hgt hlower hi hupper
            hlowerKnown hupperKnown

theorem InFlash.chained (hlayout : WordLayout banks) (hcnt : cnt ≠ 0#32)
    (h : InFlash banks addr cnt) {first last : Nat} (hfirst : addr2info banks addr = some first)
    (hlast : addr2info banks (addr + cnt - 1#32) = some last) (hle : first <= last) :
    Chained (bankSpan banks first last) addr cnt.toNat := by
  have hknown : forall bank, bank ∈ bankSpan banks first last -> bank.isKnown = true :=
    fun bank hbank => bankSpan_known hlayout hfirst hlast hbank
  have hend := rangeLast_toNat hcnt (h.space hlayout.toLayout hcnt)
  rcases addr2info_covers hlayout.toLayout hfirst with ⟨info, hinfo, _, hin⟩
  rcases List.getElem?_eq_some_iff.mp hinfo with ⟨hlt, hget⟩
  have hspan : exists rest, bankSpan banks first last = info :: rest := by
    unfold bankSpan
    rw [List.drop_eq_getElem_cons hlt, show last + 1 - first = last - first + 1 by omega,
      List.take_succ_cons, hget]
    exact ⟨_, rfl⟩
  have hascending : (bankSpan banks first last).Pairwise
      (fun before behind => before.top <= behind.cut 0) := by
    have hsub : (bankSpan banks first last).Sublist banks :=
      (List.take_sublist _ _).trans (List.drop_sublist _ _)
    apply List.Pairwise.imp_of_mem _ (hlayout.ascending.sublist hsub)
    intro before behind hbefore hbehind hpair
    exact hpair (hknown before hbefore) (hknown behind hbehind)
  have hcovered : forall n, addr.toNat <= n -> n < addr.toNat + cnt.toNat ->
      exists bank, bank ∈ bankSpan banks first last ∧ bank.Covers n := by
    intro n hn hlt'
    rcases h n hn hlt' with ⟨bank, hbank, hbankKnown, hbankIn⟩
    have hstart := hbankIn.left
    have htop := hbankIn.right
    exact ⟨bank, bankSpan_meets hlayout.toLayout hbank hbankKnown hfirst hlast (by omega)
      (by omega), hbankIn⟩
  have hlaid : forall bank, bank ∈ bankSpan banks first last -> bank.Laid :=
    fun bank hbank => hlayout.laid bank (bankSpan_subset hbank) (hknown bank hbank)
  have haligned : forall bank, bank ∈ bankSpan banks first last -> bank.top % 4 = 0 :=
    fun bank hbank => hlayout.aligned bank (bankSpan_subset hbank) (hknown bank hbank)
  rcases hspan with ⟨rest, hspan⟩
  rw [hspan] at hlaid haligned hascending hcovered ⊢
  exact chained_of_covered rest info addr cnt.toNat hlaid haligned hascending hin hcovered

/-!
# What success means
-/

/-- What a caller of `flash_write` relies on. -/
structure WrittenInFlash (banks : List FlashInfo) (memory : Memory) (src addr cnt : BitVec 32) :
    Prop where
  inFlash : (flashWrite norChip banks memory src addr cnt).1 = errOk -> InFlash banks addr cnt
  holds : (flashWrite norChip banks memory src addr cnt).1 = errOk ->
    HoldsBytes (flashWrite norChip banks memory src addr cnt).2 addr
      (fun i => memory (src + BitVec.ofNat 32 i)) cnt.toNat
  around : (flashWrite norChip banks memory src addr cnt).1 = errOk ->
    forall a : BitVec 32, cnt.toNat <= (a - addr).toNat ->
      (flashWrite norChip banks memory src addr cnt).2 a = memory a
  rejected : ¬ InFlash banks addr cnt ->
    flashWrite norChip banks memory src addr cnt = (errInval, memory)

/-- The check of `flash_write` finds a protected sector. -/
def protectionHit (banks : List FlashInfo) (addr last : BitVec 32) : Bool :=
  match addr2info banks addr, addr2info banks last with
  | some infoFirst, some infoLast =>
      (bankSpan banks infoFirst infoLast).any (fun info => protectedIn info addr last)
  | _, _ => false

/--
A range outside of flash has an end outside of flash, and a range in flash either takes its
data, or is protected, or has a word where the check or the polling of `write_word` fails.
-/
structure EndsTell (banks : List FlashInfo) (memory : Memory) (src addr cnt : BitVec 32) :
    Prop where
  outside : ¬ InFlash banks addr cnt ->
    addr2info banks addr = none ∨ addr2info banks (addr + cnt - 1#32) = none
  inside : InFlash banks addr cnt ->
    (forall i, i < cnt.toNat -> ¬ NeedsErase memory src addr i) ∨
      protectionHit banks addr (addr + cnt - 1#32) = true ∨
      exists k, k < wordCount addr cnt.toNat ∧
        (refusedAt memory src addr cnt.toNat k = true ∨
          pollsAt memory src addr cnt.toNat k = false)

/-- A buffer succeeds if the check and the polling let all its words through. -/
theorem writeBuff_ok_iff {count : Nat} (hapart : SourceApart src addr count) :
    (writeBuff norChip memory src addr count).1 = errOk ↔
      forall k, k < wordCount addr count ->
        refusedAt memory src addr count k = false ∧ pollsAt memory src addr count k = true := by
  rw [(writeBuff_words norChip memory src addr count hapart hapart.size).left]
  rcases wordsVerdict_first norChip memory (bufferTarget memory src addr count) (wordBase addr)
    (wordCount addr count) with ⟨hok, _, hall⟩ | ⟨k, hk, _, hcode, hbad, _⟩
  · exact ⟨fun _ k hk => wordVerdict_ok_iff.mp (hall k hk), fun _ => hok⟩
  · rw [hcode]
    constructor
    · intro hok
      exact absurd hok hbad
    · intro hall
      exact wordVerdict_ok_iff.mpr (hall k hk)

theorem writeBuff_misses {count i : Nat} (hapart : SourceApart src addr count)
    (hok : (writeBuff norChip memory src addr count).1 = errOk) (hi : i < count)
    (hneeds : NeedsErase memory src addr i) :
    (writeBuff norChip memory src addr count).2 (addr + BitVec.ofNat 32 i) ≠
      memory (src + BitVec.ofNat 32 i) := by
  have hsize := hapart.size
  have hl := wordOffset_lt addr
  have hindex : wordOffset addr + i < 4 * wordCount addr count := by
    unfold wordCount
    omega
  have htarget := bufferTarget_inside memory src addr hi (by omega)
  rw [(writeBuff_programmed norChip memory src addr count hapart hsize).right hok]
  unfold programmed
  rw [addr_place addr i, offset_toNat _ (by omega), if_pos hindex, ← addr_place, htarget]
  exact hneeds

theorem flashWrite_hit (hcnt : cnt ≠ 0#32)
    (h : protectionHit banks addr (addr + cnt - 1#32) = true) :
    flashWrite norChip banks memory src addr cnt = (errProtected, memory) := by
  unfold protectionHit at h
  unfold flashWrite
  dsimp only
  rw [if_neg hcnt]
  cases hfirst : addr2info banks addr with
  | none =>
      rw [hfirst] at h
      exact absurd h Bool.false_ne_true
  | some first =>
      cases hlast : addr2info banks (addr + cnt - 1#32) with
      | none =>
          rw [hfirst, hlast] at h
          exact absurd h Bool.false_ne_true
      | some last =>
          rw [hfirst, hlast] at h
          exact if_pos h

theorem flashWrite_inval_iff (hcnt : cnt ≠ 0#32) :
    flashWrite norChip banks memory src addr cnt = (errInval, memory) ↔
      addr2info banks addr = none ∨ addr2info banks (addr + cnt - 1#32) = none := by
  unfold flashWrite
  dsimp only
  rw [if_neg hcnt]
  cases hfirst : addr2info banks addr with
  | none =>
      exact ⟨fun _ => Or.inl rfl, fun _ => rfl⟩
  | some first =>
      cases hlast : addr2info banks (addr + cnt - 1#32) with
      | none =>
          exact ⟨fun _ => Or.inr rfl, fun _ => rfl⟩
      | some last =>
          dsimp only
          constructor
          · intro h
            split at h
            · exact absurd (show errProtected = errInval from congrArg Prod.fst h) (by decide)
            · have hsmall := writeBanks_codes norChip (bankSpan banks first last) memory src
                addr cnt
              rw [h] at hsmall
              exact absurd (show errInval <= errNotErased from hsmall) (by decide)
          · rintro (h | h)
            · exact absurd h (by simp)
            · exact absurd h (by simp)

theorem InFlash.writable (hlayout : WordLayout banks) (hcnt : cnt ≠ 0#32)
    (h : InFlash banks addr cnt) (hapart : SourceApart src addr cnt.toNat)
    (hmiss : protectionHit banks addr (addr + cnt - 1#32) = false) :
    Writable banks src addr cnt := by
  rcases h.ends hlayout.toLayout hcnt with ⟨first, last, hfirst, hlast, hle⟩
  refine ⟨hapart, first, last, hfirst, hlast, ?_, h.chained hlayout hcnt hfirst hlast hle⟩
  unfold protectionHit at hmiss
  rw [hfirst, hlast] at hmiss
  exact hmiss

/--
The success of `flash_write` means that the range lies in flash and is written, exactly if
the ends of the range tell whether it lies in flash, and the check and the polling of the
words tell whether they are written.
-/
theorem flashWrite_written_iff (hlayout : WordLayout banks)
    (hapart : InFlash banks addr cnt -> SourceApart src addr cnt.toNat) :
    WrittenInFlash banks memory src addr cnt ↔ EndsTell banks memory src addr cnt := by
  by_cases hcnt : cnt = 0#32
  · subst hcnt
    have hin : InFlash banks addr 0#32 := by
      intro n hn hlt
      exact absurd hlt (Nat.not_lt.mpr hn)
    constructor
    · intro _
      exact ⟨fun hout => absurd hin hout,
        fun _ => Or.inl (fun i hi => absurd hi (Nat.not_lt_zero i))⟩
    · intro _
      exact ⟨fun _ => hin, fun _ i hi => absurd hi (Nat.not_lt_zero i), fun _ a _ => rfl,
        fun hout => absurd hin hout⟩
  · by_cases hin : InFlash banks addr cnt
    · have hapart := hapart hin
      have hkeeps : forall a : BitVec 32, cnt.toNat <= (a - addr).toNat ->
          (flashWrite norChip banks memory src addr cnt).2 a = memory a :=
        fun a ha => flashWrite_keeps banks memory src addr cnt a ha
      cases hhit : protectionHit banks addr (addr + cnt - 1#32) with
      | true =>
          have hcode := @flashWrite_hit banks memory src addr cnt hcnt hhit
          have hnot : (flashWrite norChip banks memory src addr cnt).1 ≠ errOk := by
            rw [hcode]
            show errProtected ≠ errOk
            decide
          constructor
          · intro _
            exact ⟨fun hout => absurd hin hout, fun _ => Or.inr (Or.inl hhit)⟩
          · intro _
            exact ⟨fun _ => hin, fun hok => absurd hok hnot, fun _ => hkeeps,
              fun hout => absurd hin hout⟩
      | false =>
          have hwrite := @flashWrite_writable norChip banks memory src addr cnt hcnt
            (hin.writable hlayout hcnt hapart hhit)
          constructor
          · intro h
            refine ⟨fun hout => absurd hin hout, fun _ => ?_⟩
            apply Classical.byContradiction
            intro hnone
            rw [not_or, not_or] at hnone
            have hok : (writeBuff norChip memory src addr cnt.toNat).1 = errOk := by
              rw [writeBuff_ok_iff hapart]
              intro k hk
              constructor
              · rw [← Bool.not_eq_true]
                intro hrefused
                exact hnone.right.right ⟨k, hk, Or.inl hrefused⟩
              · rw [← Bool.not_eq_false]
                intro hpolls
                exact hnone.right.right ⟨k, hk, Or.inr hpolls⟩
            apply hnone.left
            intro i hi hneeds
            have hholds := h.holds (by rw [hwrite]; exact hok) i hi
            rw [hwrite] at hholds
            exact writeBuff_misses hapart hok hi hneeds hholds
          · intro h
            refine ⟨fun _ => hin, ?_, fun _ => hkeeps, fun hout => absurd hin hout⟩
            intro hok
            rw [hwrite] at hok ⊢
            have hall := (writeBuff_ok_iff hapart).mp hok
            rcases h.inside hin with hnone | hfound | ⟨k, hk, hbad⟩
            · exact writeBuff_holds norChip memory src addr cnt.toNat hapart hapart.size
                (wordsTake_of_erased hapart.size hnone) hok
            · rw [hhit] at hfound
              exact absurd hfound (by decide)
            · rcases hall k hk with ⟨hrefused, hpolls⟩
              rw [hrefused, hpolls] at hbad
              exact absurd hbad (by decide)
    · constructor
      · intro h
        exact ⟨fun _ => (flashWrite_inval_iff hcnt).mp (h.rejected hin),
          fun hinside => absurd hinside hin⟩
      · intro h
        have hcode := (@flashWrite_inval_iff banks memory src addr cnt hcnt).mpr (h.outside hin)
        have hnot : (flashWrite norChip banks memory src addr cnt).1 ≠ errOk := by
          rw [hcode]
          show errInval ≠ errOk
          decide
        exact ⟨fun hok => absurd hok hnot, fun hok => absurd hok hnot,
          fun hok => absurd hok hnot, fun _ => hcode⟩

end Range

theorem boardBanks_wordLayout (locked : Nat -> Bool) : WordLayout (boardBanks locked) where
  toLayout := boardBanks_layout locked
  aligned := by
    intro info hinfo _
    rcases List.mem_pair.mp hinfo with rfl | rfl
    · rw [chipInfo_top rfl (by decide)]
      decide
    · rw [chipInfo_top rfl (by decide)]
      decide
  between := by
    intro i j k first second third hij hjk hi hj hk _ _
    exact boardBanks_known locked second (List.mem_of_getElem? hj)

/-- A range from the second bank around to the first one succeeds, and writes nothing. -/
theorem flashWrite_wraps :
    ¬ WrittenInFlash (boardBanks (fun _ => false)) (fun _ => 0xff#8) 0x00400000#32
      0xfffffff0#32 0xff800020#32 := by
  intro h
  have hspace := (h.inFlash (by decide)).space (boardBanks_layout _) (by decide)
  exact absurd hspace (by decide)

/-- A range of the first bank that is erased. -/
theorem flashWrite_written_erased :
    WrittenInFlash (boardBanks (fun _ => false)) (fun _ => 0xff#8) 0x00400000#32
      0xff900000#32 4#32 := by
  apply (flashWrite_written_iff (boardBanks_wordLayout _)
    (fun _ => sourceApart_low (by decide))).mpr
  constructor
  · intro hout
    apply absurd _ hout
    intro n hn hlt
    refine ⟨_, List.mem_pair.mpr (Or.inl rfl), rfl, ?_⟩
    have hlower : (0xff900000#32).toNat <= n := hn
    have hupper : n < (0xff900000#32).toNat + (4#32).toNat := hlt
    have hfirst : (0xff800000#32).toNat + 0 * 0x10000 <= (0xff900000#32).toNat := by decide
    have hlast : (0xff900000#32).toNat + (4#32).toNat <=
        (0xff800000#32).toNat + (0x00400000#32).toNat := by decide
    unfold FlashInfo.Covers
    rw [chipInfo_top rfl (by decide), chipInfo_cut rfl (by decide) (Nat.zero_le _)]
    exact ⟨Nat.le_trans hfirst hlower, Nat.lt_of_lt_of_le hupper hlast⟩
  · intro _
    left
    intro i _ hneeds
    exact hneeds BitVec.allOnes_and

end Flash
end Bab750
