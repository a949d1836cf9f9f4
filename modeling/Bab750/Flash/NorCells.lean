import Bab750.Flash.Write

/-!
# Programming sound cells

What `write_buff` does on cells that keep the bits that are programmed to one.  The check
of `write_word` looks at one byte of each word only, and compares it with another one; the
polling looks at one bit of each byte.
-/

namespace Bab750
namespace Flash

open Foundation

/-!
# The words of a buffer
-/

theorem SourceApart.size {src addr : BitVec 32} {cnt : Nat} (h : SourceApart src addr cnt) :
    cnt + 8 <= 2 ^ 32 := by
  cases cnt with
  | zero =>
      decide
  | succ n =>
      have hfirst := h 0 (Nat.zero_lt_succ n)
      rw [BitVec.add_zero] at hfirst
      have hlt := (src - wordBase addr).isLt
      have hwords : n + 1 <= 4 * wordCount addr (n + 1) := by
        unfold wordCount
        omega
      -- the byte of the source that would lie at the first word
      have hbehind : (src - wordBase addr).toNat + n < 2 ^ 32 := by
        apply Nat.lt_of_not_le
        intro hwrap
        have hback := h (2 ^ 32 - (src - wordBase addr).toNat) (by omega)
        have hmove : src + BitVec.ofNat 32 (2 ^ 32 - (src - wordBase addr).toNat) -
            wordBase addr = src - wordBase addr +
              BitVec.ofNat 32 (2 ^ 32 - (src - wordBase addr).toNat) := by
          rw [BitVec.sub_eq_add_neg, BitVec.sub_eq_add_neg]
          ac_rfl
        have hzero : (src + BitVec.ofNat 32 (2 ^ 32 - (src - wordBase addr).toNat) -
            wordBase addr).toNat = 0 := by
          rw [hmove, BitVec.toNat_add, BitVec.toNat_ofNat]
          omega
        omega
      omega

theorem wordBase_aligned (addr : BitVec 32) : (wordBase addr).toNat % 4 = 0 := by
  have hoffset := wordOffset_eq addr
  have hadd := congrArg BitVec.toNat (wordBase_add addr)
  rw [BitVec.toNat_add, BitVec.toNat_ofNat, hoffset] at hadd
  have hlt := (wordBase addr).isLt
  have hlt' := addr.isLt
  omega

theorem wordBase_place (addr : BitVec 32) (t : Nat) :
    wordBase (wordBase addr + BitVec.ofNat 32 t) =
      wordBase addr + BitVec.ofNat 32 (4 * (t / 4)) := by
  have haligned := wordBase_aligned addr
  have hplace := wordBase_add (wordBase addr + BitVec.ofNat 32 t)
  have hoffset : wordOffset (wordBase addr + BitVec.ofNat 32 t) = t % 4 := by
    rw [wordOffset_eq, BitVec.toNat_add, BitVec.toNat_ofNat]
    omega
  have hsplit : wordBase addr + BitVec.ofNat 32 t =
      wordBase addr + BitVec.ofNat 32 (4 * (t / 4)) + BitVec.ofNat 32 (t % 4) := by
    rw [add_ofNat_add, Nat.div_add_mod]
  rw [hoffset] at hplace
  conv_rhs at hplace => rw [hsplit]
  exact BitVec.add_right_inj _ |>.mp (by rw [BitVec.add_comm, hplace, BitVec.add_comm])

theorem addr_place (addr : BitVec 32) (i : Nat) :
    addr + BitVec.ofNat 32 i = wordBase addr + BitVec.ofNat 32 (wordOffset addr + i) := by
  rw [← add_ofNat_add, wordBase_add]

theorem bufferTarget_inside (memory : Memory) (src addr : BitVec 32) {cnt i : Nat}
    (hi : i < cnt) (hsize : cnt <= 2 ^ 32) :
    bufferTarget memory src addr cnt (addr + BitVec.ofNat 32 i) =
      memory (src + BitVec.ofNat 32 i) := by
  have hat : addr + BitVec.ofNat 32 i - addr = BitVec.ofNat 32 i := by
    rw [BitVec.add_comm, BitVec.add_sub_cancel]
  unfold bufferTarget
  rw [hat, if_pos]
  rw [BitVec.toNat_ofNat, Nat.mod_eq_of_lt (by omega)]
  exact hi

theorem bufferTarget_outside (memory : Memory) (src addr : BitVec 32) {cnt : Nat}
    {a : BitVec 32} (ha : cnt <= (a - addr).toNat) :
    bufferTarget memory src addr cnt a = memory a :=
  if_neg (by omega)

theorem wordsVerdict_first (chip : Chip) (memory target : Memory) (start : BitVec 32)
    (n : Nat) :
    (wordsVerdict chip memory target start n = errOk ∧
        okWords chip memory target start n = n ∧
        forall k, k < n ->
          wordVerdict chip memory target (start + BitVec.ofNat 32 (4 * k)) = errOk) ∨
      exists k, k < n ∧ okWords chip memory target start n = k ∧
        wordsVerdict chip memory target start n =
          wordVerdict chip memory target (start + BitVec.ofNat 32 (4 * k)) ∧
        wordVerdict chip memory target (start + BitVec.ofNat 32 (4 * k)) ≠ errOk ∧
        forall j, j < k ->
          wordVerdict chip memory target (start + BitVec.ofNat 32 (4 * j)) = errOk := by
  induction n generalizing start with
  | zero =>
      exact Or.inl ⟨rfl, rfl, fun k hk => absurd hk (Nat.not_lt_zero k)⟩
  | succ n ih =>
      have hhere : start + BitVec.ofNat 32 (4 * 0) = start := BitVec.add_zero _
      unfold wordsVerdict okWords
      dsimp only
      by_cases hok : wordVerdict chip memory target start = errOk
      · rw [if_pos hok, if_pos hok]
        have hcons : forall (m : Nat), (forall j, j < m -> wordVerdict chip memory target
            (start + 4#32 + BitVec.ofNat 32 (4 * j)) = errOk) ->
            forall j, j < m + 1 ->
              wordVerdict chip memory target (start + BitVec.ofNat 32 (4 * j)) = errOk := by
          intro m h j hj
          cases j with
          | zero =>
              rw [hhere]
              exact hok
          | succ j =>
              rw [← add_four_mul]
              exact h j (by omega)
        rcases ih (start + 4#32) with ⟨hcode, hcount, hall⟩ | ⟨k, hk, hcount, hcode, hbad, hall⟩
        · exact Or.inl ⟨hcode, by rw [hcount], hcons n hall⟩
        · refine Or.inr ⟨k + 1, by omega, by rw [hcount], ?_, ?_, hcons k hall⟩
          · rw [← add_four_mul]
            exact hcode
          · rw [← add_four_mul]
            exact hbad
      · rw [if_neg hok, if_neg hok]
        refine Or.inr ⟨0, Nat.zero_lt_succ n, rfl, ?_, ?_, ?_⟩
        · rw [hhere]
        · rw [hhere]
          exact hok
        · intro j hj
          exact absurd hj (Nat.not_lt_zero j)

theorem wordVerdict_ok_iff {chip : Chip} {memory target : Memory} {wp : BitVec 32} :
    wordVerdict chip memory target wp = errOk ↔
      wordRefused memory target wp = false ∧ wordPolls chip memory target wp = true := by
  rw [wordVerdict_eq]
  cases wordRefused memory target wp with
  | true =>
      simp [errOk, errNotErased]
  | false =>
      cases wordPolls chip memory target wp with
      | true =>
          simp
      | false =>
          simp [errOk, errTimout]

theorem wordVerdict_notErased_iff {chip : Chip} {memory target : Memory} {wp : BitVec 32} :
    wordVerdict chip memory target wp = errNotErased ↔
      wordRefused memory target wp = true := by
  rw [wordVerdict_eq]
  cases wordRefused memory target wp with
  | true =>
      simp
  | false =>
      cases wordPolls chip memory target wp with
      | true =>
          simp [errOk, errNotErased]
      | false =>
          simp [errTimout, errNotErased]

/-!
# What the check and the polling see
-/

/-- The byte of the buffer needs a bit that is 0 turned into 1. -/
def NeedsErase (memory : Memory) (src addr : BitVec 32) (i : Nat) : Prop :=
  memory (addr + BitVec.ofNat 32 i) &&& memory (src + BitVec.ofNat 32 i) ≠
    memory (src + BitVec.ofNat 32 i)

instance (memory : Memory) (src addr : BitVec 32) (i : Nat) :
    Decidable (NeedsErase memory src addr i) :=
  inferInstanceAs (Decidable (_ ≠ _))

/-- The check of `write_word` refuses a word of the buffer. -/
def refusedAt (memory : Memory) (src addr : BitVec 32) (cnt k : Nat) : Bool :=
  wordRefused memory (bufferTarget memory src addr cnt)
    (wordBase addr + BitVec.ofNat 32 (4 * k))

/-- Data polling ends for the bytes of a word of the buffer. -/
def pollsAt (memory : Memory) (src addr : BitVec 32) (cnt k : Nat) : Bool :=
  wordPolls norChip memory (bufferTarget memory src addr cnt)
    (wordBase addr + BitVec.ofNat 32 (4 * k))

def WordKept (memory : Memory) (src addr : BitVec 32) (cnt k : Nat) : Prop :=
  forall j, j < 4 ->
    memory (wordBase addr + BitVec.ofNat 32 (4 * k + j)) &&&
      bufferTarget memory src addr cnt (wordBase addr + BitVec.ofNat 32 (4 * k + j)) =
        memory (wordBase addr + BitVec.ofNat 32 (4 * k + j))

section Buffer

variable {memory : Memory} {src addr : BitVec 32} {cnt : Nat}

/-- A place of the words that does not take its data is a byte of the buffer. -/
theorem needsErase_of_place (hsize : cnt + 8 <= 2 ^ 32) {t : Nat} (ht : t < 2 ^ 32)
    (h : memory (wordBase addr + BitVec.ofNat 32 t) &&&
      bufferTarget memory src addr cnt (wordBase addr + BitVec.ofNat 32 t) ≠
        bufferTarget memory src addr cnt (wordBase addr + BitVec.ofNat 32 t)) :
    exists i, i < cnt ∧ wordOffset addr + i = t ∧ NeedsErase memory src addr i := by
  have hl := wordOffset_lt addr
  have hoff := toNat_sub_offset (wordBase addr + BitVec.ofNat 32 t) (wordBase addr)
    (wordOffset addr) (by omega)
  rw [wordBase_add, offset_toNat _ ht] at hoff
  by_cases hin : (wordBase addr + BitVec.ofNat 32 t - addr).toNat < cnt
  · split at hoff
    case isTrue hle =>
        have hplace : addr + BitVec.ofNat 32 (t - wordOffset addr) =
            wordBase addr + BitVec.ofNat 32 t := by
          rw [addr_place, Nat.add_sub_cancel' hle]
        refine ⟨t - wordOffset addr, by omega, by omega, ?_⟩
        have hsource : bufferTarget memory src addr cnt (wordBase addr + BitVec.ofNat 32 t) =
            memory (src + BitVec.ofNat 32 (t - wordOffset addr)) := by
          unfold bufferTarget
          rw [if_pos hin, ← hplace, BitVec.add_comm addr, BitVec.add_sub_cancel]
        rw [hsource, ← hplace] at h
        exact h
    case isFalse hfront =>
        omega
  · rw [bufferTarget_outside memory src addr (by omega), BitVec.and_self] at h
    exact absurd rfl h

theorem wordCount_le (hsize : cnt + 8 <= 2 ^ 32) :
    4 * wordCount addr cnt <= 2 ^ 32 := by
  have hl := wordOffset_lt addr
  unfold wordCount
  omega

theorem place_lt_words {i : Nat} (hi : i < cnt) :
    (wordOffset addr + i) / 4 < wordCount addr cnt := by
  unfold wordCount
  omega

theorem needsErase_of_polls (hsize : cnt + 8 <= 2 ^ 32) {k : Nat}
    (hk : k < wordCount addr cnt) (h : pollsAt memory src addr cnt k = false) :
    exists i, i < cnt ∧ (wordOffset addr + i) / 4 = k ∧ NeedsErase memory src addr i := by
  have htotal := @wordCount_le addr cnt hsize
  unfold pollsAt wordPolls at h
  rw [List.all_eq_false] at h
  rcases h with ⟨j, hj, hpoll⟩
  rw [List.mem_range] at hj
  dsimp only at hpoll
  rw [add_ofNat_add] at hpoll
  have hplace := @needsErase_of_place memory src addr cnt hsize (4 * k + j) (by omega)
  rcases hplace (fun htake => hpoll (by
    unfold norChip pollEnds
    dsimp only
    rw [htake]
    exact beq_self_eq_true _)) with ⟨i, hi, hat, hneeds⟩
  exact ⟨i, hi, by omega, hneeds⟩

theorem wordsTake_of_erased (hsize : cnt + 8 <= 2 ^ 32)
    (h : forall i, i < cnt -> ¬ NeedsErase memory src addr i) :
    WordsTake norChip memory (bufferTarget memory src addr cnt) (wordBase addr)
      (wordCount addr cnt) := by
  intro t ht
  have htotal := @wordCount_le addr cnt hsize
  apply Classical.byContradiction
  intro htake
  rcases needsErase_of_place hsize (by omega) htake with ⟨i, hi, _, hneeds⟩
  exact h i hi hneeds

theorem writeBuff_around (hapart : SourceApart src addr cnt)
    (hcode : (writeBuff norChip memory src addr cnt).1 ≠ errTimout) {a : BitVec 32}
    (ha : cnt <= (a - addr).toNat) :
    (writeBuff norChip memory src addr cnt).2 a = memory a := by
  rw [(writeBuff_words norChip memory src addr cnt hapart hapart.size).right hcode]
  unfold programmed
  split
  · rw [bufferTarget_outside memory src addr ha]
    exact BitVec.and_self
  · rfl

/-!
# Success and refusal
-/

/-- What a caller reads from the return code of `write_buff`. -/
structure SoundWrite (memory : Memory) (src addr : BitVec 32) (cnt : Nat) : Prop where
  written : (writeBuff norChip memory src addr cnt).1 = errOk ->
    HoldsBytes (writeBuff norChip memory src addr cnt).2 addr
      (fun i => memory (src + BitVec.ofNat 32 i)) cnt
  notErased : (writeBuff norChip memory src addr cnt).1 = errNotErased ↔
    exists i, i < cnt ∧ NeedsErase memory src addr i
  untouched : (writeBuff norChip memory src addr cnt).1 = errNotErased ->
    forall i, i < cnt -> NeedsErase memory src addr i ->
      forall a, wordBase a = wordBase (addr + BitVec.ofNat 32 i) ->
        (writeBuff norChip memory src addr cnt).2 a = memory a

/--
A word is refused for the sake of some byte only, and in front of such a byte there is a
word that is refused: polling ends before it, and it comes before the byte unless the word
of the byte is not changed anyway.
-/
structure ChecksSee (memory : Memory) (src addr : BitVec 32) (cnt : Nat) : Prop where
  only : forall k, k < wordCount addr cnt -> refusedAt memory src addr cnt k = true ->
    exists i, i < cnt ∧ NeedsErase memory src addr i
  seen : (exists i, i < cnt ∧ NeedsErase memory src addr i) ->
    exists k, k < wordCount addr cnt ∧ refusedAt memory src addr cnt k = true ∧
      (forall j, j < k -> pollsAt memory src addr cnt j = true) ∧
      forall i, i < cnt -> NeedsErase memory src addr i ->
        k <= (wordOffset addr + i) / 4 ∨
          WordKept memory src addr cnt ((wordOffset addr + i) / 4)

theorem writeBuff_refused (hapart : SourceApart src addr cnt)
    (h : (writeBuff norChip memory src addr cnt).1 = errNotErased) :
    exists k, k < wordCount addr cnt ∧ refusedAt memory src addr cnt k = true ∧
      (forall j, j < k -> pollsAt memory src addr cnt j = true ∧
        refusedAt memory src addr cnt j = false) ∧
      (writeBuff norChip memory src addr cnt).2 =
        programmed norChip memory (bufferTarget memory src addr cnt) (wordBase addr)
          (4 * k) := by
  rcases writeBuff_words norChip memory src addr cnt hapart hapart.size with
    ⟨hcode, hmemory⟩
  have hresult := hmemory (by rw [h]; decide)
  rw [hcode] at h
  rcases wordsVerdict_first norChip memory (bufferTarget memory src addr cnt) (wordBase addr)
    (wordCount addr cnt) with ⟨hok, _, _⟩ | ⟨k, hk, hcount, hverdict, _, hall⟩
  · rw [hok] at h
    exact absurd h (by decide)
  · rw [hverdict, wordVerdict_notErased_iff] at h
    rw [hcount] at hresult
    refine ⟨k, hk, h, ?_, hresult⟩
    intro j hj
    exact (wordVerdict_ok_iff.mp (hall j hj)).symm

theorem writeBuff_refuses (hapart : SourceApart src addr cnt) {k : Nat}
    (hk : k < wordCount addr cnt) (hrefused : refusedAt memory src addr cnt k = true)
    (hpolls : forall j, j < k -> pollsAt memory src addr cnt j = true) :
    (writeBuff norChip memory src addr cnt).1 = errNotErased := by
  rw [(writeBuff_words norChip memory src addr cnt hapart hapart.size).left]
  exact wordsVerdict_refused ⟨k, hk, hrefused, hpolls⟩

/-- A word stays as it is when a word in front of it is refused, or when it is kept. -/
theorem writeBuff_word_untouched (hapart : SourceApart src addr cnt) {k m : Nat}
    (hm : m < wordCount addr cnt)
    (hresult : (writeBuff norChip memory src addr cnt).2 =
      programmed norChip memory (bufferTarget memory src addr cnt) (wordBase addr) (4 * k))
    (h : k <= m ∨ WordKept memory src addr cnt m) {a : BitVec 32}
    (ha : wordBase a = wordBase addr + BitVec.ofNat 32 (4 * m)) :
    (writeBuff norChip memory src addr cnt).2 a = memory a := by
  have htotal := @wordCount_le addr cnt hapart.size
  have hoffset := wordOffset_lt a
  have hplace : a = wordBase addr + BitVec.ofNat 32 (4 * m + wordOffset a) := by
    rw [← add_ofNat_add, ← ha, wordBase_add]
  have hat : (a - wordBase addr).toNat = 4 * m + wordOffset a := by
    conv_lhs => rw [hplace]
    exact offset_toNat _ (by omega)
  rw [hresult]
  rcases h with hle | hkept
  · exact programmed_behind _ _ _ _ _ _ (by omega)
  · unfold programmed
    split
    · have hsame := hkept (wordOffset a) hoffset
      rw [← hplace] at hsame
      exact hsame
    · rfl

/--
`write_buff` tells the truth about its buffer exactly where the check of `write_word`,
which compares the first byte of a word with the last byte of its data, and the polling
of bit seven happen to see the bytes that are not erased.
-/
theorem writeBuff_sound_iff (hapart : SourceApart src addr cnt) :
    SoundWrite memory src addr cnt ↔ ChecksSee memory src addr cnt := by
  have hsize := hapart.size
  constructor
  · intro h
    constructor
    · intro k hk hrefused
      apply Classical.byContradiction
      intro hnone
      have hpolls : forall j, j < k -> pollsAt memory src addr cnt j = true := by
        intro j hj
        cases hpoll : pollsAt memory src addr cnt j with
        | true =>
            rfl
        | false =>
            rcases needsErase_of_polls hsize (by omega) hpoll with ⟨i, hi, _, hneeds⟩
            exact absurd ⟨i, hi, hneeds⟩ hnone
      exact hnone (h.notErased.mp (writeBuff_refuses hapart hk hrefused hpolls))
    · intro hsome
      have hcode := h.notErased.mpr hsome
      rcases writeBuff_refused hapart hcode with ⟨k, hk, hrefused, hfront, hresult⟩
      refine ⟨k, hk, hrefused, fun j hj => (hfront j hj).left, ?_⟩
      intro i hi hneeds
      cases Nat.lt_or_ge ((wordOffset addr + i) / 4) k with
      | inr hle =>
          exact Or.inl hle
      | inl hlt =>
          -- the word was programmed, and still is what it was
          refine Or.inr ?_
          intro j hj
          have hl := wordOffset_lt addr
          have htotal := @wordCount_le addr cnt hsize
          have hword : wordBase (wordBase addr +
              BitVec.ofNat 32 (4 * ((wordOffset addr + i) / 4) + j)) =
              wordBase (addr + BitVec.ofNat 32 i) := by
            rw [addr_place addr i, wordBase_place, wordBase_place]
            congr 3
            omega
          have hsame := h.untouched hcode i hi hneeds _ hword
          rw [hresult] at hsame
          unfold programmed at hsame
          rw [offset_toNat _ (by omega), if_pos (by omega)] at hsame
          exact hsame
  · intro h
    constructor
    · intro hok
      have hnone : forall i, i < cnt -> ¬ NeedsErase memory src addr i := by
        intro i hi hneeds
        rcases h.seen ⟨i, hi, hneeds⟩ with ⟨k, hk, hrefused, hpolls, _⟩
        rw [writeBuff_refuses hapart hk hrefused hpolls] at hok
        exact absurd hok (by decide)
      exact writeBuff_holds norChip memory src addr cnt hapart hsize
        (wordsTake_of_erased hsize hnone) hok
    · constructor
      · intro hcode
        rcases writeBuff_refused hapart hcode with ⟨k, hk, hrefused, _, _⟩
        exact h.only k hk hrefused
      · intro hsome
        rcases h.seen hsome with ⟨k, hk, hrefused, hpolls, _⟩
        exact writeBuff_refuses hapart hk hrefused hpolls
    · intro hcode i hi hneeds a ha
      rcases writeBuff_refused hapart hcode with ⟨m, hm, hrefused', hfront, hresult⟩
      rcases h.seen ⟨i, hi, hneeds⟩ with ⟨k, hk, hrefused, _, hplace⟩
      have hle : m <= k := by
        apply Nat.le_of_not_lt
        intro hlt
        rw [(hfront k hlt).right] at hrefused
        exact absurd hrefused (by decide)
      rw [addr_place, wordBase_place] at ha
      apply writeBuff_word_untouched hapart (place_lt_words hi) hresult _ ha
      rcases hplace i hi hneeds with hbehind | hkept
      · exact Or.inl (Nat.le_trans hle hbehind)
      · exact Or.inr hkept

end Buffer

theorem sourceApart_low {addr : BitVec 32} {cnt : Nat}
    (h : (List.range cnt).all (fun i => 4 * wordCount addr cnt <=
      (0x00400000#32 + BitVec.ofNat 32 i - wordBase addr).toNat) = true) :
    SourceApart 0x00400000#32 addr cnt := by
  intro i hi
  exact of_decide_eq_true (List.all_eq_true.mp h i (List.mem_range.mpr hi))

def zeroFlash : Memory := fun a => if a.toNat < 0x80000000 then 0x01#8 else 0x00#8

/-- A bit that stays 0 goes unnoticed. -/
theorem writeBuff_lost_bit :
    SourceApart 0x00400000#32 0xff900000#32 1 ∧
      ¬ SoundWrite zeroFlash 0x00400000#32 0xff900000#32 1 := by
  refine ⟨sourceApart_low (by decide), ?_⟩
  intro h
  have hholds := h.written (by decide) 0 (by decide)
  exact absurd hholds (by decide)

theorem writeBuff_sound_refused :
    SoundWrite zeroFlash 0x00400000#32 0xff900000#32 4 := by
  apply (writeBuff_sound_iff (sourceApart_low (by decide))).mpr
  constructor
  · intro k hk hrefused
    exact ⟨0, by decide, by decide⟩
  · intro hsome
    exact ⟨0, by decide, by decide, fun j hj => absurd hj (Nat.not_lt_zero j),
      fun i _ _ => Or.inl (Nat.zero_le _)⟩

/-!
# Erased flash
-/

structure ProgramsBuffer (memory : Memory) (src addr : BitVec 32) (cnt : Nat) : Prop where
  ok : (writeBuff norChip memory src addr cnt).1 = errOk
  holds : HoldsBytes (writeBuff norChip memory src addr cnt).2 addr
    (fun i => memory (src + BitVec.ofNat 32 i)) cnt
  around : forall a, cnt <= (a - addr).toNat ->
    (writeBuff norChip memory src addr cnt).2 a = memory a

/-- The first byte of the first word has the bits of what the last byte of it is to hold. -/
def HeadPasses (memory : Memory) (src addr : BitVec 32) (cnt : Nat) : Prop :=
  memory (wordBase addr) &&& bufferTarget memory src addr cnt (wordBase addr + 3#32) =
    bufferTarget memory src addr cnt (wordBase addr + 3#32)

instance (memory : Memory) (src addr : BitVec 32) (cnt : Nat) :
    Decidable (HeadPasses memory src addr cnt) :=
  inferInstanceAs (Decidable (_ = _))

/--
A buffer on erased flash is written exactly if it starts with its word, or the byte in
front of it happens to have the bits that the last byte of the word is to hold.
-/
theorem writeBuff_erased_iff {memory : Memory} {src addr : BitVec 32} {cnt : Nat}
    (hapart : SourceApart src addr cnt)
    (herased : forall i, i < cnt -> memory (addr + BitVec.ofNat 32 i) = 0xff#8) :
    ProgramsBuffer memory src addr cnt ↔
      wordOffset addr = 0 ∨ HeadPasses memory src addr cnt := by
  have hsize := hapart.size
  have hl := wordOffset_lt addr
  have hnone : forall i, i < cnt -> ¬ NeedsErase memory src addr i := by
    intro i hi hneeds
    apply hneeds
    rw [herased i hi]
    exact BitVec.allOnes_and
  -- the words behind the first one start with an erased byte
  have hbehind : forall k, k < wordCount addr cnt -> wordOffset addr <= 4 * k ->
      refusedAt memory src addr cnt k = false := by
    intro k hk hle
    have hplace : addr + BitVec.ofNat 32 (4 * k - wordOffset addr) =
        wordBase addr + BitVec.ofNat 32 (4 * k) := by
      rw [addr_place, Nat.add_sub_cancel' hle]
    have hindex : 4 * k - wordOffset addr < cnt := by
      unfold wordCount at hk
      omega
    have hff := herased _ hindex
    rw [hplace] at hff
    unfold refusedAt wordRefused
    rw [hff]
    exact bne_eq_false_iff_eq.mpr BitVec.allOnes_and
  have hfirst : refusedAt memory src addr cnt 0 = true ↔ ¬ HeadPasses memory src addr cnt := by
    unfold refusedAt wordRefused HeadPasses
    rw [Nat.mul_zero, BitVec.add_zero]
    exact bne_iff_ne
  constructor
  · intro h
    by_cases haligned : wordOffset addr = 0
    · exact Or.inl haligned
    · refine Or.inr ?_
      apply Classical.byContradiction
      intro hhead
      have hcode := writeBuff_refuses hapart (show 0 < wordCount addr cnt by
        unfold wordCount
        omega) (hfirst.mpr hhead) (fun j hj => absurd hj (Nat.not_lt_zero j))
      rw [h.ok] at hcode
      exact absurd hcode (by decide)
  · intro h
    have hok : (writeBuff norChip memory src addr cnt).1 = errOk := by
      have hcodes := wordsVerdict_takes (wordsTake_of_erased hsize hnone)
      rw [← (writeBuff_words norChip memory src addr cnt hapart hsize).left] at hcodes
      rcases hcodes with hok | hrefused
      · exact hok
      · rcases writeBuff_refused hapart hrefused with ⟨k, hk, hat, _, _⟩
        by_cases hle : wordOffset addr <= 4 * k
        · rw [hbehind k hk hle] at hat
          exact absurd hat (by decide)
        · have hzero : k = 0 := by omega
          subst hzero
          rcases h with haligned | hhead
          · omega
          · exact absurd hhead (hfirst.mp hat)
    refine ⟨hok, ?_, ?_⟩
    · exact writeBuff_holds norChip memory src addr cnt hapart hsize
        (wordsTake_of_erased hsize hnone) hok
    · intro a ha
      exact writeBuff_around hapart (by rw [hok]; decide) ha

def zeroByteFlash : Memory := fun a =>
  if a.toNat < 0x80000000 then 0x01#8 else if a = 0xff900000#32 then 0x00#8 else 0xff#8

/-- The byte in front of an erased range keeps it from being written. -/
theorem writeBuff_erased_refused :
    SourceApart 0x00400000#32 0xff900001#32 3 ∧
      (forall i, i < 3 -> zeroByteFlash (0xff900001#32 + BitVec.ofNat 32 i) = 0xff#8) ∧
      ¬ ProgramsBuffer zeroByteFlash 0x00400000#32 0xff900001#32 3 := by
  refine ⟨sourceApart_low (by decide), by decide, ?_⟩
  intro h
  exact absurd h.ok (by decide)

theorem writeBuff_erased_head :
    ProgramsBuffer zeroByteFlash 0x00400000#32 0xff900005#32 3 :=
  (writeBuff_erased_iff (sourceApart_low (by decide)) (by decide)).mpr (Or.inr (by decide))

end Flash
end Bab750
