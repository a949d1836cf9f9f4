import Bab750.Boot.LmbRanges

/-!
# Places for an allocation

`__lmb_alloc_base` takes the highest aligned place of a memory region that no reserved
region overlaps, and goes from the last memory region to the first.
-/

namespace Bab750
namespace Boot

open Foundation

/-!
# Alignment
-/

def PowerOfTwo (align : BitVec 32) : Prop := exists k, k < 32 ∧ align = BitVec.twoPow 32 k

variable {align addr : BitVec 32}

theorem lmbAlignDown_le (addr align : BitVec 32) : lmbAlignDown addr align <= addr := by
  rw [BitVec.le_def, lmbAlignDown, BitVec.toNat_and]
  exact Nat.and_le_left

theorem lmbAlignDown_idem (addr align : BitVec 32) :
    lmbAlignDown (lmbAlignDown addr align) align = lmbAlignDown addr align := by
  unfold lmbAlignDown
  rw [BitVec.and_assoc, BitVec.and_self]

theorem lmbAlignDown_shift (addr : BitVec 32) {k : Nat} (hk : k < 32) :
    lmbAlignDown addr (BitVec.twoPow 32 k) = addr >>> k <<< k := by
  have hmask : BitVec.twoPow 32 k - 1#32 = BitVec.ofNat 32 (2 ^ k - 1) := by
    apply BitVec.eq_of_toNat_eq
    have hpow : 2 ^ k < 2 ^ 32 := Nat.pow_lt_pow_right (by decide) hk
    have hpos : 0 < 2 ^ k := Nat.two_pow_pos k
    rw [BitVec.toNat_sub, BitVec.toNat_twoPow, Nat.mod_eq_of_lt hpow]
    simp only [BitVec.toNat_ofNat]
    omega
  unfold lmbAlignDown
  rw [hmask]
  apply BitVec.eq_of_getLsbD_eq
  intro i hi
  rw [BitVec.getLsbD_and, BitVec.getLsbD_not, BitVec.getLsbD_ofNat, Nat.testBit_two_pow_sub_one,
    BitVec.getLsbD_shiftLeft, BitVec.getLsbD_ushiftRight]
  by_cases hlt : i < k
  · simp [hi, hlt]
  · simp [hi, hlt, Nat.add_sub_cancel' (Nat.not_lt.1 hlt)]

theorem toNat_lmbAlignDown (addr : BitVec 32) {k : Nat} (hk : k < 32) :
    (lmbAlignDown addr (BitVec.twoPow 32 k)).toNat = addr.toNat / 2 ^ k * 2 ^ k := by
  rw [lmbAlignDown_shift addr hk, BitVec.toNat_shiftLeft, BitVec.toNat_ushiftRight,
    Nat.shiftRight_eq_div_pow, Nat.shiftLeft_eq]
  apply Nat.mod_eq_of_lt
  exact Nat.lt_of_le_of_lt (Nat.div_mul_le_self _ _) addr.isLt

theorem toNat_twoPow {k : Nat} (hk : k < 32) : (BitVec.twoPow 32 k).toNat = 2 ^ k := by
  rw [BitVec.toNat_twoPow]
  exact Nat.mod_eq_of_lt (Nat.pow_lt_pow_right (by decide) hk)

theorem dvd_of_aligned (halign : PowerOfTwo align) (h : lmbAlignDown addr align = addr) :
    align.toNat ∣ addr.toNat := by
  obtain ⟨k, hk, rfl⟩ := halign
  rw [← h, toNat_lmbAlignDown addr hk, toNat_twoPow hk]
  exact Nat.dvd_mul_left _ _

theorem le_lmbAlignDown (halign : PowerOfTwo align) {place : BitVec 32}
    (h : lmbAlignDown place align = place) (hle : place <= addr) :
    place <= lmbAlignDown addr align := by
  obtain ⟨k, hk, rfl⟩ := halign
  rw [BitVec.le_def] at hle ⊢
  rw [← h, toNat_lmbAlignDown place hk, toNat_lmbAlignDown addr hk]
  exact Nat.mul_le_mul_right _ (Nat.div_le_div_right hle)

/-- A size is rounded up when an aligned address is in front of its end. -/
theorem le_lmbAlignUp {size : BitVec 32} (halign : PowerOfTwo align)
    (h : lmbAlignDown addr align = addr) (hne : addr ≠ 0#32)
    (hlimit : addr.toNat + size.toNat < addressLimit) :
    size.toNat <= (lmbAlignUp size align).toNat := by
  have hdvd := dvd_of_aligned halign h
  obtain ⟨k, hk, rfl⟩ := halign
  rw [toNat_twoPow hk] at hdvd
  have hle : 2 ^ k <= addr.toNat := Nat.le_of_dvd (Nat.pos_of_ne_zero
    (fun hzero => hne (BitVec.eq_of_toNat_eq hzero))) hdvd
  have hpos : 0 < 2 ^ k := Nat.two_pow_pos k
  have hsum : (size + (BitVec.twoPow 32 k - 1#32)).toNat = size.toNat + (2 ^ k - 1) := by
    have hsub : (BitVec.twoPow 32 k - 1#32).toNat = 2 ^ k - 1 := by
      have hlt := addr.isLt
      rw [BitVec.toNat_sub, toNat_twoPow hk]
      simp only [BitVec.toNat_ofNat]
      omega
    unfold addressLimit at hlimit
    rw [BitVec.toNat_add, hsub]
    omega
  show size.toNat <=
    (lmbAlignDown (size + (BitVec.twoPow 32 k - 1#32)) (BitVec.twoPow 32 k)).toNat
  rw [toNat_lmbAlignDown _ hk, hsum]
  have hmod := Nat.mod_lt (size.toNat + (2 ^ k - 1)) hpos
  have hdiv := Nat.div_add_mod (size.toNat + (2 ^ k - 1)) (2 ^ k)
  rw [Nat.mul_comm] at hdiv
  omega

/-!
# Places
-/

def LmbRegion.entries (rgn : LmbRegion) : List LmbProperty := rgn.region.take rgn.cnt.toNat

def LmbRegion.ranges (rgn : LmbRegion) : List Range := rangesOf rgn.entries

/-- The memory region is large enough, and starts below the limit. -/
def Searched (size maxAddr : BitVec 32) (region : Range) : Prop :=
  size.toNat <= region.size ∧ (maxAddr = lmbAllocAnywhere ∨ region.start < maxAddr.toNat)

def searchTop (maxAddr : BitVec 32) (region : Range) : Nat :=
  if maxAddr = lmbAllocAnywhere then region.stop else min region.stop maxAddr.toNat

/-- The area at an address is apart from the reserved regions. -/
def Free (reserved : List Range) (size addr : BitVec 32) : Prop :=
  forall s, s ∈ reserved -> (Range.mk addr.toNat size.toNat).Apart s

theorem searchTop_le (maxAddr : BitVec 32) (region : Range) :
    searchTop maxAddr region <= region.stop := by
  unfold searchTop
  split
  · exact Nat.le_refl _
  · exact Nat.min_le_left _ _

/-- An aligned address in a memory region with a free area. -/
structure Place (reserved : List Range) (size align maxAddr : BitVec 32) (region : Range)
    (addr : BitVec 32) : Prop where
  aligned : lmbAlignDown addr align = addr
  ne_zero : addr ≠ 0#32
  lower : region.start <= addr.toNat
  upper : addr.toNat + size.toNat <= searchTop maxAddr region
  free : Free reserved size addr

/-- The highest place in the last memory region that has one. -/
def Picked (lmb : Lmb) (size align maxAddr addr : BitVec 32) : Prop :=
  exists front region back, lmb.memory.ranges = front ++ region :: back ∧
    Searched size maxAddr region ∧
    Place lmb.reserved.ranges size align maxAddr region addr ∧
    (forall other, Place lmb.reserved.ranges size align maxAddr region other -> other <= addr) ∧
    forall next, next ∈ back -> Searched size maxAddr next ->
      forall other, ¬ Place lmb.reserved.ranges size align maxAddr next other

theorem Shows.entries_eq {rgn : LmbRegion} {entries : List LmbProperty}
    (h : Shows rgn entries) : rgn.entries = entries := by
  obtain ⟨stale, hregion⟩ := h.front
  unfold LmbRegion.entries
  rw [hregion, h.count, List.take_left]

variable {rgn : LmbRegion} {entries : List LmbProperty} {base size maxAddr : BitVec 32}

theorem lmbAddrsOverlap_iff (first : LmbProperty)
    (hlimit : base.toNat + size.toNat < addressLimit)
    (hfirst : first.range.stop < addressLimit) :
    lmbAddrsOverlap base size first.base first.size = true <->
      ¬ (Range.mk base.toNat size.toNat).Apart first.range := by
  unfold lmbAddrsOverlap Range.Apart
  rw [Bool.and_eq_true, decide_eq_true_iff, decide_eq_true_iff, BitVec.lt_def, BitVec.lt_def,
    toNat_stop hlimit, toNat_stop hfirst, not_or, Nat.not_le, Nat.not_le, and_comm]
  exact Iff.rfl

theorem overlapsLoop_spec (hlimit : base.toNat + size.toNat < addressLimit)
    (entries stale : List LmbProperty)
    (hbelow : Below addressLimit (rangesOf entries)) :
    forall j, (overlapsLoop base size entries.length j (entries ++ stale) = some none ∧
        Free (rangesOf entries) size base) ∨
      exists place found, overlapsLoop base size entries.length j (entries ++ stale) =
          some (some (place, found)) ∧ found ∈ entries ∧
        ¬ (Range.mk base.toNat size.toNat).Apart found.range := by
  induction entries with
  | nil =>
      intro j
      exact Or.inl ⟨rfl, fun s hs => nomatch hs⟩
  | cons entry entries ih =>
      intro j
      obtain ⟨hentry, hrest⟩ := below_cons.1 hbelow
      have hoverlap := lmbAddrsOverlap_iff entry hlimit hentry
      rw [List.length_cons, List.cons_append]
      unfold overlapsLoop
      by_cases hfound : lmbAddrsOverlap base size entry.base entry.size = true
      · rw [if_pos hfound]
        exact Or.inr ⟨j, entry, rfl, List.mem_cons_self, hoverlap.1 hfound⟩
      · rw [if_neg hfound]
        rcases ih hrest (j + 1) with ⟨hloop, hfree⟩ | ⟨place, found, hloop, hmem, hover⟩
        · refine Or.inl ⟨hloop, fun s hs => ?_⟩
          rcases List.mem_cons.1 hs with rfl | hs
          · exact not_not.1 (fun h => hfound (hoverlap.2 h))
          · exact hfree s hs
        · exact Or.inr ⟨place, found, hloop, List.mem_cons_of_mem entry hmem, hover⟩

/-- What the inner loop of `__lmb_alloc_base` does with a place that it takes. -/
def takePlace (reserved : LmbRegion) (size align addr : BitVec 32) : Option Placed :=
  (lmbAddRegion reserved addr (lmbAlignUp size align)).map (fun added =>
    if added.1 < 0 then .full else .taken addr added.2)

/-- A place that is not above one that overlaps a region is free in front of the region. -/
theorem free_front {found : LmbProperty} (hmem : found.range ∈ rangesOf entries)
    (hover : ¬ (Range.mk base.toNat size.toNat).Apart found.range) {other : BitVec 32}
    (hle : other <= base) (hfree : Free (rangesOf entries) size other) :
    other.toNat + size.toNat <= found.base.toNat := by
  have hapart := hfree found.range hmem
  have hstart : found.range.start = found.base.toNat := rfl
  unfold Range.Apart at hover hapart
  rw [Range.stop_eq, hstart] at hover hapart
  dsimp only at hover hapart
  rw [BitVec.le_def] at hle
  omega

theorem placeLoop_spec (hshows : Shows rgn entries)
    (hbelow : Below addressLimit (rangesOf entries)) (lmbbase : BitVec 32) :
    forall (fuel : Nat) (base : BitVec 32), base.toNat < fuel ->
      base.toNat + size.toNat < addressLimit -> lmbAlignDown base align = base ->
      (placeLoop rgn lmbbase size align fuel base = some .next ∧
        (PowerOfTwo align -> forall other, lmbAlignDown other align = other -> other ≠ 0#32 ->
          lmbbase <= other -> other <= base -> ¬ Free (rangesOf entries) size other)) ∨
      exists addr, placeLoop rgn lmbbase size align fuel base =
          takePlace rgn size align addr ∧
        lmbAlignDown addr align = addr ∧ addr ≠ 0#32 ∧ lmbbase <= addr ∧ addr <= base ∧
        Free (rangesOf entries) size addr ∧
        (PowerOfTwo align -> forall other, lmbAlignDown other align = other ->
          lmbbase <= other -> other <= base -> Free (rangesOf entries) size other ->
          other <= addr) := by
  intro fuel
  induction fuel with
  | zero =>
      intro base h
      exact absurd h (Nat.not_lt_zero _)
  | succ fuel ih =>
      intro base hfuel hlimit haligned
      unfold placeLoop
      by_cases hinside : base ≠ 0#32 ∧ lmbbase <= base
      · rw [if_pos hinside]
        obtain ⟨stale, hregion⟩ := hshows.front
        have hoverlaps : lmbOverlapsRegion rgn base size =
            overlapsLoop base size entries.length 0 (entries ++ stale) := by
          unfold lmbOverlapsRegion
          rw [hshows.count, hregion]
        rw [hoverlaps]
        rcases overlapsLoop_spec hlimit entries stale hbelow 0 with ⟨hloop, hfree⟩ |
          ⟨place, found, hloop, hmem, hover⟩
        · rw [hloop]
          exact Or.inr ⟨base, rfl, haligned, hinside.1, hinside.2, BitVec.le_refl base, hfree,
            fun _ _ _ _ hle _ => hle⟩
        · rw [hloop]
          dsimp only
          have hfoundRange : found.range ∈ rangesOf entries := List.mem_map.2 ⟨found, hmem, rfl⟩
          -- a place above the next base would overlap the same region
          have hskip : forall other, other <= base -> Free (rangesOf entries) size other ->
              other.toNat + size.toNat <= found.base.toNat :=
            fun other hle hfree => free_front hfoundRange hover hle hfree
          have hstart : found.base.toNat < base.toNat + size.toNat := by
            unfold Range.Apart at hover
            rw [not_or, Nat.not_le, Nat.not_le] at hover
            exact hover.1
          by_cases hlow : found.base < size
          · rw [if_pos hlow]
            refine Or.inl ⟨rfl, fun _ other _ _ _ hle hfree => ?_⟩
            have hsum := hskip other hle hfree
            rw [BitVec.lt_def] at hlow
            omega
          · rw [if_neg hlow]
            have hle : size.toNat <= found.base.toNat := Nat.not_lt.1
              (fun h => hlow (BitVec.lt_def.2 h))
            have hsub : (found.base - size).toNat = found.base.toNat - size.toNat :=
              BitVec.toNat_sub_of_le (BitVec.le_def.2 hle)
            have hnext : (lmbAlignDown (found.base - size) align).toNat <=
                found.base.toNat - size.toNat := by
              rw [← hsub]
              exact BitVec.le_def.1 (lmbAlignDown_le _ _)
            have hbelowNext : forall other, PowerOfTwo align ->
                lmbAlignDown other align = other -> other <= base ->
                Free (rangesOf entries) size other ->
                other <= lmbAlignDown (found.base - size) align := by
              intro other halign hother hotherLe hfree
              apply le_lmbAlignDown halign hother
              rw [BitVec.le_def, hsub]
              have hsum := hskip other hotherLe hfree
              omega
            have hnextLe : lmbAlignDown (found.base - size) align <= base := by
              rw [BitVec.le_def]
              omega
            rcases ih (lmbAlignDown (found.base - size) align) (by omega) (by omega)
              (lmbAlignDown_idem _ _) with ⟨hplace, hnone⟩ |
              ⟨addr, hplace, haddr, hne, hlower, hupper, hfree, hhighest⟩
            · refine Or.inl ⟨hplace, fun halign other hother hotherNe hotherLower hotherLe
                hotherFree => ?_⟩
              exact hnone halign other hother hotherNe hotherLower
                (hbelowNext other halign hother hotherLe hotherFree) hotherFree
            · refine Or.inr ⟨addr, hplace, haddr, hne, hlower, BitVec.le_trans hupper hnextLe,
                hfree, fun halign other hother hotherLower hotherLe hotherFree => ?_⟩
              exact hhighest halign other hother hotherLower
                (hbelowNext other halign hother hotherLe hotherFree) hotherFree
      · rw [if_neg hinside]
        refine Or.inl ⟨rfl, fun _ other _ hne hlower hle _ => ?_⟩
        apply hinside
        refine ⟨?_, BitVec.le_trans hlower hle⟩
        rintro rfl
        exact hne (BitVec.eq_of_toNat_eq (Nat.le_zero.1 (BitVec.le_def.1 hle)))

/-- What `__lmb_alloc_base` does with a place that it takes. -/
def takeAlloc (lmb : Lmb) (size align addr : BitVec 32) : Option (BitVec 32 × Lmb) :=
  (lmbAddRegion lmb.reserved addr (lmbAlignUp size align)).map (fun added =>
    if added.1 < 0 then (0#32, lmb) else (addr, { lmb with reserved := added.2 }))

/-- The start of the search in a memory region: its highest aligned address. -/
def searchStart (size align maxAddr : BitVec 32) (memory : LmbProperty) : BitVec 32 :=
  if maxAddr = lmbAllocAnywhere then lmbAlignDown (memory.base + memory.size - size) align
  else
    lmbAlignDown ((if memory.base + memory.size < maxAddr then memory.base + memory.size
      else maxAddr) - size) align

theorem searchStart_spec (memory : LmbProperty) (align : BitVec 32)
    (hmemory : memory.range.stop < addressLimit)
    (htop : size.toNat <= searchTop maxAddr memory.range) :
    lmbAlignDown (searchStart size align maxAddr memory) align =
        searchStart size align maxAddr memory ∧
      (searchStart size align maxAddr memory).toNat + size.toNat <=
        searchTop maxAddr memory.range ∧
      (PowerOfTwo align -> forall other, lmbAlignDown other align = other ->
        other.toNat + size.toNat <= searchTop maxAddr memory.range ->
        other <= searchStart size align maxAddr memory) := by
  -- the start is a top of the search, less the size and aligned down
  obtain ⟨top, htopNat, hstart⟩ : exists top : BitVec 32,
      top.toNat = searchTop maxAddr memory.range ∧
        searchStart size align maxAddr memory = lmbAlignDown (top - size) align := by
    have hstop := toNat_stop hmemory
    unfold searchStart searchTop
    by_cases hany : maxAddr = lmbAllocAnywhere
    · rw [if_pos hany, if_pos hany]
      exact ⟨_, hstop, rfl⟩
    · rw [if_neg hany, if_neg hany]
      refine ⟨_, ?_, rfl⟩
      have hrange : memory.range.stop = memory.base.toNat + memory.size.toNat := rfl
      by_cases hlt : memory.base + memory.size < maxAddr
      · rw [if_pos hlt, hstop, hrange]
        rw [BitVec.lt_def, hstop] at hlt
        omega
      · rw [if_neg hlt, hrange]
        rw [BitVec.lt_def, hstop] at hlt
        omega
  rw [← htopNat] at htop ⊢
  rw [hstart]
  have hsub : (top - size).toNat = top.toNat - size.toNat :=
    BitVec.toNat_sub_of_le (BitVec.le_def.2 htop)
  have hle := BitVec.le_def.1 (lmbAlignDown_le (top - size) align)
  refine ⟨lmbAlignDown_idem _ _, by omega, fun halign other hother hupper => ?_⟩
  apply le_lmbAlignDown halign hother
  rw [BitVec.le_def, hsub]
  omega

variable {lmb : Lmb}

/-- What the search comes to: nothing, or a place in a region of the first list. -/
def AllocFinds (lmb : Lmb) (reserved : List Range) (size align maxAddr : BitVec 32)
    (memory back : List LmbProperty) (result : Option (BitVec 32 × Lmb)) : Prop :=
  result = some (0#32, lmb) ∨
    exists addr, result = takeAlloc lmb size align addr ∧
      exists front region rest, rangesOf (memory ++ back) = front ++ region :: rest ∧
        region ∈ rangesOf memory ∧ Searched size maxAddr region ∧
        Place reserved size align maxAddr region addr ∧
        (PowerOfTwo align ->
          (forall other, Place reserved size align maxAddr region other -> other <= addr) ∧
          forall next, next ∈ rest -> Searched size maxAddr next ->
            forall other, ¬ Place reserved size align maxAddr next other)

theorem searched_iff (memory : LmbProperty) : Searched size maxAddr memory.range <->
    ¬ memory.size < size ∧ ¬ (maxAddr ≠ lmbAllocAnywhere ∧ maxAddr <= memory.base) := by
  unfold Searched
  rw [BitVec.lt_def, Nat.not_lt, not_and_or, not_not, BitVec.le_def, Nat.not_le]
  exact Iff.rfl

theorem allocLoop_spec (hreserved : Shows lmb.reserved entries)
    (hbelow : Below addressLimit (rangesOf entries)) (memory back : List LmbProperty) :
    forall stale, lmb.memory.region = memory ++ stale ->
      Below addressLimit (rangesOf memory) ->
      (forall region, region ∈ rangesOf memory -> Searched size maxAddr region ->
        size.toNat <= searchTop maxAddr region) ->
      (PowerOfTwo align -> forall next, next ∈ rangesOf back -> Searched size maxAddr next ->
        forall other, ¬ Place (rangesOf entries) size align maxAddr next other) ->
      AllocFinds lmb (rangesOf entries) size align maxAddr memory back
        (allocLoop lmb size align maxAddr memory.length) := by
  induction memory using List.reverseRecOn generalizing back with
  | nil =>
      intro stale _ _ _ _
      exact Or.inl rfl
  | append_singleton memory last ih =>
      intro stale hregion hmemory hsearch hback
      rw [rangesOf_append] at hmemory hsearch
      have hlastRange : last.range ∈ rangesOf memory ++ rangesOf [last] :=
        List.mem_append_right _ List.mem_cons_self
      have hlast := hmemory last.range hlastRange
      have hget : lmb.memory.region[memory.length]? = some last := by
        rw [hregion, List.append_assoc, getElem?_place]
        rfl
      -- the loop goes on when the last region has no place
      have hgoOn : (PowerOfTwo align -> Searched size maxAddr last.range ->
            forall other, ¬ Place (rangesOf entries) size align maxAddr last.range other) ->
          AllocFinds lmb (rangesOf entries) size align maxAddr (memory ++ [last]) back
            (allocLoop lmb size align maxAddr memory.length) := by
        intro hnone
        have hfront : lmb.memory.region = memory ++ ([last] ++ stale) := by
          rw [hregion, List.append_assoc]
        have hbehind : PowerOfTwo align -> forall next, next ∈ rangesOf (last :: back) ->
            Searched size maxAddr next ->
            forall other, ¬ Place (rangesOf entries) size align maxAddr next other := by
          intro halign next hnext
          rcases List.mem_cons.1 hnext with rfl | hnext
          · exact hnone halign
          · exact hback halign next hnext
        rcases ih (last :: back) ([last] ++ stale) hfront
          (fun s hs => hmemory s (List.mem_append_left _ hs))
          (fun s hs => hsearch s (List.mem_append_left _ hs)) hbehind with hzero |
          ⟨addr, hloop, front, region, rest, hsplit, hmem, hplace⟩
        · exact Or.inl hzero
        · refine Or.inr ⟨addr, hloop, front, region, rest, ?_, ?_, hplace⟩
          · rw [← hsplit, List.append_assoc]
            rfl
          · rw [rangesOf_append]
            exact List.mem_append_left _ hmem
      rw [List.length_append, List.length_singleton, allocLoop, hget]
      dsimp only
      by_cases hsmall : last.size < size
      · rw [if_pos hsmall]
        exact hgoOn (fun _ hsearched => absurd hsmall ((searched_iff last).1 hsearched).1)
      rw [if_neg hsmall]
      by_cases hhigh : maxAddr ≠ lmbAllocAnywhere ∧ maxAddr <= last.base
      · rw [if_pos hhigh]
        exact hgoOn (fun _ hsearched => absurd hhigh ((searched_iff last).1 hsearched).2)
      rw [if_neg hhigh]
      have hsearched : Searched size maxAddr last.range :=
        (searched_iff last).2 ⟨hsmall, hhigh⟩
      have htop := hsearch last.range hlastRange hsearched
      obtain ⟨haligned, hupper, hhighest⟩ := searchStart_spec last align hlast htop
      have hstop : searchTop maxAddr last.range < addressLimit :=
        Nat.lt_of_le_of_lt (searchTop_le _ _) hlast
      rw [show (if maxAddr = lmbAllocAnywhere then
            lmbAlignDown (last.base + last.size - size) align
          else lmbAlignDown ((if last.base + last.size < maxAddr then last.base + last.size
            else maxAddr) - size) align) = searchStart size align maxAddr last from rfl]
      rcases placeLoop_spec hreserved hbelow last.base _ _ (Nat.lt_succ_self _)
        (Nat.lt_of_le_of_lt hupper hstop) haligned with ⟨hplace, hnone⟩ |
        ⟨addr, hplace, haddr, hne, hlower, hle, hfree, hmax⟩
      · rw [hplace]
        refine hgoOn (fun halign _ other hother => ?_)
        exact hnone halign other hother.aligned hother.ne_zero (BitVec.le_def.2 hother.lower)
          (hhighest halign other hother.aligned hother.upper) hother.free
      · rw [hplace]
        right
        refine ⟨addr, ?_, rangesOf memory, last.range, rangesOf back, ?_, ?_, hsearched,
          ⟨haddr, hne, BitVec.le_def.1 hlower, ?_, hfree⟩, fun halign => ⟨?_, hback halign⟩⟩
        · unfold takePlace takeAlloc
          cases lmbAddRegion lmb.reserved addr (lmbAlignUp size align) with
          | none =>
              rfl
          | some added =>
              dsimp only [Option.map_some]
              by_cases hcode : added.1 < 0
              · rw [if_pos hcode, if_pos hcode]
              · rw [if_neg hcode, if_neg hcode]
        · rw [rangesOf_append, rangesOf_append, List.append_assoc]
          rfl
        · rw [rangesOf_append]
          exact hlastRange
        · have hle := BitVec.le_def.1 hle
          omega
        · intro other hother
          exact hmax halign other hother.aligned (BitVec.le_def.2 hother.lower)
            (hhighest halign other hother.aligned hother.upper) hother.free

/-- `lmb_alloc_base` finds nothing, or takes a place; with an alignment to a power of two
this is the highest one. -/
theorem lmbAllocBase_spec {memory : List LmbProperty} (hmemory : Shows lmb.memory memory)
    (hreserved : Shows lmb.reserved entries) (hne : memory ≠ [])
    (hbelow : Below addressLimit (rangesOf entries))
    (hmemoryBelow : Below addressLimit (rangesOf memory))
    (hsearch : forall region, region ∈ rangesOf memory -> Searched size maxAddr region ->
      size.toNat <= searchTop maxAddr region) :
    lmbAllocBase lmb size align maxAddr = some (0#32, lmb) ∨
      exists addr, lmbAllocBase lmb size align maxAddr = takeAlloc lmb size align addr ∧
        (exists region, region ∈ rangesOf memory ∧ Searched size maxAddr region ∧
          Place (rangesOf entries) size align maxAddr region addr) ∧
        (PowerOfTwo align -> Picked lmb size align maxAddr addr) := by
  have hcount := hmemory.count
  have hslots := hmemory.slots
  obtain ⟨stale, hregion⟩ := hmemory.front
  have hpos : 0 < memory.length := List.length_pos_iff.2 hne
  have hturns : ((lmb.memory.cnt - 1#32).toInt + 1).toNat = memory.length := by
    rw [hregion, List.length_append] at hslots
    rw [turns_eq (by omega) (by omega), hcount]
  unfold lmbAllocBase
  rw [hturns]
  rcases allocLoop_spec hreserved hbelow memory [] stale hregion hmemoryBelow hsearch
    (fun _ next hnext => nomatch hnext) with hzero |
    ⟨addr, hloop, front, region, rest, hsplit, hmem, hsearched, hplace, hpicked⟩
  · exact Or.inl hzero
  · refine Or.inr ⟨addr, hloop, ⟨region, hmem, hsearched, hplace⟩, fun halign => ?_⟩
    unfold Picked LmbRegion.ranges
    rw [hmemory.entries_eq, hreserved.entries_eq]
    rw [List.append_nil] at hsplit
    exact ⟨front, region, rest, hsplit, hsearched, hplace, (hpicked halign).1,
      (hpicked halign).2⟩

end Boot
end Bab750
