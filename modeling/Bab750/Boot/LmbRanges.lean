import Bab750.Boot.Lmb
import Bab750.Foundation.RangeTable

/-!
# The ranges of a table of memory blocks

The functions on a table do to its entries what the operations on tables of ranges do, as
long as no region wraps.
-/

namespace Bab750
namespace Boot

open Foundation

def addressLimit : Nat := 0x100000000

/-!
# The ranges of a table
-/

def LmbProperty.range (entry : LmbProperty) : Range := ⟨entry.base.toNat, entry.size.toNat⟩

def rangesOf (entries : List LmbProperty) : List Range := entries.map LmbProperty.range

/-- The entries of a table, in front of the unused places of its array. -/
structure Shows (rgn : LmbRegion) (entries : List LmbProperty) : Prop where
  count : rgn.cnt.toNat = entries.length
  slots : rgn.region.length = maxLmbRegions + 1
  front : exists stale, rgn.region = entries ++ stale

variable {rgn : LmbRegion} {entries front back stale : List LmbProperty}
  {entry next : LmbProperty} {base size : BitVec 32} {r : Range}

theorem range_injective : Function.Injective LmbProperty.range := by
  intro first second h
  unfold LmbProperty.range at h
  rw [Range.mk.injEq] at h
  cases first
  cases second
  congr 1
  · exact BitVec.eq_of_toNat_eq h.1
  · exact BitVec.eq_of_toNat_eq h.2

theorem toNat_stop (h : base.toNat + size.toNat < addressLimit) :
    (base + size).toNat = base.toNat + size.toNat := by
  rw [BitVec.toNat_add]
  exact Nat.mod_eq_of_lt h

theorem lmbAddrsAdjacent_eq (first second : LmbProperty)
    (hfirst : first.range.stop < addressLimit) (hsecond : second.range.stop < addressLimit) :
    lmbAddrsAdjacent first.base first.size second.base second.size =
      if first.range.stop = second.range.start then 1
      else if second.range.stop = first.range.start then -1
      else 0 := by
  unfold lmbAddrsAdjacent
  have hfront : second.base = first.base + first.size <->
      first.range.stop = second.range.start := by
    rw [← BitVec.toNat_inj, toNat_stop hfirst]
    exact eq_comm
  have hback : first.base = second.base + second.size <->
      second.range.stop = first.range.start := by
    rw [← BitVec.toNat_inj, toNat_stop hsecond]
    exact eq_comm
  simp only [hfront, hback]

theorem adjacent_iff (first second : LmbProperty)
    (hfirst : first.range.stop < addressLimit) (hsecond : second.range.stop < addressLimit) :
    lmbAddrsAdjacent first.base first.size second.base second.size ≠ 0 <->
      first.range.Touches second.range := by
  rw [lmbAddrsAdjacent_eq first second hfirst hsecond]
  unfold Range.Touches
  split
  · simp [*]
  · split
    · simp [*]
    · simp [*]

theorem grown_front (hr : (LmbProperty.mk base size).range = r)
    (hfront : r.stop = entry.range.start)
    (hlimit : entry.range.start + entry.range.size < addressLimit) :
    (LmbProperty.mk (entry.base - size) (entry.size + size)).range =
      ⟨r.start, entry.range.size + r.size⟩ := by
  subst hr
  unfold LmbProperty.range Range.stop addressLimit at *
  dsimp only at *
  rw [BitVec.toNat_sub, BitVec.toNat_add]
  congr 1
  · omega
  · omega

theorem grown_back (hr : (LmbProperty.mk base size).range = r)
    (hback : entry.range.stop = r.start) (hlimit : r.start + r.size < addressLimit) :
    (LmbProperty.mk entry.base (entry.size + size)).range =
      ⟨entry.range.start, entry.range.size + r.size⟩ := by
  subst hr
  unfold LmbProperty.range Range.stop addressLimit at *
  dsimp only at *
  rw [BitVec.toNat_add]
  congr 1
  omega

/-- The first loop of `lmb_add_region` is the growth of the ranges, up to the merge. -/
theorem coalesceLoop_spec (hr : (LmbProperty.mk base size).range = r)
    (hlimit : r.stop < addressLimit) (entries stale : List LmbProperty)
    (hbelow : Below addressLimit (rangesOf entries)) :
    (coalesceLoop base size entries.length (entries ++ stale) = some .passed ∧
        grow r (rangesOf entries) = none) ∨
      (coalesceLoop base size entries.length (entries ++ stale) = some .known ∧
        grow r (rangesOf entries) = some (rangesOf entries)) ∨
      exists front new back, entries.length = front.length + back.length + 1 ∧
        coalesceLoop base size entries.length (entries ++ stale) =
          some (.grown front.length (front ++ new :: (back ++ stale))) ∧
        new.range.stop < addressLimit ∧ Below addressLimit (rangesOf back) ∧
        grow r (rangesOf entries) =
          some (rangesOf front ++ mergeNext (new.range :: rangesOf back)) := by
  induction entries with
  | nil =>
      exact Or.inl ⟨rfl, rfl⟩
  | cons entry entries ih =>
      obtain ⟨hentry, hrest⟩ := below_cons.1 hbelow
      have hadjacent := lmbAddrsAdjacent_eq ⟨base, size⟩ entry (hr ▸ hlimit) hentry
      dsimp only at hadjacent
      rw [hr] at hadjacent
      rw [show rangesOf (entry :: entries) = entry.range :: rangesOf entries from rfl]
      rw [List.length_cons, List.cons_append]
      unfold coalesceLoop grow
      rw [hadjacent]
      have hsame : (entry.base = base ∧ entry.size = size) <-> entry.range = r := by
        rw [← hr]
        constructor
        · rintro ⟨rfl, rfl⟩
          rfl
        · intro h
          cases range_injective h
          exact ⟨rfl, rfl⟩
      by_cases hknown : entry.range = r
      · rw [if_pos (hsame.2 hknown), if_pos hknown]
        exact Or.inr (Or.inl ⟨rfl, rfl⟩)
      rw [if_neg (fun h => hknown (hsame.1 h)), if_neg hknown]
      have hstop : r.start + r.size < addressLimit := hlimit
      have hentryStop : entry.range.start + entry.range.size < addressLimit := hentry
      by_cases hfront : r.stop = entry.range.start
      · have htouch : r.Touches entry.range := Or.inl hfront
        have hnew : (LmbProperty.mk (entry.base - size) (entry.size + size)).range =
            r.join entry.range := by
          rw [Range.join, if_pos hfront]
          exact grown_front hr hfront hentryStop
        rw [if_pos hfront, if_pos (by decide), if_pos htouch]
        refine Or.inr (Or.inr ⟨[], _, entries, by simp, rfl, ?_, hrest, by rw [hnew]; rfl⟩)
        rw [hnew, Range.join, if_pos hfront, Range.stop_eq]
        rw [Range.stop_eq] at hfront
        dsimp only
        omega
      by_cases hback : entry.range.stop = r.start
      · have htouch : r.Touches entry.range := Or.inr hback
        have hnew : (LmbProperty.mk entry.base (entry.size + size)).range =
            r.join entry.range := by
          rw [Range.join, if_neg hfront]
          exact grown_back hr hback hstop
        rw [if_neg hfront, if_pos hback, if_neg (by decide), if_pos (by decide),
          if_pos htouch]
        refine Or.inr (Or.inr ⟨[], _, entries, by simp, rfl, ?_, hrest, by rw [hnew]; rfl⟩)
        rw [hnew, Range.join, if_neg hfront, Range.stop_eq]
        rw [Range.stop_eq] at hback
        dsimp only
        omega
      have hfree : ¬ r.Touches entry.range := not_or.2 ⟨hfront, hback⟩
      rw [if_neg hfront, if_neg hback, if_neg (by decide), if_neg (by decide), if_neg hfree]
      rcases ih hrest with ⟨hloop, hgrow⟩ | ⟨hloop, hgrow⟩ |
        ⟨inner, new, rest, hlength, hloop, hnew, hbelowRest, hgrow⟩
      · exact Or.inl ⟨by rw [hloop]; rfl, by rw [hgrow]; rfl⟩
      · exact Or.inr (Or.inl ⟨by rw [hloop]; rfl, by rw [hgrow]; rfl⟩)
      · refine Or.inr (Or.inr ⟨entry :: inner, new, rest, ?_, by rw [hloop]; rfl, hnew,
          hbelowRest, by rw [hgrow]; rfl⟩)
        rw [hlength, List.length_cons]
        omega

theorem removeLoop_spec (moved : List LmbProperty) (first : LmbProperty)
    (stale : List LmbProperty) : exists last,
      removeLoop moved.length (first :: (moved ++ stale)) = some (moved ++ last :: stale) := by
  induction moved generalizing first with
  | nil =>
      exact ⟨first, rfl⟩
  | cons next moved ih =>
      obtain ⟨last, hloop⟩ := ih next
      refine ⟨last, ?_⟩
      rw [List.length_cons, List.cons_append]
      unfold removeLoop
      rw [hloop]
      rfl

theorem range_sub (start : BitVec 32) {upper lower : BitVec 32} (h : lower.toNat <= upper.toNat) :
    (LmbProperty.mk start (upper - lower)).range =
      ⟨start.toNat, upper.toNat - lower.toNat⟩ := by
  unfold LmbProperty.range
  rw [BitVec.toNat_sub_of_le (BitVec.le_def.2 h)]

/-- The count of a table with an entry is one more than its last place. -/
theorem toNat_last {cnt : BitVec 32} (h : cnt.toNat ≠ 0) :
    (cnt - 1#32).toNat = cnt.toNat - 1 := by
  rw [BitVec.toNat_sub]
  have hlt := cnt.isLt
  simp only [BitVec.toNat_ofNat]
  omega

theorem turns_eq {cnt : BitVec 32} (hpos : 0 < cnt.toNat)
    (hsmall : cnt.toNat <= maxLmbRegions + 1) :
    ((cnt - 1#32).toInt + 1).toNat = cnt.toNat := by
  have hlast : (cnt - 1#32).toNat = cnt.toNat - 1 := toNat_last (by omega)
  unfold maxLmbRegions at hsmall
  rw [BitVec.toInt_eq_toNat_of_lt (by omega)]
  omega

theorem lmbRemoveRegion_spec {removed : LmbProperty}
    (h : Shows rgn (front ++ removed :: back)) : exists after,
      lmbRemoveRegion rgn front.length = some after ∧ Shows after (front ++ back) := by
  obtain ⟨stale, hregion⟩ := h.front
  have hcount := h.count
  have hslots := h.slots
  rw [List.length_append, List.length_cons] at hcount
  have hlast : (rgn.cnt - 1#32).toNat = front.length + back.length := by
    rw [toNat_last (by omega)]
    omega
  rw [List.append_assoc, List.cons_append] at hregion
  rw [hregion, List.length_append, List.length_cons, List.length_append] at hslots
  obtain ⟨last, hloop⟩ := removeLoop_spec back removed stale
  unfold lmbRemoveRegion
  rw [hlast, hregion, List.drop_left, List.take_left, Nat.add_sub_cancel_left, hloop]
  refine ⟨_, rfl, ?_, ?_, last :: stale, ?_⟩
  · rw [List.length_append]
    exact hlast
  · rw [List.length_append, List.length_append, List.length_cons]
    omega
  · dsimp only
    rw [List.append_assoc]

theorem getElem?_place (front rest : List LmbProperty) :
    (front ++ rest)[front.length]? = rest[0]? := by
  rw [List.getElem?_append_right (Nat.le_refl _), Nat.sub_self]

theorem getElem?_next (front rest : List LmbProperty) (entry : LmbProperty) :
    (front ++ entry :: rest)[front.length + 1]? = rest[0]? := by
  rw [List.getElem?_append_right (Nat.le_add_right _ 1), Nat.add_sub_cancel_left]
  rfl

theorem set_place (front rest : List LmbProperty) (entry new : LmbProperty) :
    (front ++ entry :: rest).set front.length new = front ++ new :: rest := by
  rw [List.set_append_right _ _ (Nat.le_refl _), Nat.sub_self]
  rfl

theorem set_next (front rest : List LmbProperty) (entry next new : LmbProperty) :
    (front ++ entry :: next :: rest).set (front.length + 1) new =
      front ++ entry :: new :: rest := by
  rw [List.set_append_right _ _ (Nat.le_add_right _ 1), Nat.add_sub_cancel_left]
  rfl

theorem rangesOf_append (first second : List LmbProperty) :
    rangesOf (first ++ second) = rangesOf first ++ rangesOf second := List.map_append

theorem rangesOf_cons (first : LmbProperty) (second : List LmbProperty) :
    rangesOf (first :: second) = first.range :: rangesOf second := rfl

theorem lmbCoalesceNext_grown (new : LmbProperty) (hshows : Shows rgn (front ++ entry :: back))
    (hentry : entry.range.stop < addressLimit) (hback : Below addressLimit (rangesOf back)) :
    exists code after entries, lmbCoalesceNext rgn new front.length 1 = some (code, after) ∧
      0 <= code ∧ Shows after entries ∧
      rangesOf entries = rangesOf front ++ mergeNext (entry.range :: rangesOf back) := by
  have hcount := hshows.count
  obtain ⟨stale, hregion⟩ := hshows.front
  rw [List.length_append, List.length_cons] at hcount
  have hlast : (rgn.cnt - 1#32).toNat = front.length + back.length := by
    rw [toNat_last (by omega)]
    omega
  rw [List.append_assoc, List.cons_append] at hregion
  unfold lmbCoalesceNext
  cases back with
  | nil =>
      rw [hlast, List.length_nil, Nat.add_zero, if_neg (Nat.lt_irrefl _), if_pos (by decide)]
      exact ⟨1, rgn, _, rfl, by decide, hshows, by rw [rangesOf_append]; rfl⟩
  | cons next back =>
      obtain ⟨hnext, hbackRest⟩ := below_cons.1 hback
      have hadjacent : lmbRegionsAdjacent rgn front.length (front.length + 1) =
          some (lmbAddrsAdjacent entry.base entry.size next.base next.size) := by
        unfold lmbRegionsAdjacent
        rw [hregion, getElem?_place, getElem?_next]
        rfl
      rw [hlast, List.length_cons, if_pos (by omega), hadjacent]
      dsimp only
      rw [rangesOf_cons, mergeNext_pair]
      by_cases htouch : entry.range.Touches next.range
      · rw [if_pos ((adjacent_iff entry next hentry hnext).2 htouch), if_pos htouch]
        -- the merged entry, with the next one still behind it
        have hmerged : Shows { rgn with
            region := rgn.region.set front.length ⟨entry.base, entry.size + next.size⟩ }
            ((front ++ [⟨entry.base, entry.size + next.size⟩]) ++ next :: back) := by
          refine ⟨?_, ?_, stale, ?_⟩
          · simp only [List.length_append, List.length_cons, List.length_nil]
            rw [hcount, List.length_cons]
            omega
          · rw [List.length_set]
            exact hshows.slots
          · dsimp only
            rw [hregion, set_place]
            simp
        obtain ⟨after, hremove, hafter⟩ := lmbRemoveRegion_spec hmerged
        rw [List.length_append, List.length_singleton] at hremove
        have hcoalesce : lmbCoalesceRegions rgn front.length (front.length + 1) = some after := by
          unfold lmbCoalesceRegions
          rw [show rgn.region[front.length]? = some entry by rw [hregion, getElem?_place]; rfl,
            show rgn.region[front.length + 1]? = some next by
              rw [hregion, getElem?_next]; rfl]
          exact hremove
        rw [hcoalesce]
        refine ⟨2, after, _, rfl, by decide, hafter, ?_⟩
        have hsum : (LmbProperty.mk entry.base (entry.size + next.size)).range =
            ⟨entry.range.start, entry.range.size + next.range.size⟩ := by
          unfold Range.Touches Range.stop LmbProperty.range addressLimit at *
          dsimp only at *
          rw [BitVec.toNat_add]
          congr 1
          omega
        rw [rangesOf_append, rangesOf_append, rangesOf_cons, hsum, List.append_assoc]
        rfl
      · rw [if_neg (fun h => htouch ((adjacent_iff entry next hentry hnext).1 h)),
          if_neg htouch, if_pos (by decide)]
        exact ⟨1, rgn, _, rfl, by decide, hshows, by rw [rangesOf_append]; rfl⟩

/-- Entries that all start behind the new one move up; the first place keeps its entry. -/
theorem insertLoop_front (new : LmbProperty) (entries : List LmbProperty) :
    forall (place : LmbProperty) (stale : List LmbProperty),
      (forall p, p ∈ entries -> new.base < p.base) ->
      exists first, insertLoop new entries.length (entries ++ place :: stale) =
        some (first :: entries ++ stale) ∧ (first = place ∨ first ∈ entries) ∧
        (entries ≠ [] -> first ∈ entries) := by
  induction entries using List.reverseRecOn with
  | nil =>
      intro place stale _
      exact ⟨place, rfl, Or.inl rfl, fun h => absurd rfl h⟩
  | append_singleton entries entry ih =>
      intro place stale hall
      have hentry : new.base < entry.base := hall entry (by simp)
      rw [List.length_append, List.length_singleton, List.append_assoc, List.singleton_append]
      unfold insertLoop
      rw [getElem?_place]
      dsimp only [List.getElem?_cons_zero]
      rw [if_pos (by simp), if_pos hentry, set_next]
      obtain ⟨first, hloop, hfirst, _⟩ := ih entry (entry :: stale)
        (fun p hp => hall p (List.mem_append_left _ hp))
      have hmem : first ∈ entries ++ [entry] := by
        rcases hfirst with rfl | hmem
        · exact List.mem_append_right _ List.mem_cons_self
        · exact List.mem_append_left _ hmem
      refine ⟨first, ?_, Or.inr hmem, fun _ => hmem⟩
      rw [hloop]
      simp

/-- The loop stops behind the last entry that does not start behind the new one. -/
theorem insertLoop_back (new : LmbProperty) (front : List LmbProperty) (entry : LmbProperty)
    (hentry : ¬ new.base < entry.base) (back : List LmbProperty) :
    forall (place : LmbProperty) (stale : List LmbProperty),
      (forall p, p ∈ back -> new.base < p.base) ->
      insertLoop new (front.length + 1 + back.length)
        (front ++ entry :: (back ++ place :: stale)) =
        some (front ++ entry :: new :: (back ++ stale)) := by
  induction back using List.reverseRecOn with
  | nil =>
      intro place stale _
      rw [List.length_nil, Nat.add_zero]
      unfold insertLoop
      rw [getElem?_place]
      dsimp only [List.nil_append, List.getElem?_cons_zero]
      rw [if_pos (by simp), if_neg hentry, set_next]
  | append_singleton back last ih =>
      intro place stale hall
      have hlast : new.base < last.base := hall last (by simp)
      have hplace : front ++ entry :: (back ++ [last] ++ place :: stale) =
          (front ++ entry :: back) ++ last :: place :: stale := by simp
      have hlength : front.length + 1 + (back ++ [last]).length =
          (front ++ entry :: back).length + 1 := by
        simp only [List.length_append, List.length_cons, List.length_nil]
        omega
      rw [hplace, hlength]
      unfold insertLoop
      rw [getElem?_place]
      dsimp only [List.getElem?_cons_zero]
      rw [if_pos (by simp; omega), if_pos hlast, set_next]
      have hloop := ih last (last :: stale) (fun p hp => hall p (List.mem_append_left _ hp))
      have hregion : (front ++ entry :: back) ++ last :: last :: stale =
          front ++ entry :: (back ++ last :: last :: stale) := by simp
      have hback : (front ++ entry :: back).length = front.length + 1 + back.length := by
        simp only [List.length_append, List.length_cons]
        omega
      rw [hregion, hback, hloop]
      simp

theorem exists_last_entry (new : LmbProperty) (entries : List LmbProperty) :
    (forall p, p ∈ entries -> new.base < p.base) ∨
      exists front entry back, entries = front ++ entry :: back ∧ ¬ new.base < entry.base ∧
        forall p, p ∈ back -> new.base < p.base := by
  induction entries using List.reverseRecOn with
  | nil =>
      exact Or.inl (fun p hp => nomatch hp)
  | append_singleton entries entry ih =>
      by_cases hentry : new.base < entry.base
      · rcases ih with hall | ⟨front, last, back, rfl, hlast, hback⟩
        · left
          intro p hp
          rcases List.mem_append.1 hp with hp | hp
          · exact hall p hp
          · exact List.mem_singleton.1 hp ▸ hentry
        · right
          refine ⟨front, last, back ++ [entry], by simp, hlast, fun p hp => ?_⟩
          rcases List.mem_append.1 hp with hp | hp
          · exact hback p hp
          · exact List.mem_singleton.1 hp ▸ hentry
      · exact Or.inr ⟨entries, entry, [], rfl, hentry, fun p hp => nomatch hp⟩

theorem insertRange_all (h : forall s, s ∈ rangesOf entries -> r.start < s.start) :
    insertRange r (rangesOf entries) = r :: rangesOf entries := by
  cases entries with
  | nil =>
      rfl
  | cons entry entries =>
      rw [rangesOf_cons]
      unfold insertRange
      rw [if_pos (h entry.range List.mem_cons_self)]

theorem insertRange_behind {first : List Range}
    (hfirst : forall s, s ∈ first -> ¬ r.start < s.start) (second : List Range) :
    insertRange r (first ++ second) = first ++ insertRange r second := by
  induction first with
  | nil =>
      rfl
  | cons s first ih =>
      rw [List.cons_append, insertRange, if_neg (hfirst s List.mem_cons_self),
        ih (fun t ht => hfirst t (List.mem_cons_of_mem s ht)), List.cons_append]

/-- The end of `lmb_add_region` inserts the range, or finds the table full. -/
theorem lmbInsert_spec (new : LmbProperty) (hshows : Shows rgn entries)
    (hordered : Ordered (rangesOf entries)) (hne : entries ≠ []) :
    (maxLmbRegions <= entries.length ∧ lmbInsert rgn new = some (-1, rgn)) ∨
      (entries.length < maxLmbRegions ∧
        exists after inserted, lmbInsert rgn new = some (0, after) ∧ Shows after inserted ∧
          rangesOf inserted = insertRange new.range (rangesOf entries)) := by
  have hcount := hshows.count
  have hslots := hshows.slots
  obtain ⟨stale, hregion⟩ := hshows.front
  unfold lmbInsert
  rw [hcount]
  by_cases hfull : maxLmbRegions <= entries.length
  · rw [if_pos hfull]
    exact Or.inl ⟨hfull, rfl⟩
  rw [if_neg hfull]
  have hroom : entries.length < maxLmbRegions := Nat.not_le.1 hfull
  refine Or.inr ⟨hroom, ?_⟩
  have hpos : 0 < entries.length := List.length_pos_iff.2 hne
  -- there is an unused place behind the entries
  rw [hregion, List.length_append] at hslots
  obtain ⟨place, stale, rfl⟩ : exists place rest, stale = place :: rest :=
    List.exists_cons_of_length_pos (by unfold maxLmbRegions at *; omega)
  have hturns : ((rgn.cnt - 1#32).toInt + 1).toNat = entries.length := by
    rw [turns_eq (by omega) (by omega), hcount]
  have hcnt : (rgn.cnt + 1#32).toNat = entries.length + 1 := by
    rw [BitVec.toNat_add, hcount]
    simp only [BitVec.toNat_ofNat]
    unfold maxLmbRegions at *
    omega
  rw [hturns, hregion]
  rcases exists_last_entry new entries with hall | ⟨front, entry, back, rfl, hentry, hback⟩
  · obtain ⟨first, hloop, _, hfirst⟩ := insertLoop_front new entries place stale hall
    rw [hloop]
    dsimp only [List.cons_append, List.getElem?_cons_zero]
    rw [if_pos (hall first (hfirst hne))]
    refine ⟨_, new :: entries, rfl, ⟨hcnt, ?_, stale, rfl⟩, ?_⟩
    · simp only [List.set_cons_zero, List.length_cons, List.length_append] at *
      omega
    · rw [rangesOf_cons, insertRange_all]
      intro s hs
      obtain ⟨p, hp, rfl⟩ := List.mem_map.1 hs
      exact BitVec.lt_def.1 (hall p hp)
  · have hloop := insertLoop_back new front entry hentry back place stale hback
    have hregion' : front ++ entry :: back ++ place :: stale =
        front ++ entry :: (back ++ place :: stale) := by simp
    have hlength : (front ++ entry :: back).length = front.length + 1 + back.length := by
      simp only [List.length_append, List.length_cons]
      omega
    rw [hregion', hlength, hloop]
    -- the first entry does not start behind the new one
    have hordered' := hordered
    rw [rangesOf_append, rangesOf_cons] at hordered'
    have hbefore : forall s, s ∈ rangesOf front ++ [entry.range] ->
        ¬ new.range.start < s.start := by
      intro s hs
      have hlast : entry.range.start <= new.range.start := Nat.not_lt.1
        (fun h => hentry (BitVec.lt_def.2 h))
      rcases List.mem_append.1 hs with hs | hs
      · have hle := (List.pairwise_append.1 hordered').2.2 s hs entry.range List.mem_cons_self
        exact Nat.not_lt.2 (Nat.le_trans hle hlast)
      · rw [List.mem_singleton.1 hs]
        exact Nat.not_lt.2 hlast
    obtain ⟨first, hfirst, hkept⟩ : exists first,
        (front ++ entry :: new :: (back ++ stale))[0]? = some first ∧
          ¬ new.base < first.base := by
      cases front with
      | nil =>
          exact ⟨entry, rfl, hentry⟩
      | cons p front =>
          exact ⟨p, rfl, fun h => hbefore p.range List.mem_cons_self (BitVec.lt_def.1 h)⟩
    dsimp only
    rw [hfirst]
    dsimp only
    rw [if_neg hkept]
    refine ⟨_, front ++ entry :: new :: back, rfl, ⟨?_, ?_, stale, by simp⟩, ?_⟩
    · rw [hcnt]
      simp only [List.length_append, List.length_cons]
      omega
    · simp only [List.length_append, List.length_cons] at *
      omega
    · have hbehind : insertRange new.range (rangesOf back) = new.range :: rangesOf back := by
        apply insertRange_all
        intro s hs
        obtain ⟨p, hp, rfl⟩ := List.mem_map.1 hs
        exact BitVec.lt_def.1 (hback p hp)
      have hinsert := insertRange_behind hbefore (rangesOf back)
      rw [hbehind] at hinsert
      rw [rangesOf_append, rangesOf_append, rangesOf_cons, rangesOf_cons, rangesOf_cons]
      rw [List.append_assoc, List.append_assoc] at hinsert
      exact hinsert.symm

/-!
# Adding and freeing
-/

theorem lmbAddRegion_spec (hshows : Shows rgn entries) (hne : entries ≠ [])
    (hordered : Ordered (rangesOf entries)) (hbelow : Below addressLimit (rangesOf entries))
    (hr : (LmbProperty.mk base size).range = r) (hlimit : r.stop < addressLimit) :
    exists code after, lmbAddRegion rgn base size = some (code, after) ∧
      ((addRange maxLmbRegions r (rangesOf entries) = none ∧ code = -1 ∧ after = rgn) ∨
        (0 <= code ∧ exists added, Shows after added ∧
          addRange maxLmbRegions r (rangesOf entries) = some (rangesOf added))) := by
  have hcount := hshows.count
  obtain ⟨stale, hregion⟩ := hshows.front
  obtain ⟨first, others, rfl⟩ := List.exists_cons_of_ne_nil hne
  have hfirst : rgn.region[0]? = some first := by
    rw [hregion]
    rfl
  have hvacant : (rgn.cnt = 1#32 ∧ first.size = 0#32) <->
      isVacant (rangesOf (first :: others)) = true := by
    rw [isVacant_iff, rangesOf_cons, ← BitVec.toNat_inj, ← BitVec.toNat_inj, hcount]
    unfold Vacant rangesOf
    constructor
    · rintro ⟨hone, hsize⟩
      have hnil : others = [] := List.length_eq_zero_iff.1 (Nat.succ.inj hone)
      exact ⟨first.base.toNat, by rw [hnil]; exact congrArg (fun n => [Range.mk _ n]) hsize⟩
    · rintro ⟨start, heq⟩
      rw [List.cons.injEq, List.map_eq_nil_iff] at heq
      rw [heq.2]
      exact ⟨rfl, congrArg Range.size heq.1⟩
  unfold lmbAddRegion addRange
  rw [hfirst]
  dsimp only
  by_cases hdummy : rgn.cnt = 1#32 ∧ first.size = 0#32
  · have hnil : others = [] := by
      have hone := congrArg BitVec.toNat hdummy.1
      rw [hcount] at hone
      exact List.length_eq_zero_iff.1 (Nat.succ.inj hone)
    rw [if_pos hdummy, if_pos (hvacant.1 hdummy)]
    refine ⟨0, _, rfl, Or.inr ⟨by decide, [⟨base, size⟩], ⟨?_, ?_, stale, ?_⟩, ?_⟩⟩
    · rw [hcount, hnil]
      rfl
    · rw [List.length_set]
      exact hshows.slots
    · dsimp only
      rw [hregion, hnil]
      rfl
    · rw [rangesOf_cons, hr]
      rfl
  rw [if_neg hdummy, if_neg (fun h => hdummy (hvacant.2 h)), hcount, hregion]
  rcases coalesceLoop_spec hr hlimit (first :: others) stale hbelow with ⟨hloop, hgrow⟩ |
    ⟨hloop, hgrow⟩ | ⟨front, new, back, hlength, hloop, hnew, hback, hgrow⟩
  · -- the region touches no entry
    rw [hloop, hgrow]
    dsimp only
    have hlast : ¬ (first :: others).length < (rgn.cnt - 1#32).toNat := by
      have hpos : 0 < (first :: others).length := List.length_pos_iff.2 hne
      rw [toNat_last (by omega)]
      omega
    unfold lmbCoalesceNext
    rw [if_neg hlast, if_neg (not_not.2 rfl)]
    rcases lmbInsert_spec ⟨base, size⟩ hshows hordered hne with ⟨hfull, hinsert⟩ |
      ⟨hroom, after, inserted, hinsert, hafter, hranges⟩
    · rw [hinsert, if_pos (by rw [rangesOf, List.length_map]; exact hfull)]
      exact ⟨-1, rgn, rfl, Or.inl ⟨rfl, rfl, rfl⟩⟩
    · rw [hinsert, if_neg (by rw [rangesOf, List.length_map]; exact Nat.not_le.2 hroom)]
      exact ⟨0, after, rfl, Or.inr ⟨Int.le_refl 0, inserted, hafter, by rw [hranges, hr]⟩⟩
  · rw [hloop, hgrow]
    exact ⟨0, rgn, rfl, Or.inr ⟨Int.le_refl 0, _, hshows, rfl⟩⟩
  · rw [hloop, hgrow]
    dsimp only
    have hgrown : Shows { rgn with region := front ++ new :: (back ++ stale) }
        (front ++ new :: back) := by
      have hslots := hshows.slots
      rw [hregion, List.length_append, hlength] at hslots
      refine ⟨?_, ?_, stale, by simp⟩
      · dsimp only
        rw [hcount, hlength]
        simp only [List.length_append, List.length_cons]
        omega
      · simp only [List.length_append, List.length_cons]
        omega
    obtain ⟨code, after, added, hnext, hcode, hafter, hranges⟩ :=
      lmbCoalesceNext_grown ⟨base, size⟩ hgrown hnew hback
    exact ⟨code, after, hnext, Or.inr ⟨hcode, added, hafter, by rw [hranges]⟩⟩

/-- The loop of `lmb_free` stops at the first range that contains the other one. -/
theorem containerLoop_spec (hr : (LmbProperty.mk base size).range = r)
    (hlimit : r.stop < addressLimit) (entries stale : List LmbProperty)
    (hbelow : Below addressLimit (rangesOf entries)) :
    forall i, (containerLoop base (base + size) entries.length i (entries ++ stale) =
          some none ∧ release r (rangesOf entries) = none) ∨
      exists front found back, entries = front ++ found :: back ∧
        containerLoop base (base + size) entries.length i (entries ++ stale) =
          some (some (i + front.length, found)) ∧
        (found.range.start <= r.start ∧ r.stop <= found.range.stop) ∧
        release r (rangesOf entries) = (release r (rangesOf (found :: back))).map
          (fun released => (rangesOf front ++ released.1, released.2)) := by
  have hstop : (base + size).toNat = r.stop := by
    rw [← hr] at hlimit ⊢
    exact toNat_stop hlimit
  induction entries with
  | nil =>
      intro i
      exact Or.inl ⟨rfl, rfl⟩
  | cons entry entries ih =>
      intro i
      obtain ⟨hentry, hrest⟩ := below_cons.1 hbelow
      have hinside : (entry.base <= base ∧ base + size <= entry.base + entry.size) <->
          (entry.range.start <= r.start ∧ r.stop <= entry.range.stop) := by
        rw [BitVec.le_def, BitVec.le_def, hstop, toNat_stop hentry, ← hr]
        exact Iff.rfl
      rw [List.length_cons, List.cons_append]
      unfold containerLoop
      by_cases hfound : entry.base <= base ∧ base + size <= entry.base + entry.size
      · rw [if_pos hfound]
        refine Or.inr ⟨[], entry, entries, rfl, rfl, hinside.1 hfound, ?_⟩
        cases release r (rangesOf (entry :: entries)) with
        | none =>
            rfl
        | some released =>
            rfl
      · rw [if_neg hfound]
        have hrelease : release r (rangesOf (entry :: entries)) =
            (release r (rangesOf entries)).map
              (fun released => (entry.range :: released.1, released.2)) := by
          rw [rangesOf_cons, release, if_neg (fun h => hfound (hinside.2 h))]
        rw [hrelease]
        rcases ih hrest (i + 1) with ⟨hloop, hnone⟩ | ⟨front, found, back, rfl, hloop, hin, heq⟩
        · exact Or.inl ⟨hloop, by rw [hnone]; rfl⟩
        · refine Or.inr ⟨entry :: front, found, back, rfl, ?_, hin, ?_⟩
          · rw [hloop, List.length_cons, Nat.add_assoc, Nat.add_comm 1]
          · rw [heq, Option.map_map]
            rfl

theorem shows_set (hshows : Shows rgn (front ++ entry :: back)) (new : LmbProperty) :
    Shows { rgn with region := rgn.region.set front.length new } (front ++ new :: back) := by
  obtain ⟨stale, hregion⟩ := hshows.front
  refine ⟨?_, ?_, stale, ?_⟩
  · rw [hshows.count]
    simp only [List.length_append, List.length_cons]
  · rw [List.length_set]
    exact hshows.slots
  · dsimp only
    rw [hregion, List.append_assoc, List.cons_append, set_place]
    simp

/-- `lmb_free` releases the range: it does nothing when no region contains it, and adds the
second part of a region that it splits. -/
theorem lmbFreeRegion_spec (hshows : Shows rgn entries)
    (hbelow : Below addressLimit (rangesOf entries))
    (hr : (LmbProperty.mk base size).range = r) (hlimit : r.stop < addressLimit) :
    (release r (rangesOf entries) = none ∧ lmbFreeRegion rgn base size = some (-1, rgn)) ∨
      (exists after rest, lmbFreeRegion rgn base size = some (0, after) ∧ Shows after rest ∧
        release r (rangesOf entries) = some (rangesOf rest, none)) ∨
      exists middle rest, exists tail : LmbProperty, Shows middle rest ∧
        lmbFreeRegion rgn base size = lmbAddRegion middle tail.base tail.size ∧
        release r (rangesOf entries) = some (rangesOf rest, some tail.range) := by
  obtain ⟨stale, hregion⟩ := hshows.front
  have hcount := hshows.count
  have hbase : base.toNat = r.start := by rw [← hr]; rfl
  have hsize : size.toNat = r.size := by rw [← hr]; rfl
  have hstop : (base + size).toNat = r.stop := by
    rw [← hr] at hlimit ⊢
    exact toNat_stop hlimit
  unfold lmbFreeRegion
  dsimp only
  rw [hcount, hregion]
  rcases containerLoop_spec hr hlimit entries stale hbelow 0 with ⟨hloop, hnone⟩ |
    ⟨front, found, back, rfl, hloop, hinside, hrelease⟩
  · rw [hloop]
    exact Or.inl ⟨hnone, rfl⟩
  rw [hloop, Nat.zero_add, ← hregion]
  dsimp only
  right
  have hfound : found.range.stop < addressLimit :=
    hbelow found.range (List.mem_map.2 ⟨found, by simp, rfl⟩)
  have hstart : found.base = base <-> found.range.start = r.start := by
    rw [← BitVec.toNat_inj, hbase]
    exact Iff.rfl
  have hend : found.base + found.size = base + size <-> found.range.stop = r.stop := by
    rw [← BitVec.toNat_inj, toNat_stop hfound, hstop]
    exact Iff.rfl
  simp only [hstart, hend]
  rw [rangesOf_cons, release, if_pos hinside] at hrelease
  have hfoundStop := Range.stop_eq found.range
  have hrStop := Range.stop_eq r
  have hfoundStart : found.range.start = found.base.toNat := rfl
  have hfoundSize : found.range.size = found.size.toNat := rfl
  have hsum : (found.base + found.size).toNat = found.range.stop := toNat_stop hfound
  by_cases hwhole : found.range.start = r.start ∧ found.range.stop = r.stop
  · rw [if_pos hwhole] at hrelease ⊢
    obtain ⟨after, hremove, hafter⟩ := lmbRemoveRegion_spec hshows
    rw [hremove]
    exact Or.inl ⟨after, front ++ back, rfl, hafter, by
      rw [hrelease, Option.map_some, rangesOf_append]⟩
  rw [if_neg hwhole] at hrelease ⊢
  by_cases hsameStart : found.range.start = r.start
  · rw [if_pos hsameStart] at hrelease ⊢
    have hnew : (LmbProperty.mk (base + size) (found.size - size)).range =
        ⟨r.stop, found.range.size - r.size⟩ := by
      rw [range_sub _ (by omega), hstop, hsize]
      rfl
    exact Or.inl ⟨_, _, rfl, shows_set hshows _, by
      rw [hrelease, Option.map_some, rangesOf_append, rangesOf_cons, hnew]⟩
  rw [if_neg hsameStart] at hrelease ⊢
  by_cases hsameStop : found.range.stop = r.stop
  · rw [if_pos hsameStop] at hrelease ⊢
    have hnew : (LmbProperty.mk found.base (found.size - size)).range =
        ⟨found.range.start, found.range.size - r.size⟩ := by
      rw [range_sub _ (by omega), hsize]
      rfl
    exact Or.inl ⟨_, _, rfl, shows_set hshows _, by
      rw [hrelease, Option.map_some, rangesOf_append, rangesOf_cons, hnew]⟩
  rw [if_neg hsameStop] at hrelease ⊢
  have hfront : (LmbProperty.mk found.base (base - found.base)).range =
      ⟨found.range.start, r.start - found.range.start⟩ := by
    rw [range_sub _ (by omega), hbase]
    rfl
  have htail : (LmbProperty.mk (base + size)
      (found.base + found.size - (base + size))).range =
      ⟨r.stop, found.range.stop - r.stop⟩ := by
    rw [range_sub _ (by omega), hstop, hsum]
  refine Or.inr ⟨_, _, ⟨base + size, found.base + found.size - (base + size)⟩,
    shows_set hshows ⟨found.base, base - found.base⟩, rfl, ?_⟩
  rw [hrelease, Option.map_some, rangesOf_append, rangesOf_cons, hfront, htail]

end Boot
end Bab750
