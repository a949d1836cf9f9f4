import Bab750.Boot.LmbAlloc
import Bab750.Foundation.Run

/-!
# Runs of the memory block functions

Calls of `lmb_add`, `lmb_reserve`, `lmb_free`, and `lmb_alloc_base` from the state of
`lmb_init`.  Beside the tables, a state has the set of the addresses that the calls have
reserved.
-/

namespace Bab750
namespace Boot

open Foundation

/-!
# Calls
-/

inductive LmbCall where
  | add (base size : BitVec 32)
  | reserve (base size : BitVec 32)
  | free (base size : BitVec 32)
  | alloc (size align maxAddr : BitVec 32)

def lmbCall (lmb : Lmb) : LmbCall -> Option (Int × Lmb)
  | .add base size => lmbAdd lmb base size
  | .reserve base size => lmbReserve lmb base size
  | .free base size => lmbFree lmb base size
  | .alloc size align maxAddr =>
      (lmbAllocBase lmb size align maxAddr).map (fun r => ((r.1.toNat : Int), r.2))

section

variable {lmb : Lmb} {after : LmbRegion} {code : Int} {base size : BitVec 32}

theorem lmbCall_add (h : lmbAddRegion lmb.memory base size = some (code, after)) :
    lmbCall lmb (.add base size) = some (code, { lmb with memory := after }) := by
  show (lmbAddRegion lmb.memory base size).map _ = _
  rw [h]
  rfl

theorem lmbCall_reserve (h : lmbAddRegion lmb.reserved base size = some (code, after)) :
    lmbCall lmb (.reserve base size) = some (code, { lmb with reserved := after }) := by
  show (lmbAddRegion lmb.reserved base size).map _ = _
  rw [h]
  rfl

theorem lmbCall_free (h : lmbFreeRegion lmb.reserved base size = some (code, after)) :
    lmbCall lmb (.free base size) = some (code, { lmb with reserved := after }) := by
  show (lmbFreeRegion lmb.reserved base size).map _ = _
  rw [h]
  rfl

theorem lmbCall_alloc {align maxAddr addr : BitVec 32} {next : Lmb}
    (h : lmbAllocBase lmb size align maxAddr = some (addr, next)) :
    lmbCall lmb (.alloc size align maxAddr) = some ((addr.toNat : Int), next) := by
  show (lmbAllocBase lmb size align maxAddr).map _ = _
  rw [h]
  rfl

end

def area (base size : BitVec 32) : Range := ⟨base.toNat, size.toNat⟩

/-- The reserved addresses behind a call; an allocation reserves its rounded size. -/
def LmbCall.effect (value : Int) (taken : Nat -> Prop) : LmbCall -> Nat -> Prop
  | .add _ _ => taken
  | .reserve base size => fun a => taken a ∨ 0 <= value ∧ (area base size).Has a
  | .free base size => fun a => taken a ∧ ¬ (0 <= value ∧ (area base size).Has a)
  | .alloc size align _ => fun a =>
      taken a ∨ value ≠ 0 ∧ (Range.mk value.toNat (lmbAlignUp size align).toNat).Has a

/-- The tables, and the addresses that are to be reserved. -/
structure LmbState where
  lmb : Lmb
  taken : Nat -> Prop

/-- The state of `lmb_init`. -/
def LmbState.init (start : Lmb) : LmbState := ⟨lmbInit start, fun _ => False⟩

def LmbStep (allowed : Lmb -> LmbCall -> Prop) (s : LmbState) (call : LmbCall) (t : LmbState) :
    Prop :=
  allowed s.lmb call ∧ exists value after, lmbCall s.lmb call = some (value, after) ∧
    t = ⟨after, call.effect value s.taken⟩

def HasSlots (lmb : Lmb) : Prop :=
  lmb.memory.region.length = maxLmbRegions + 1 ∧ lmb.reserved.region.length = maxLmbRegions + 1

def NonWrapping : LmbCall -> Prop
  | .add base size => (area base size).stop < addressLimit
  | .reserve base size => (area base size).stop < addressLimit
  | .free base size => (area base size).stop < addressLimit
  | .alloc _ _ _ => True

theorem shows_init {rgn : LmbRegion} (h : rgn.region.length = maxLmbRegions + 1) :
    Shows rgn.init [⟨0#32, 0#32⟩] := by
  obtain ⟨first, rest, hregion⟩ := List.exists_cons_of_length_pos
    (show 0 < rgn.region.length by rw [h]; exact Nat.succ_pos _)
  unfold LmbRegion.init
  refine ⟨rfl, ?_, rest, ?_⟩
  · rw [List.length_set]
    exact h
  · dsimp only
    rw [hregion]
    rfl

/-!
# The reserved addresses
-/

variable {rgn : LmbRegion} {entries : List LmbProperty}

theorem reservedLoop_spec (addr : BitVec 32) (entries stale : List LmbProperty)
    (hbelow : Below addressLimit (rangesOf entries)) :
    exists found, reservedLoop addr entries.length (entries ++ stale) = some found ∧
      (Covers (rangesOf entries) addr.toNat -> found = true) ∧
      (Solid (rangesOf entries) -> found = true -> Covers (rangesOf entries) addr.toNat) := by
  induction entries with
  | nil =>
      refine ⟨false, rfl, ?_, fun _ h => nomatch h⟩
      rintro ⟨r, hr, _⟩
      cases hr
  | cons entry entries ih =>
      obtain ⟨hentry, hrest⟩ := below_cons.1 hbelow
      have hupper : 0 < entry.range.size ->
          (entry.base + entry.size - 1#32).toNat + 1 = entry.range.stop := by
        intro hsize
        have hstop : (entry.base + entry.size).toNat = entry.range.stop := toNat_stop hentry
        have hrange := Range.stop_eq entry.range
        have hlt := (entry.base + entry.size).isLt
        rw [BitVec.toNat_sub, hstop]
        rw [hstop] at hlt
        simp only [BitVec.toNat_ofNat]
        omega
      have hstart : entry.base.toNat = entry.range.start := rfl
      rw [List.length_cons, List.cons_append, rangesOf_cons]
      unfold reservedLoop
      by_cases hinside : entry.base <= addr ∧ addr <= entry.base + entry.size - 1#32
      · rw [if_pos hinside]
        refine ⟨true, rfl, fun _ => rfl, fun hsolid _ => covers_cons.2 (Or.inl ?_)⟩
        have hsize := hupper (solid_cons.1 hsolid).1
        rw [BitVec.le_def, BitVec.le_def] at hinside
        unfold Range.Has
        omega
      · rw [if_neg hinside]
        obtain ⟨found, hloop, hcovers, hsound⟩ := ih hrest
        refine ⟨found, hloop, fun h => ?_,
          fun hsolid h => covers_cons.2 (Or.inr (hsound (solid_cons.1 hsolid).2 h))⟩
        rcases covers_cons.1 h with hhas | hcovered
        · exfalso
          apply hinside
          have hrange := Range.stop_eq entry.range
          unfold Range.Has at hhas
          have hsize := hupper (by omega)
          rw [BitVec.le_def, BitVec.le_def]
          omega
        · exact hcovers hcovered

theorem lmbIsReserved_spec (lmb : Lmb) (addr : BitVec 32) (hshows : Shows lmb.reserved entries)
    (hbelow : Below addressLimit (rangesOf entries)) :
    exists found, lmbIsReserved lmb addr = some found ∧
      (Covers (rangesOf entries) addr.toNat -> found = true) ∧
      (Solid (rangesOf entries) -> found = true -> Covers (rangesOf entries) addr.toNat) := by
  obtain ⟨stale, hregion⟩ := hshows.front
  unfold lmbIsReserved
  rw [hshows.count, hregion]
  exact reservedLoop_spec addr entries stale hbelow

theorem lmbIsReserved_vacant {lmb : Lmb} {addr : BitVec 32} {start : Nat}
    (hshows : Shows lmb.reserved entries) (hvacant : rangesOf entries = [⟨start, 0⟩])
    (hstart : start ≠ 0) : lmbIsReserved lmb addr = some false := by
  obtain ⟨stale, hregion⟩ := hshows.front
  obtain ⟨entry, rest, rfl, hentry, hrest⟩ := List.map_eq_cons_iff.1 hvacant
  obtain rfl := List.map_eq_nil_iff.1 hrest
  unfold LmbProperty.range at hentry
  rw [Range.mk.injEq] at hentry
  have houtside : ¬ (entry.base <= addr ∧ addr <= entry.base + entry.size - 1#32) := by
    rw [BitVec.le_def, BitVec.le_def, BitVec.toNat_sub, BitVec.toNat_add, hentry.1, hentry.2]
    have hlt := entry.base.isLt
    rw [hentry.1] at hlt
    simp only [BitVec.toNat_ofNat]
    omega
  unfold lmbIsReserved
  rw [hshows.count, hregion, List.length_singleton, List.singleton_append]
  unfold reservedLoop
  rw [if_neg houtside]
  rfl

/-!
# Tables in order
-/

/-- A table in the order of its starts, without a region that wraps. -/
structure Arranged (rgn : LmbRegion) (entries : List LmbProperty) : Prop where
  shows : Shows rgn entries
  ne_nil : entries ≠ []
  ordered : Ordered (rangesOf entries)
  below : Below addressLimit (rangesOf entries)

theorem arranged_init (h : rgn.region.length = maxLmbRegions + 1) :
    Arranged rgn.init [⟨0#32, 0#32⟩] where
  shows := shows_init h
  ne_nil := List.cons_ne_nil _ _
  ordered := List.pairwise_singleton _ _
  below := below_cons.2 ⟨by decide, fun _ h => nomatch h⟩

theorem Arranged.ranges_eq (h : Arranged rgn entries) : rgn.ranges = rangesOf entries := by
  unfold LmbRegion.ranges
  rw [h.shows.entries_eq]

/-- `lmb_add_region` on a table in order: it is full and stays, or has the new area too. -/
theorem Arranged.add {base size : BitVec 32} (h : Arranged rgn entries)
    (hlimit : (area base size).stop < addressLimit)
    (hkeeps : KeepsOrder (area base size) rgn.ranges) :
    exists code after, lmbAddRegion rgn base size = some (code, after) ∧
      ((code = -1 ∧ after = rgn) ∨
        (0 <= code ∧ exists added, Arranged after added ∧
          forall a, Covers (rangesOf added) a <->
            (area base size).Has a ∨ Covers (rangesOf entries) a)) := by
  rw [h.ranges_eq] at hkeeps
  obtain ⟨code, after, hadd, hresult⟩ := lmbAddRegion_spec h.shows h.ne_nil h.ordered h.below
    (show (LmbProperty.mk base size).range = area base size from rfl) hlimit
  refine ⟨code, after, hadd, ?_⟩
  rcases hresult with ⟨_, hcode, hafter⟩ | ⟨hcode, added, hshows, hadded⟩
  · exact Or.inl ⟨hcode, hafter⟩
  · refine Or.inr ⟨hcode, added, ⟨hshows, ?_, ordered_addRange h.ordered hkeeps hadded,
      below_addRange h.ordered hlimit h.below hadded⟩,
      fun a => covers_addRange h.ordered hadded⟩
    rintro rfl
    exact ne_nil_addRange hadded rfl

/-!
# Allocations in a run
-/

/--
Calls that keep the tables in order: no region wraps, none is grown to its front over a
region that starts in front of it, and the search for a place does not start above the
limit.
-/
def Orderly (lmb : Lmb) : LmbCall -> Prop
  | .add base size =>
      (area base size).stop < addressLimit ∧ KeepsOrder (area base size) lmb.memory.ranges
  | .reserve base size =>
      (area base size).stop < addressLimit ∧ KeepsOrder (area base size) lmb.reserved.ranges
  | .free _ _ => False
  | .alloc size align maxAddr =>
      size ≠ 0#32 ∧ PowerOfTwo align ∧
      (forall region, region ∈ lmb.memory.ranges -> Searched size maxAddr region ->
        size.toNat <= searchTop maxAddr region) ∧
      forall addr, Picked lmb size align maxAddr addr ->
        (area addr (lmbAlignUp size align)).stop < addressLimit ∧
          KeepsOrder (area addr (lmbAlignUp size align)) lmb.reserved.ranges

/-- The tables are in order, and the reserved one has every address that was reserved. -/
def LmbState.Kept (s : LmbState) : Prop :=
  exists memory reserved, Arranged s.lmb.memory memory ∧ Arranged s.lmb.reserved reserved ∧
    forall a, s.taken a -> Covers (rangesOf reserved) a

theorem kept_init {start : Lmb} (h : HasSlots start) : (LmbState.init start).Kept :=
  ⟨_, _, arranged_init h.1, arranged_init h.2, fun _ h => h.elim⟩

/-- An allocation fails and changes nothing, or takes the highest place and reserves it. -/
theorem lmbAllocBase_orderly {lmb : Lmb} {memory reserved : List LmbProperty}
    {size align maxAddr : BitVec 32} (hmemory : Arranged lmb.memory memory)
    (hreserved : Arranged lmb.reserved reserved)
    (hallowed : Orderly lmb (.alloc size align maxAddr)) :
    lmbAllocBase lmb size align maxAddr = some (0#32, lmb) ∨
      exists addr after added,
        lmbAllocBase lmb size align maxAddr = some (addr, { lmb with reserved := after }) ∧
        (exists region, region ∈ rangesOf memory ∧
          Place (rangesOf reserved) size align maxAddr region addr) ∧
        Arranged after added ∧
        forall a, Covers (rangesOf added) a <->
          (area addr (lmbAlignUp size align)).Has a ∨ Covers (rangesOf reserved) a := by
  obtain ⟨_, halign, hsearch, hpicks⟩ := hallowed
  rw [hmemory.ranges_eq] at hsearch
  rcases lmbAllocBase_spec hmemory.shows hreserved.shows hmemory.ne_nil hreserved.below
    hmemory.below hsearch with hzero | ⟨addr, halloc, ⟨region, hmem, _, hplace⟩, hpicked⟩
  · exact Or.inl hzero
  obtain ⟨hlimit, hkeeps⟩ := hpicks addr (hpicked halign)
  obtain ⟨code, after, hadd, hresult⟩ := hreserved.add hlimit hkeeps
  unfold takeAlloc at halloc
  rw [hadd, Option.map_some] at halloc
  rcases hresult with ⟨hcode, _⟩ | ⟨hcode, added, hafter, hcovers⟩
  · rw [hcode, if_pos (show (-1 : Int) < 0 by decide)] at halloc
    exact Or.inl halloc
  · rw [if_neg (Int.not_lt.2 hcode)] at halloc
    exact Or.inr ⟨addr, after, added, halloc, ⟨region, hmem, hplace⟩, hafter, hcovers⟩

theorem kept_step {s t : LmbState} {call : LmbCall} (hs : s.Kept)
    (hstep : LmbStep Orderly s call t) : t.Kept := by
  obtain ⟨memory, reserved, hmemory, hreserved, htaken⟩ := hs
  obtain ⟨hallowed, value, after, hcall, rfl⟩ := hstep
  cases call with
  | add base size =>
      obtain ⟨code, grown, hadd, hresult⟩ := hmemory.add hallowed.1 hallowed.2
      rw [lmbCall_add hadd] at hcall
      cases hcall
      rcases hresult with ⟨_, rfl⟩ | ⟨_, added, hadded, _⟩
      · exact ⟨memory, reserved, hmemory, hreserved, htaken⟩
      · exact ⟨added, reserved, hadded, hreserved, htaken⟩
  | reserve base size =>
      obtain ⟨code, grown, hadd, hresult⟩ := hreserved.add hallowed.1 hallowed.2
      rw [lmbCall_reserve hadd] at hcall
      cases hcall
      rcases hresult with ⟨rfl, rfl⟩ | ⟨_, added, hadded, hcovers⟩
      · refine ⟨memory, reserved, hmemory, hreserved, fun a ha => ?_⟩
        rcases ha with ha | ⟨hcode, _⟩
        · exact htaken a ha
        · exact absurd hcode (show ¬ (0 : Int) <= -1 by decide)
      · refine ⟨memory, added, hmemory, hadded, fun a ha => (hcovers a).2 ?_⟩
        rcases ha with ha | ⟨_, hhas⟩
        · exact Or.inr (htaken a ha)
        · exact Or.inl hhas
  | free base size =>
      exact hallowed.elim
  | alloc size align maxAddr =>
      rcases lmbAllocBase_orderly hmemory hreserved hallowed with hzero |
        ⟨addr, grown, added, halloc, _, hadded, hcovers⟩
      · rw [lmbCall_alloc hzero] at hcall
        cases hcall
        refine ⟨memory, reserved, hmemory, hreserved, fun a ha => ?_⟩
        rcases ha with ha | ⟨hne, _⟩
        · exact htaken a ha
        · exact absurd rfl hne
      · rw [lmbCall_alloc halloc] at hcall
        cases hcall
        refine ⟨memory, added, hmemory, hadded, fun a ha => (hcovers a).2 ?_⟩
        rcases ha with ha | ⟨_, hhas⟩
        · exact Or.inr (htaken a ha)
        · exact Or.inl hhas

theorem lmb_alloc_postcondition {start : Lmb} (hslots : HasSlots start)
    {calls : List LmbCall} {s : LmbState}
    (hrun : Run (LmbStep Orderly) (LmbState.init start) calls s)
    {size align maxAddr : BitVec 32} (hallowed : Orderly s.lmb (.alloc size align maxAddr)) :
    exists addr after, lmbAllocBase s.lmb size align maxAddr = some (addr, after) ∧
      (addr = 0#32 ∨
        align.toNat ∣ addr.toNat ∧
        (exists region, region ∈ s.lmb.memory.ranges ∧ region.start <= addr.toNat ∧
          addr.toNat + size.toNat <= region.stop) ∧
        (maxAddr ≠ lmbAllocAnywhere -> addr.toNat + size.toNat <= maxAddr.toNat) ∧
        forall a : BitVec 32, (area addr size).Has a.toNat ->
          ¬ s.taken a.toNat ∧ ¬ Covers s.lmb.reserved.ranges a.toNat ∧
            lmbIsReserved after a = some true) := by
  have hkept : s.Kept :=
    hrun.invariant LmbState.Kept (fun _ _ _ hs hstep => kept_step hs hstep) (kept_init hslots)
  obtain ⟨memory, reserved, hmemory, hreserved, htaken⟩ := hkept
  rcases lmbAllocBase_orderly hmemory hreserved hallowed with hzero |
    ⟨addr, grown, added, halloc, ⟨region, hmem, hplace⟩, hadded, hcovers⟩
  · exact ⟨0#32, s.lmb, hzero, Or.inl rfl⟩
  refine ⟨addr, _, halloc, Or.inr ⟨dvd_of_aligned hallowed.2.1 hplace.aligned, ?_, ?_, ?_⟩⟩
  · refine ⟨region, hmemory.ranges_eq ▸ hmem, hplace.lower,
      Nat.le_trans hplace.upper (searchTop_le _ _)⟩
  · intro hlimited
    refine Nat.le_trans hplace.upper ?_
    unfold searchTop
    rw [if_neg hlimited]
    exact Nat.min_le_right _ _
  · intro a ha
    have hfree : ¬ Covers (rangesOf reserved) a.toNat := by
      rintro ⟨r, hr, hra⟩
      have hapart := hplace.free r hr
      unfold Range.Apart at hapart
      unfold area at ha
      unfold Range.Has at ha hra
      omega
    have hround : size.toNat <= (lmbAlignUp size align).toNat := by
      apply le_lmbAlignUp hallowed.2.1 hplace.aligned hplace.ne_zero
      exact Nat.lt_of_le_of_lt (Nat.le_trans hplace.upper (searchTop_le _ _))
        (hmemory.below region hmem)
    have hcovered : Covers (rangesOf added) a.toNat := by
      refine (hcovers a.toNat).2 (Or.inl ?_)
      unfold area Range.Has Range.stop at *
      dsimp only at *
      omega
    obtain ⟨found, hreservedAt, hfound, _⟩ :=
      lmbIsReserved_spec { s.lmb with reserved := grown } a hadded.shows hadded.below
    refine ⟨fun h => hfree (htaken _ h), ?_, ?_⟩
    · rw [hreserved.ranges_eq]
      exact hfree
    · rw [hreservedAt, hfound hcovered]

def clearedLmb : Lmb :=
  ⟨⟨0#32, List.replicate 9 ⟨0#32, 0#32⟩⟩, ⟨0#32, List.replicate 9 ⟨0#32, 0#32⟩⟩⟩

def oneRegion (base size : BitVec 32) : LmbRegion :=
  ⟨1#32, ⟨base, size⟩ :: List.replicate 8 ⟨0#32, 0#32⟩⟩

section

variable {allowed : Lmb -> LmbCall -> Prop} {lmb after : Lmb} {taken : Nat -> Prop}
  {call : LmbCall} {value : Int}

theorem lmbStep_of_call (hallowed : allowed lmb call)
    (h : lmbCall lmb call = some (value, after)) :
    LmbStep allowed ⟨lmb, taken⟩ call ⟨after, call.effect value taken⟩ :=
  ⟨hallowed, value, after, h, rfl⟩

end

/-- The tables with one memory region and one reserved region. -/
def onePair (base size reservedBase reservedSize : BitVec 32) : Lmb :=
  ⟨oneRegion base size, oneRegion reservedBase reservedSize⟩

theorem clearedLmb_slots : HasSlots clearedLmb := ⟨rfl, rfl⟩

theorem lmb_alloc_postcondition_page :
    exists addr after, lmbAllocBase (onePair 0x1000#32 0x10000#32 0#32 0#32)
        0x800#32 0x1000#32 lmbAllocAnywhere = some (addr, after) ∧
      (addr = 0#32 ∨ 0x1000 ∣ addr.toNat ∧ addr.toNat + 0x800 <= 0x11000) := by
  have hmemory : (oneRegion 0x1000#32 0x10000#32).ranges = [⟨0x1000, 0x10000⟩] := by decide
  have hadd : lmbCall (lmbInit clearedLmb) (.add 0x1000#32 0x10000#32) =
      some (0, onePair 0x1000#32 0x10000#32 0#32 0#32) := by decide
  have hadds : Orderly (lmbInit clearedLmb) (.add 0x1000#32 0x10000#32) :=
    ⟨by decide, Or.inr (List.pairwise_singleton _ _)⟩
  have hallowed : Orderly (onePair 0x1000#32 0x10000#32 0#32 0#32)
      (.alloc 0x800#32 0x1000#32 lmbAllocAnywhere) := by
    refine ⟨by decide, ⟨12, by decide, by decide⟩, fun region hregion hsearched => ?_,
      fun addr hpicked => ⟨?_, Or.inr (List.pairwise_singleton _ _)⟩⟩
    · exact Nat.le_trans hsearched.1 (Nat.le_add_left _ _)
    · obtain ⟨front, region, back, hsplit, _, hplace, _⟩ := hpicked
      have hmem : region ∈ (oneRegion 0x1000#32 0x10000#32).ranges :=
        hsplit ▸ List.mem_append_right _ List.mem_cons_self
      have hregion : region = ⟨0x1000, 0x10000⟩ := List.mem_singleton.1 (hmemory ▸ hmem)
      rw [hregion] at hplace
      have hupper : addr.toNat + 0x800 <= 0x11000 := hplace.upper
      have hround : lmbAlignUp 0x800#32 0x1000#32 = 0x1000#32 := by decide
      rw [hround]
      show addr.toNat + 0x1000 < 4294967296
      omega
  obtain ⟨addr, after, halloc, hresult⟩ := lmb_alloc_postcondition clearedLmb_slots
    (.cons (lmbStep_of_call hadds hadd) (.nil _)) hallowed
  refine ⟨addr, after, halloc, hresult.imp_right (fun h => ⟨h.1, ?_⟩)⟩
  obtain ⟨region, hmem, _, hupper⟩ := h.2.1
  have hregion : region = ⟨0x1000, 0x10000⟩ := List.mem_singleton.1 (hmemory ▸ hmem)
  rw [hregion] at hupper
  exact hupper

/-- A limit below the size: the address wraps. -/
theorem lmb_alloc_wraps :
    exists s after, Run (LmbStep (fun _ => NonWrapping)) (LmbState.init clearedLmb)
        [.add 0#32 0x4000000#32] s ∧
      lmbAllocBase s.lmb 0x2000#32 0x1000#32 0x1000#32 = some (0xfffff000#32, after) ∧
      ¬ (0xfffff000#32).toNat + (0x2000#32).toNat <= (0x1000#32).toNat ∧
      forall region, region ∈ s.lmb.memory.ranges ->
        ¬ (0xfffff000#32).toNat + (0x2000#32).toNat <= region.stop := by
  have hmemory : (oneRegion 0#32 0x4000000#32).ranges = [⟨0, 0x4000000⟩] := by decide
  have hadd : lmbCall (lmbInit clearedLmb) (.add 0#32 0x4000000#32) =
      some (0, onePair 0#32 0x4000000#32 0#32 0#32) := by decide
  have hadds : NonWrapping (.add 0#32 0x4000000#32) :=
    show (area 0#32 0x4000000#32).stop < addressLimit by decide
  refine ⟨_, onePair 0#32 0x4000000#32 0xfffff000#32 0x2000#32,
    .cons (lmbStep_of_call hadds hadd) (.nil _), by decide +kernel, by decide,
    fun region hmem => ?_⟩
  have hregion : region = ⟨0, 0x4000000⟩ := List.mem_singleton.1 (hmemory ▸ hmem)
  rw [hregion]
  decide

/-!
# Separate tables in a run
-/

/--
Calls that keep the regions of a table separate: no region wraps, a new one is apart from
the others, and a free leaves a region and does not split one of a full table.  When an
allocation rounds its size up, the highest place has to fit with the rounded size.
-/
def Fitting (lmb : Lmb) : LmbCall -> Prop
  | .add base size =>
      (area base size).stop < addressLimit ∧
        Fits maxLmbRegions (area base size) lmb.memory.ranges
  | .reserve base size =>
      (area base size).stop < addressLimit ∧
        Fits maxLmbRegions (area base size) lmb.reserved.ranges
  | .free base size =>
      (area base size).stop < addressLimit ∧
        Releases maxLmbRegions (area base size) lmb.reserved.ranges
  | .alloc size align maxAddr =>
      (forall region, region ∈ lmb.memory.ranges -> Searched size maxAddr region ->
        size.toNat <= searchTop maxAddr region) ∧
      (size ≠ 0#32 ∧ lmbAlignUp size align = size ∨
        PowerOfTwo align ∧ forall addr, Picked lmb size align maxAddr addr ->
          (area addr (lmbAlignUp size align)).stop < addressLimit ∧
            Fits maxLmbRegions (area addr (lmbAlignUp size align)) lmb.reserved.ranges)

structure Tabled (rgn : LmbRegion) (entries : List LmbProperty) : Prop where
  shows : Shows rgn entries
  table : Table maxLmbRegions addressLimit (rangesOf entries)

theorem tabled_init {rgn : LmbRegion} (h : rgn.region.length = maxLmbRegions + 1) :
    Tabled rgn.init [⟨0#32, 0#32⟩] where
  shows := shows_init h
  table :=
    { separate := List.pairwise_singleton _ _
      solid := Or.inl ⟨0, rfl⟩
      below := below_cons.2 ⟨by decide, fun _ h => nomatch h⟩
      length_le := by decide
      ne_nil := List.cons_ne_nil _ _ }

theorem Tabled.ranges_eq (h : Tabled rgn entries) : rgn.ranges = rangesOf entries := by
  unfold LmbRegion.ranges
  rw [h.shows.entries_eq]

theorem Tabled.entries_ne_nil (h : Tabled rgn entries) : entries ≠ [] := by
  rintro rfl
  exact h.table.ne_nil rfl

theorem Tabled.add {base size : BitVec 32} (h : Tabled rgn entries)
    (hlimit : (area base size).stop < addressLimit)
    (hfits : Fits maxLmbRegions (area base size) (rangesOf entries)) :
    exists code after, lmbAddRegion rgn base size = some (code, after) ∧
      ((code = -1 ∧ after = rgn) ∨
        (0 <= code ∧ exists added, Tabled after added ∧
          forall a, Covers (rangesOf added) a <->
            (area base size).Has a ∨ Covers (rangesOf entries) a)) := by
  have hordered := ordered_of_separate h.table.separate
  obtain ⟨code, after, hadd, hresult⟩ := lmbAddRegion_spec h.shows h.entries_ne_nil hordered
    h.table.below (show (LmbProperty.mk base size).range = area base size from rfl) hlimit
  refine ⟨code, after, hadd, ?_⟩
  rcases hresult with ⟨_, hcode, hafter⟩ | ⟨hcode, added, hshows, hadded⟩
  · exact Or.inl ⟨hcode, hafter⟩
  · exact Or.inr ⟨hcode, added,
      ⟨hshows, h.table.add hfits hlimit (by decide) hadded⟩,
      fun a => covers_addRange hordered hadded⟩

theorem Tabled.free {base size : BitVec 32} (h : Tabled rgn entries)
    (hlimit : (area base size).stop < addressLimit)
    (hreleases : Releases maxLmbRegions (area base size) (rangesOf entries)) :
    exists code after, lmbFreeRegion rgn base size = some (code, after) ∧
      ((code = -1 ∧ after = rgn) ∨
        (0 <= code ∧ exists rest, Tabled after rest ∧
          forall a, Covers (rangesOf rest) a <->
            Covers (rangesOf entries) a ∧ ¬ (area base size).Has a)) := by
  rcases lmbFreeRegion_spec h.shows h.table.below
    (show (LmbProperty.mk base size).range = area base size from rfl) hlimit with
    ⟨_, hfree⟩ | ⟨after, rest, hfree, hshows, hrelease⟩ |
    ⟨middle, rest, tail, hshows, hfree, hrelease⟩
  · exact ⟨-1, rgn, hfree, Or.inl ⟨rfl, rfl⟩⟩
  · obtain ⟨ranges, hranges, htable, hcovers⟩ := h.table.release hreleases
      (by rw [hrelease]; exact Option.some_ne_none _) (by decide)
    unfold releaseRange at hranges
    rw [hrelease] at hranges
    cases hranges
    exact ⟨0, after, hfree, Or.inr ⟨Int.le_refl 0, rest, ⟨hshows, htable⟩, hcovers⟩⟩
  · obtain ⟨ranges, hranges, htable, hcovers⟩ := h.table.release hreleases
      (by rw [hrelease]; exact Option.some_ne_none _) (by decide)
    unfold releaseRange at hranges
    rw [hrelease] at hranges
    dsimp only at hranges
    have hrest := h.table.release_rest hreleases hrelease
    obtain ⟨_, _, _, ⟨s, hs, _, _, hstop⟩, _⟩ := release_tail h.table.separate hrelease
    obtain ⟨code, after, hadd, hresult⟩ := lmbAddRegion_spec hshows
      (fun hnil => hrest.ne_nil (by rw [hnil]; rfl)) (ordered_of_separate hrest.separate)
      hrest.below (show (LmbProperty.mk tail.base tail.size).range = tail.range from rfl)
      (hstop ▸ h.table.below s hs)
    rcases hresult with ⟨hnone, _⟩ | ⟨hcode, added, hshowsAdded, hadded⟩
    · rw [hnone] at hranges
      cases hranges
    · rw [hadded] at hranges
      cases hranges
      exact ⟨code, after, by rw [hfree, hadd],
        Or.inr ⟨hcode, added, ⟨hshowsAdded, htable⟩, hcovers⟩⟩

theorem Tabled.alloc {lmb : Lmb} {memory reserved : List LmbProperty}
    {size align maxAddr : BitVec 32} (hmemory : Tabled lmb.memory memory)
    (hreserved : Tabled lmb.reserved reserved)
    (hallowed : Fitting lmb (.alloc size align maxAddr)) :
    lmbAllocBase lmb size align maxAddr = some (0#32, lmb) ∨
      exists addr after added,
        lmbAllocBase lmb size align maxAddr = some (addr, { lmb with reserved := after }) ∧
        addr ≠ 0#32 ∧ Tabled after added ∧
        forall a, Covers (rangesOf added) a <->
          (area addr (lmbAlignUp size align)).Has a ∨ Covers (rangesOf reserved) a := by
  obtain ⟨hsearch, hrounds⟩ := hallowed
  rw [hmemory.ranges_eq] at hsearch
  rw [hreserved.ranges_eq] at hrounds
  rcases lmbAllocBase_spec hmemory.shows hreserved.shows
    hmemory.entries_ne_nil hreserved.table.below hmemory.table.below hsearch with hzero |
    ⟨addr, halloc, ⟨region, hmem, _, hplace⟩, hpicked⟩
  · exact Or.inl hzero
  have hfitting : (area addr (lmbAlignUp size align)).stop < addressLimit ∧
      Fits maxLmbRegions (area addr (lmbAlignUp size align)) (rangesOf reserved) := by
    rcases hrounds with ⟨hsize, hexact⟩ | ⟨halign, hpicks⟩
    · rw [hexact]
      refine ⟨?_, Fits.apart ?_ hplace.free⟩
      · exact Nat.lt_of_le_of_lt (Nat.le_trans hplace.upper (searchTop_le _ _))
          (hmemory.table.below region hmem)
      · exact Nat.pos_of_ne_zero (fun hzero => hsize (BitVec.eq_of_toNat_eq hzero))
    · exact hpicks addr (hpicked halign)
  obtain ⟨code, after, hadd, hresult⟩ := hreserved.add hfitting.1 hfitting.2
  unfold takeAlloc at halloc
  rw [hadd, Option.map_some] at halloc
  rcases hresult with ⟨hcode, _⟩ | ⟨hcode, added, hafter, hcovers⟩
  · rw [hcode, if_pos (show (-1 : Int) < 0 by decide)] at halloc
    exact Or.inl halloc
  · rw [if_neg (Int.not_lt.2 hcode)] at halloc
    exact Or.inr ⟨addr, after, added, halloc, hplace.ne_zero, hafter, hcovers⟩

/-- The tables have separate regions, and the reserved one the reserved addresses. -/
def LmbState.Exact (s : LmbState) : Prop :=
  exists memory reserved, Tabled s.lmb.memory memory ∧ Tabled s.lmb.reserved reserved ∧
    forall a, s.taken a <-> Covers (rangesOf reserved) a

theorem exact_init {start : Lmb} (h : HasSlots start) : (LmbState.init start).Exact := by
  refine ⟨_, _, tabled_init h.1, tabled_init h.2, fun a => ⟨fun hf => hf.elim, fun hcovers => ?_⟩⟩
  exact absurd hcovers (not_covers_vacant ⟨0, rfl⟩)

theorem exact_call {s : LmbState} {call : LmbCall} (hs : s.Exact)
    (hallowed : Fitting s.lmb call) :
    exists value after, lmbCall s.lmb call = some (value, after) ∧
      (value = -1 -> after = s.lmb) ∧ (LmbState.mk after (call.effect value s.taken)).Exact := by
  obtain ⟨memory, reserved, hmemory, hreserved, htaken⟩ := hs
  cases call with
  | add base size =>
      obtain ⟨code, grown, hadd, hresult⟩ := hmemory.add hallowed.1
        (hmemory.ranges_eq ▸ hallowed.2)
      refine ⟨code, { s.lmb with memory := grown }, lmbCall_add hadd, ?_, ?_⟩
      · intro hcode
        rcases hresult with ⟨_, rfl⟩ | ⟨hnonneg, _⟩
        · rfl
        · omega
      · rcases hresult with ⟨_, rfl⟩ | ⟨_, added, hadded, _⟩
        · exact ⟨memory, reserved, hmemory, hreserved, htaken⟩
        · exact ⟨added, reserved, hadded, hreserved, htaken⟩
  | reserve base size =>
      obtain ⟨code, grown, hadd, hresult⟩ := hreserved.add hallowed.1
        (hreserved.ranges_eq ▸ hallowed.2)
      refine ⟨code, { s.lmb with reserved := grown }, lmbCall_reserve hadd, ?_, ?_⟩
      · intro hcode
        rcases hresult with ⟨_, rfl⟩ | ⟨hnonneg, _⟩
        · rfl
        · omega
      · rcases hresult with ⟨rfl, rfl⟩ | ⟨hcode, added, hadded, hcovers⟩
        · refine ⟨memory, reserved, hmemory, hreserved, fun a => ?_⟩
          rw [← htaken a]
          exact or_iff_left (fun h => absurd h.1 (show ¬ (0 : Int) <= -1 by decide))
        · refine ⟨memory, added, hmemory, hadded, fun a => ?_⟩
          rw [hcovers a, ← htaken a, or_comm]
          exact or_congr_right (and_iff_right hcode)
  | free base size =>
      obtain ⟨code, freed, hfree, hresult⟩ := hreserved.free hallowed.1
        (hreserved.ranges_eq ▸ hallowed.2)
      refine ⟨code, { s.lmb with reserved := freed }, lmbCall_free hfree, ?_, ?_⟩
      · intro hcode
        rcases hresult with ⟨_, rfl⟩ | ⟨hnonneg, _⟩
        · rfl
        · omega
      · rcases hresult with ⟨rfl, rfl⟩ | ⟨hcode, rest, hrest, hcovers⟩
        · refine ⟨memory, reserved, hmemory, hreserved, fun a => ?_⟩
          rw [← htaken a]
          exact and_iff_left (fun h => absurd h.1 (show ¬ (0 : Int) <= -1 by decide))
        · refine ⟨memory, rest, hmemory, hrest, fun a => ?_⟩
          rw [hcovers a, ← htaken a]
          exact and_congr_right (fun _ => not_congr (and_iff_right hcode))
  | alloc size align maxAddr =>
      rcases hmemory.alloc hreserved hallowed with hzero |
        ⟨addr, grown, added, halloc, hne, hadded, hcovers⟩
      · refine ⟨0, s.lmb, lmbCall_alloc hzero, fun _ => rfl, memory, reserved, hmemory,
          hreserved, fun a => ?_⟩
        rw [← htaken a]
        exact or_iff_left (fun h => h.1 rfl)
      · refine ⟨(addr.toNat : Int), { s.lmb with reserved := grown }, lmbCall_alloc halloc,
          ?_, memory, added, hmemory, hadded, fun a => ?_⟩
        · intro hcode
          omega
        · have hvalue : (addr.toNat : Int) ≠ 0 := by
            intro hzero
            exact hne (BitVec.eq_of_toNat_eq (Int.ofNat.inj hzero))
          rw [hcovers a, ← htaken a, or_comm]
          exact or_congr_right (and_iff_right hvalue)

theorem lmb_tables_kept {start : Lmb} (hslots : HasSlots start) {calls : List LmbCall}
    {s : LmbState} (hrun : Run (LmbStep Fitting) (LmbState.init start) calls s) :
    (Separate s.lmb.memory.ranges ∧ s.lmb.memory.cnt.toNat <= maxLmbRegions) ∧
    (Separate s.lmb.reserved.ranges ∧ s.lmb.reserved.cnt.toNat <= maxLmbRegions) ∧
    (forall call, Fitting s.lmb call -> exists value after,
      lmbCall s.lmb call = some (value, after) ∧ (value = -1 -> after = s.lmb)) ∧
    forall addr, exists found, lmbIsReserved s.lmb addr = some found ∧
      (s.lmb.reserved.ranges ≠ [⟨0, 0⟩] -> (found = true <-> s.taken addr.toNat)) := by
  have hexact : s.Exact := by
    refine hrun.invariant LmbState.Exact (fun s call t hs hstep => ?_) (exact_init hslots)
    obtain ⟨hallowed, value, after, hcall, rfl⟩ := hstep
    obtain ⟨value', after', hcall', _, hnext⟩ := exact_call hs hallowed
    rw [hcall] at hcall'
    cases hcall'
    exact hnext
  have hcalls : forall call, Fitting s.lmb call -> exists value after,
      lmbCall s.lmb call = some (value, after) ∧ (value = -1 -> after = s.lmb) := by
    intro call hallowed
    obtain ⟨value, after, hcall, hfailed, _⟩ := exact_call hexact hallowed
    exact ⟨value, after, hcall, hfailed⟩
  obtain ⟨memory, reserved, hmemory, hreserved, htaken⟩ := hexact
  have hcount : forall {rgn : LmbRegion} {entries : List LmbProperty}, Tabled rgn entries ->
      Separate rgn.ranges ∧ rgn.cnt.toNat <= maxLmbRegions := by
    intro rgn entries h
    refine ⟨h.ranges_eq ▸ h.table.separate, ?_⟩
    have hlength := h.table.length_le
    unfold rangesOf at hlength
    rw [List.length_map] at hlength
    rw [h.shows.count]
    exact hlength
  refine ⟨hcount hmemory, hcount hreserved, hcalls, fun addr => ?_⟩
  obtain ⟨found, hfound, hcovers, hsound⟩ :=
    lmbIsReserved_spec s.lmb addr hreserved.shows hreserved.table.below
  refine ⟨found, hfound, fun hused => ?_⟩
  rw [hreserved.ranges_eq] at hused
  rw [htaken]
  refine ⟨fun h => ?_, hcovers⟩
  rcases hreserved.table.solid with ⟨start, hvacant⟩ | hsolid
  · -- an empty entry that does not start at zero
    have hstart : start ≠ 0 := by
      rintro rfl
      exact hused hvacant
    rw [lmbIsReserved_vacant hreserved.shows hvacant hstart] at hfound
    rw [← Option.some.inj hfound] at h
    exact absurd h (by decide)
  · exact hsound hsolid h

theorem lmb_tables_kept_front :
    Separate (oneRegion 0x2800#32 0x800#32).ranges ∧
      lmbIsReserved (onePair 0x1000#32 0x10000#32 0x2800#32 0x800#32) 0x2900#32 = some true := by
  have hadd : lmbCall (lmbInit clearedLmb) (.add 0x1000#32 0x10000#32) =
      some (0, onePair 0x1000#32 0x10000#32 0#32 0#32) := by decide
  have hadds : Fitting (lmbInit clearedLmb) (.add 0x1000#32 0x10000#32) :=
    ⟨by decide, .vacant ⟨0, rfl⟩⟩
  have hreserve : lmbCall (onePair 0x1000#32 0x10000#32 0#32 0#32)
      (.reserve 0x2000#32 0x1000#32) =
      some (0, onePair 0x1000#32 0x10000#32 0x2000#32 0x1000#32) := by decide
  have hreserves : Fitting (onePair 0x1000#32 0x10000#32 0#32 0#32)
      (.reserve 0x2000#32 0x1000#32) := ⟨by decide, .vacant ⟨0, rfl⟩⟩
  have hfree : lmbCall (onePair 0x1000#32 0x10000#32 0x2000#32 0x1000#32)
      (.free 0x2000#32 0x800#32) =
      some (0, onePair 0x1000#32 0x10000#32 0x2800#32 0x800#32) := by decide
  have hfrees : Fitting (onePair 0x1000#32 0x10000#32 0x2000#32 0x1000#32)
      (.free 0x2000#32 0x800#32) := ⟨by decide, by decide, fun h => absurd h (by decide)⟩
  obtain ⟨_, hreserved, _, hanswer⟩ := lmb_tables_kept clearedLmb_slots
    (.cons (lmbStep_of_call hadds hadd) (.cons (lmbStep_of_call hreserves hreserve)
      (.cons (lmbStep_of_call hfrees hfree) (.nil _))))
  refine ⟨hreserved.1, ?_⟩
  obtain ⟨found, hfound, htaken⟩ := hanswer 0x2900#32
  have hused : (oneRegion 0x2800#32 0x800#32).ranges ≠ [⟨0, 0⟩] := by decide
  have hlower : (area 0x2000#32 0x1000#32).Has 0x2900 := ⟨by decide, by decide⟩
  have hupper : ¬ (area 0x2000#32 0x800#32).Has 0x2900 := fun h => absurd h.2 (by decide)
  rw [hfound, (htaken hused).2 ⟨Or.inr ⟨Int.le_refl 0, hlower⟩, fun h => hupper h.2⟩]

/-- Behind a free of the last region, the next reservation leaves the array. -/
theorem lmb_free_last :
    exists s, Run (LmbStep (fun _ => NonWrapping)) (LmbState.init clearedLmb)
        [.reserve 0#32 0x10#32, .free 0#32 0x10#32] s ∧
      NonWrapping (.reserve 0x100#32 0x10#32) ∧
      lmbCall s.lmb (.reserve 0x100#32 0x10#32) = none := by
  have hreserve : lmbCall (lmbInit clearedLmb) (.reserve 0#32 0x10#32) =
      some (0, onePair 0#32 0#32 0#32 0x10#32) := by decide
  have hfree : lmbCall (onePair 0#32 0#32 0#32 0x10#32) (.free 0#32 0x10#32) =
      some (0, ⟨oneRegion 0#32 0#32, ⟨0#32, (oneRegion 0#32 0x10#32).region⟩⟩) := by decide
  have harea : (area 0#32 0x10#32).stop < addressLimit := by decide
  have hnext : (area 0x100#32 0x10#32).stop < addressLimit := by decide
  have hrun : Run (LmbStep (fun _ => NonWrapping)) (LmbState.init clearedLmb)
      [.reserve 0#32 0x10#32, .free 0#32 0x10#32] _ :=
    .cons (lmbStep_of_call (show NonWrapping (.reserve 0#32 0x10#32) from harea) hreserve)
      (.cons (lmbStep_of_call (show NonWrapping (.free 0#32 0x10#32) from harea) hfree) (.nil _))
  exact ⟨_, hrun, hnext, by decide +kernel⟩

end Boot
end Bab750
