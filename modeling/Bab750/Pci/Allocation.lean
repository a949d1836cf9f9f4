import Bab750.Foundation.Run
import Bab750.Pci.Region
import Mathlib.Data.List.Pairwise

/-!
# Allocation in a region

`pciauto_region_init`, `pciauto_region_align` and `pciauto_region_allocate` of
`drivers/pci/pci_auto.c`. The cursor of a region and its capacity test are computed modulo
`2 ^ 32`; as long as the test does not wrap, what is granted is sound.
-/

namespace Bab750
namespace Pci

open Foundation

def pciautoRegionInit (res : Region) : Region :=
  { res with busLower := if res.busStart ≠ 0#32 then res.busStart else 0x1000#32 }

/-- `((bus_lower - 1) | (size - 1)) + 1` -/
def alignWord (lower size : Word) : Word := ((lower - 1#32) ||| (size - 1#32)) + 1#32

def pciautoRegionAlign (res : Region) (size : Word) : Region :=
  { res with busLower := alignWord res.busLower size }

def pciautoRegionAllocate (res : Region) (size : Word) : Option Word × Region :=
  let addr := alignWord res.busLower size
  if addr - res.busStart + size > res.size then (none, res)
  else (some addr, { res with busLower := addr + size })

/-- What a device can ask for: a power of two, which is zero when it does not fit a word. -/
def IsBarSize (size : Word) : Prop := exists k, k <= 32 ∧ size = BitVec.ofNat 32 (2 ^ k)

/-!
# Runs
-/

inductive Request where
  | align (size : Word)
  | allocate (size : Word)
deriving Repr, DecidableEq

def Request.size : Request -> Word
  | Request.align size => size
  | Request.allocate size => size

structure Grant where
  addr : Word
  size : Word
deriving Repr, DecidableEq

/-- A region and the ranges that were granted in it, the last one first. -/
structure Allocator where
  region : Region
  grants : List Grant
deriving Repr, DecidableEq

def Allocator.serve (s : Allocator) : Request -> Allocator
  | Request.align size => { s with region := pciautoRegionAlign s.region size }
  | Request.allocate size =>
      match pciautoRegionAllocate s.region size with
      | (none, region) => ⟨region, s.grants⟩
      | (some addr, region) => ⟨region, ⟨addr, size⟩ :: s.grants⟩

def initAllocator (res : Region) : Allocator := ⟨pciautoRegionInit res, []⟩

def Grant.Apart (a b : Grant) : Prop :=
  a.addr.toNat + a.size.toNat <= b.addr.toNat ∨ b.addr.toNat + b.size.toNat <= a.addr.toNat

/-- A range that is not empty, aligned to its size and inside the region. -/
structure Grant.Sound (res : Region) (g : Grant) : Prop where
  nonempty : g.size ≠ 0#32
  aligned : g.size.toNat ∣ g.addr.toNat
  inside : res.busStart.toNat <= g.addr.toNat ∧
    g.addr.toNat + g.size.toNat <= res.busStart.toNat + res.size.toNat

structure GrantsSound (res : Region) (grants : List Grant) : Prop where
  each : forall g, g ∈ grants -> g.Sound res
  apart : grants.Pairwise Grant.Apart

/-!
# The cursor without wrapping
-/

/-- The cursor; a cursor of zero has come to the end of the address space. -/
def cursor (res : Region) : Nat := if res.busLower = 0#32 then 2 ^ 32 else res.busLower.toNat

def wideSize (size : Word) : Nat := if size = 0#32 then 2 ^ 32 else size.toNat

def roundUp (n size : Nat) : Nat := ((n - 1) / size + 1) * size

/-- What the capacity test compares with the size of the region, without wrapping. -/
def extentAfter (res : Region) (size : Word) : Nat :=
  roundUp (cursor res) (wideSize size) - res.busStart.toNat + wideSize size

/-- The capacity test does not wrap, or it fails all the same. -/
def Unwrapped (res : Region) : Request -> Prop
  | Request.align _ => True
  | Request.allocate size =>
      extentAfter res size < 2 ^ 32 ∨ res.size.toNat < extentAfter res size % 2 ^ 32

instance (res : Region) (request : Request) : Decidable (Unwrapped res request) :=
  match request with
  | Request.align _ => isTrue trivial
  | Request.allocate _ => inferInstanceAs (Decidable (_ ∨ _))

theorem or_two_pow_sub_one (x k : Nat) : (x ||| (2 ^ k - 1)) + 1 = (x / 2 ^ k + 1) * 2 ^ k := by
  have hpos : 0 < 2 ^ k := Nat.two_pow_pos k
  have hlow : x % 2 ^ k ||| (2 ^ k - 1) = 2 ^ k - 1 := by
    apply Nat.eq_of_testBit_eq
    intro i
    rw [Nat.testBit_or, Nat.testBit_two_pow_sub_one, Nat.testBit_mod_two_pow]
    by_cases hi : i < k
    · simp [hi]
    · simp [hi]
  have hsplit : x ||| (2 ^ k - 1) = 2 ^ k * (x / 2 ^ k) + (2 ^ k - 1) := by
    have hx : x = 2 ^ k * (x / 2 ^ k) ||| x % 2 ^ k := by
      rw [← Nat.two_pow_add_eq_or_of_lt (Nat.mod_lt x hpos), Nat.div_add_mod]
    calc x ||| (2 ^ k - 1) = (2 ^ k * (x / 2 ^ k) ||| x % 2 ^ k) ||| (2 ^ k - 1) := by rw [← hx]
      _ = 2 ^ k * (x / 2 ^ k) ||| (2 ^ k - 1) := by rw [Nat.or_assoc, hlow]
      _ = 2 ^ k * (x / 2 ^ k) + (2 ^ k - 1) := by
          rw [Nat.two_pow_add_eq_or_of_lt (Nat.sub_lt hpos Nat.one_pos)]
  rw [hsplit, Nat.add_mul, Nat.one_mul, Nat.mul_comm (2 ^ k)]
  omega

theorem roundUp_ge {n size : Nat} (hn : 0 < n) (hsize : 0 < size) : n <= roundUp n size := by
  have hdiv := Nat.div_add_mod (n - 1) size
  have hmod := Nat.mod_lt (n - 1) hsize
  rw [roundUp, Nat.add_mul, Nat.one_mul, Nat.mul_comm]
  omega

/-- Rounding up to a power of two does not leave a larger power of two. -/
theorem roundUp_le {n k m : Nat} (hn : 0 < n) (hkm : k <= m) (hnm : n <= 2 ^ m) :
    roundUp n (2 ^ k) <= 2 ^ m := by
  have hsplit : 2 ^ m = 2 ^ (m - k) * 2 ^ k := by
    rw [← Nat.pow_add, Nat.sub_add_cancel hkm]
  rw [roundUp, hsplit]
  apply Nat.mul_le_mul_right
  have hlt : (n - 1) / 2 ^ k < 2 ^ (m - k) := by
    rw [Nat.div_lt_iff_lt_mul (Nat.two_pow_pos k), ← hsplit]
    omega
  omega

theorem dvd_roundUp (n size : Nat) : size ∣ roundUp n size := Nat.dvd_mul_left _ _

section Words

variable {res : Region} {size : Word}

theorem cursor_bounds (res : Region) : 0 < cursor res ∧ cursor res <= 2 ^ 32 := by
  have hlt := res.busLower.isLt
  unfold cursor
  split
  case isTrue =>
      omega
  case isFalse h =>
      have hpos : res.busLower.toNat ≠ 0 := fun hzero => h (BitVec.eq_of_toNat_eq hzero)
      omega

theorem cursor_mod (res : Region) : cursor res % 2 ^ 32 = res.busLower.toNat := by
  have hlt := res.busLower.isLt
  unfold cursor
  split
  case isTrue h =>
      rw [h]
      rfl
  case isFalse =>
      exact Nat.mod_eq_of_lt hlt

theorem cursor_eq {n : Nat} (hpos : 0 < n) (hle : n <= 2 ^ 32)
    (h : res.busLower.toNat = n % 2 ^ 32) : cursor res = n := by
  unfold cursor
  split
  case isTrue hzero =>
      rw [hzero] at h
      have hmod : n % 2 ^ 32 = 0 := h.symm
      omega
  case isFalse hne =>
      have hne' : res.busLower.toNat ≠ 0 := fun hzero => hne (BitVec.eq_of_toNat_eq hzero)
      rw [h] at hne' ⊢
      omega

theorem IsBarSize.wide (h : IsBarSize size) :
    exists k, k <= 32 ∧ wideSize size = 2 ^ k ∧ size.toNat = 2 ^ k % 2 ^ 32 := by
  rcases h with ⟨k, hk, rfl⟩
  have hmod : (BitVec.ofNat 32 (2 ^ k)).toNat = 2 ^ k % 2 ^ 32 := BitVec.toNat_ofNat ..
  refine ⟨k, hk, ?_, hmod⟩
  unfold wideSize
  by_cases hlast : k = 32
  · subst hlast
    rfl
  · have hlt : 2 ^ k < 2 ^ 32 := Nat.pow_lt_pow_right (by decide) (by omega)
    have hpos : 0 < 2 ^ k := Nat.two_pow_pos k
    rw [Nat.mod_eq_of_lt hlt] at hmod
    rw [if_neg, hmod]
    intro hzero
    rw [hzero] at hmod
    have hnone : 0 = 2 ^ k := hmod
    omega

theorem alignWord_toNat (h : IsBarSize size) :
    (alignWord res.busLower size).toNat = roundUp (cursor res) (wideSize size) % 2 ^ 32 := by
  rcases h.wide with ⟨k, hk, hwide, hmod⟩
  have hcursor := cursor_bounds res
  have hcmod := cursor_mod res
  have hpow : 2 ^ k <= 2 ^ 32 := Nat.pow_le_pow_right (by decide) hk
  have hpos : 0 < 2 ^ k := Nat.two_pow_pos k
  have hlower : (res.busLower - 1#32).toNat = cursor res - 1 := by
    rw [BitVec.toNat_sub, ← hcmod]
    simp only [BitVec.toNat_ofNat]
    omega
  have hmask : (size - 1#32).toNat = 2 ^ k - 1 := by
    rw [BitVec.toNat_sub, hmod]
    simp only [BitVec.toNat_ofNat]
    omega
  rw [alignWord, BitVec.toNat_add, BitVec.toNat_or, hlower, hmask, hwide, roundUp,
    ← or_two_pow_sub_one]
  rfl

end Words

/-!
# What a step keeps
-/

/-- The grants are sound, and they all lie below the cursor. -/
structure Kept (res : Region) (s : Allocator) : Prop where
  busStart : s.region.busStart = res.busStart
  size : s.region.size = res.size
  above : res.busStart.toNat <= cursor s.region
  sound : GrantsSound res s.grants
  below : forall g, g ∈ s.grants -> g.addr.toNat + g.size.toNat <= cursor s.region

theorem initAllocator_kept (res : Region) : Kept res (initAllocator res) := by
  refine ⟨rfl, rfl, ?_, ⟨fun g hg => (by cases hg), List.Pairwise.nil⟩,
    fun g hg => (by cases hg)⟩
  unfold cursor initAllocator pciautoRegionInit
  dsimp only
  by_cases hstart : res.busStart = 0#32
  · rw [hstart]
    exact Nat.zero_le _
  · rw [if_pos hstart, if_neg hstart]

section Step

variable {res : Region} {s : Allocator} {size : Word}

theorem align_cursor (hsize : IsBarSize size) :
    cursor (pciautoRegionAlign s.region size) =
      roundUp (cursor s.region) (wideSize size) ∧
        cursor s.region <= roundUp (cursor s.region) (wideSize size) := by
  have hcursor := cursor_bounds s.region
  rcases hsize.wide with ⟨k, hk, hwide, _⟩
  have hge : cursor s.region <= roundUp (cursor s.region) (wideSize size) := by
    rw [hwide]
    exact roundUp_ge hcursor.1 (Nat.two_pow_pos k)
  refine ⟨cursor_eq (by omega) ?_ (alignWord_toNat hsize), hge⟩
  rw [hwide]
  exact roundUp_le hcursor.1 hk hcursor.2

theorem align_kept (h : Kept res s) (hsize : IsBarSize size) :
    Kept res (s.serve (Request.align size)) := by
  rcases align_cursor (s := s) hsize with ⟨hcursor, hge⟩
  refine ⟨h.busStart, h.size, ?_, h.sound, fun g hg => ?_⟩
  · exact le_trans h.above (by rw [Allocator.serve, hcursor]; exact hge)
  · exact le_trans (h.below g hg) (by rw [Allocator.serve, hcursor]; exact hge)

theorem extent_toNat (h : Kept res s) (hsize : IsBarSize size) :
    (alignWord s.region.busLower size - s.region.busStart + size).toNat =
      extentAfter s.region size % 2 ^ 32 := by
  have hge := (align_cursor (s := s) hsize).2
  have habove := h.above
  have hstart := s.region.busStart.isLt
  rcases hsize.wide with ⟨k, hk, hwide, hmod⟩
  rw [← h.busStart] at habove
  rw [hwide] at hge
  rw [BitVec.toNat_add, BitVec.toNat_sub, alignWord_toNat hsize, hmod, extentAfter, hwide]
  omega

theorem allocate_granted (hspace : res.busStart.toNat + res.size.toNat <= 2 ^ 32)
    (h : Kept res s) (hsize : IsBarSize size)
    (hunwrapped : Unwrapped s.region (Request.allocate size))
    (hroom : ¬ alignWord s.region.busLower size - s.region.busStart + size > s.region.size) :
    (alignWord s.region.busLower size).toNat = roundUp (cursor s.region) (wideSize size) ∧
      size ≠ 0#32 ∧ wideSize size = size.toNat ∧
      roundUp (cursor s.region) (wideSize size) + size.toNat <=
        res.busStart.toNat + res.size.toNat := by
  have hge := (align_cursor (s := s) hsize).2
  have habove := h.above
  have haligned : (alignWord s.region.busLower size).toNat =
      roundUp (cursor s.region) (wideSize size) % 2 ^ 32 := alignWord_toNat hsize
  have hextent := extent_toNat h hsize
  rw [gt_iff_lt, BitVec.lt_def, hextent, h.size] at hroom
  have hfits : extentAfter s.region size < 2 ^ 32 := by
    rcases hunwrapped with hlt | hfails
    · exact hlt
    · rw [h.size] at hfails
      exact absurd hfails hroom
  rw [Nat.mod_eq_of_lt hfits] at hroom
  unfold extentAfter at hfits hroom
  rw [h.busStart] at hfits hroom
  have hsizeBound := res.size.isLt
  have hne : size ≠ 0#32 := by
    intro hzero
    have hwide : wideSize size = 2 ^ 32 := if_pos hzero
    omega
  have hwide : wideSize size = size.toNat := if_neg hne
  refine ⟨?_, hne, hwide, ?_⟩
  · rw [haligned, Nat.mod_eq_of_lt]
    have hpos : size.toNat ≠ 0 := fun hzero => hne (BitVec.eq_of_toNat_eq hzero)
    omega
  · omega

theorem allocate_kept (hspace : res.busStart.toNat + res.size.toNat <= 2 ^ 32)
    (h : Kept res s) (hsize : IsBarSize size)
    (hunwrapped : Unwrapped s.region (Request.allocate size)) :
    Kept res (s.serve (Request.allocate size)) := by
  have hge := (align_cursor (s := s) hsize).2
  by_cases hroom : alignWord s.region.busLower size - s.region.busStart + size > s.region.size
  · have hserve : s.serve (Request.allocate size) = s := by
      simp [Allocator.serve, pciautoRegionAllocate, hroom]
    rw [hserve]
    exact h
  · rcases allocate_granted hspace h hsize hunwrapped hroom with ⟨haddr, hne, hwide, hend⟩
    have hserve : s.serve (Request.allocate size) =
        ⟨{ s.region with busLower := alignWord s.region.busLower size + size },
          ⟨alignWord s.region.busLower size, size⟩ :: s.grants⟩ := by
      simp [Allocator.serve, pciautoRegionAllocate, hroom]
    have habove := h.above
    have hcursor : cursor { s.region with busLower := alignWord s.region.busLower size + size } =
        roundUp (cursor s.region) (wideSize size) + size.toNat := by
      have hpos : size.toNat ≠ 0 := fun hzero => hne (BitVec.eq_of_toNat_eq hzero)
      apply cursor_eq (by omega) (by omega)
      rw [BitVec.toNat_add, haddr]
    rw [hserve]
    refine ⟨h.busStart, h.size, ?_, ⟨?_, ?_⟩, ?_⟩
    · rw [hcursor]
      omega
    · intro g hg
      rcases List.mem_cons.mp hg with rfl | hg
      · refine ⟨hne, ?_, ?_, ?_⟩
        · dsimp only
          rw [haddr, hwide]
          exact dvd_roundUp _ _
        · dsimp only
          omega
        · dsimp only
          omega
      · exact h.sound.each g hg
    · refine List.pairwise_cons.mpr ⟨fun g hg => Or.inr ?_, h.sound.apart⟩
      have hbelow := h.below g hg
      dsimp only
      omega
    · intro g hg
      rw [hcursor]
      rcases List.mem_cons.mp hg with rfl | hg
      · dsimp only
        omega
      · have hbelow := h.below g hg
        omega

/-- An allocation whose capacity test wraps is granted outside the region or below the cursor. -/
theorem allocate_wrapped (h : Kept res s) (hsize : IsBarSize size)
    (hwrapped : ¬ Unwrapped s.region (Request.allocate size)) :
    exists addr, (pciautoRegionAllocate s.region size).1 = some addr ∧
      (¬ (Grant.mk addr size).Sound res ∨ addr.toNat < cursor s.region) := by
  have hge := (align_cursor (s := s) hsize).2
  have habove := h.above
  have hcursor := cursor_bounds s.region
  have haligned : (alignWord s.region.busLower size).toNat =
      roundUp (cursor s.region) (wideSize size) % 2 ^ 32 := alignWord_toNat hsize
  have hextent := extent_toNat h hsize
  simp only [Unwrapped, not_or, Nat.not_lt] at hwrapped
  have hroom : ¬ alignWord s.region.busLower size - s.region.busStart + size >
      s.region.size := by
    rw [gt_iff_lt, BitVec.lt_def, hextent]
    omega
  refine ⟨alignWord s.region.busLower size, by simp [pciautoRegionAllocate, hroom], ?_⟩
  by_cases hlast : roundUp (cursor s.region) (wideSize size) < 2 ^ 32
  · left
    intro hsound
    have hwide : wideSize size = size.toNat := if_neg hsound.nonempty
    have hinside := hsound.inside.2
    have hwraps := hwrapped.1
    have hsizeBound := res.size.isLt
    dsimp only at hinside
    rw [haligned, Nat.mod_eq_of_lt hlast] at hinside
    unfold extentAfter at hwraps
    rw [h.busStart] at hwraps
    omega
  · right
    rcases hsize.wide with ⟨k, hk, hwide, _⟩
    have hle : roundUp (cursor s.region) (wideSize size) <= 2 ^ 32 := by
      rw [hwide]
      exact roundUp_le hcursor.1 hk hcursor.2
    rw [haligned]
    omega

end Step

/-!
# Whole runs
-/

/-- A request of a device or a bridge whose capacity test does not wrap. -/
def FairStep (s : Allocator) (request : Request) (t : Allocator) : Prop :=
  IsBarSize request.size ∧ Unwrapped s.region request ∧ t = s.serve request

theorem serve_kept {res : Region} (hspace : res.busStart.toNat + res.size.toNat <= 2 ^ 32)
    {s t : Allocator} {request : Request} (h : Kept res s) (hstep : FairStep s request t) :
    Kept res t := by
  rcases hstep with ⟨hsize, hunwrapped, rfl⟩
  cases request with
  | align size =>
      exact align_kept h hsize
  | allocate size =>
      exact allocate_kept hspace h hsize hunwrapped

/-- Whatever is asked for, the granted ranges are sound as long as no capacity test wraps. -/
theorem allocation_sound {res : Region}
    (hspace : res.busStart.toNat + res.size.toNat <= 2 ^ 32) {requests : List Request}
    {s : Allocator} (hrun : Run FairStep (initAllocator res) requests s) :
    GrantsSound res s.grants :=
  (Run.invariant (Kept res) (fun _ _ _ h hstep => serve_kept hspace h hstep) hrun
    (initAllocator_kept res)).sound

def boardMem : Region := pciSetRegion 0x00000000#32 0xc0000000#32 0x3f000000#32 regionMem

/-- Registers in front of a bridge and behind it; the last one is refused. -/
def boardRequests : List Request :=
  [.allocate 0x1000#32, .allocate 0x100000#32, .allocate 0x100#32, .align 0x100000#32,
    .allocate 0x10000000#32, .allocate 0x1000#32, .allocate 0x20000000#32]

theorem allocation_sound_board :
    (boardRequests.foldl Allocator.serve (initAllocator boardMem)).grants =
        [⟨0x20000000#32, 0x1000#32⟩, ⟨0x10000000#32, 0x10000000#32⟩, ⟨0x200000#32, 0x100#32⟩,
          ⟨0x100000#32, 0x100000#32⟩, ⟨0x1000#32, 0x1000#32⟩] ∧
      GrantsSound boardMem
        (boardRequests.foldl Allocator.serve (initAllocator boardMem)).grants := by
  have hallowed : Allowed
      (fun (s : Allocator) (request : Request) =>
        (exists k, k ∈ [8, 12, 20, 28, 29] ∧ request.size = BitVec.ofNat 32 (2 ^ k)) ∧
          Unwrapped s.region request)
      Allocator.serve (initAllocator boardMem) boardRequests := by
    decide
  have hrun : Run FairStep (initAllocator boardMem) boardRequests
      (boardRequests.foldl Allocator.serve (initAllocator boardMem)) := by
    refine Run.of_allowed ?_ hallowed
    rintro s request ⟨⟨k, hk, hsize⟩, hunwrapped⟩
    refine ⟨⟨k, ?_, hsize⟩, hunwrapped, rfl⟩
    have hsmall : forall n, n ∈ [8, 12, 20, 28, 29] -> n ≤ 32 := by decide
    exact hsmall k hk
  exact ⟨by decide, allocation_sound (by decide) hrun⟩

/-- A device that asks for two gigabytes is granted the upper half of the bus. -/
theorem allocation_unsound :
    boardMem.busStart.toNat + boardMem.size.toNat <= 2 ^ 32 ∧ IsBarSize 0x80000000#32 ∧
      ((initAllocator boardMem).serve (Request.allocate 0x80000000#32)).grants =
        [⟨0x80000000#32, 0x80000000#32⟩] ∧
      ¬ GrantsSound boardMem
        ((initAllocator boardMem).serve (Request.allocate 0x80000000#32)).grants := by
  have hgrants : ((initAllocator boardMem).serve (Request.allocate 0x80000000#32)).grants =
      [⟨0x80000000#32, 0x80000000#32⟩] := by decide
  refine ⟨by decide, ⟨31, by decide, rfl⟩, hgrants, fun h => ?_⟩
  rw [hgrants] at h
  exact absurd (h.each _ List.mem_cons_self).inside.2 (by decide)

end Pci
end Bab750
