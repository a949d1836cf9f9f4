import Mathlib.Data.BitVec

/-!
# Logical memory blocks

`lib/lmb.c`: the tables of the memory regions and of the reserved regions, with 32-bit
addresses and sizes.  A function has no result when it accesses a table outside its array.
-/

namespace Bab750
namespace Boot

/-!
# Tables
-/

structure LmbProperty where
  base : BitVec 32
  size : BitVec 32
deriving DecidableEq

/-- `struct lmb_region`, without the size that only the debug output reads. -/
structure LmbRegion where
  cnt : BitVec 32
  region : List LmbProperty
deriving DecidableEq

structure Lmb where
  memory : LmbRegion
  reserved : LmbRegion
deriving DecidableEq

def maxLmbRegions : Nat := 8

def lmbAddrsOverlap (base1 size1 base2 size2 : BitVec 32) : Bool :=
  base1 < base2 + size2 && base2 < base1 + size1

def lmbAddrsAdjacent (base1 size1 base2 size2 : BitVec 32) : Int :=
  if base2 = base1 + size1 then 1
  else if base1 = base2 + size2 then -1
  else 0

def lmbRegionsAdjacent (rgn : LmbRegion) (r1 r2 : Nat) : Option Int :=
  match rgn.region[r1]?, rgn.region[r2]? with
  | some first, some second =>
      some (lmbAddrsAdjacent first.base first.size second.base second.size)
  | _, _ => none

/-- The loop of `lmb_remove_region` over what follows the removed place. -/
def removeLoop : Nat -> List LmbProperty -> Option (List LmbProperty)
  | 0, region => some region
  | n + 1, _ :: next :: region =>
      (removeLoop n (next :: region)).map (fun moved => next :: moved)
  | _ + 1, _ => none

def lmbRemoveRegion (rgn : LmbRegion) (r : Nat) : Option LmbRegion :=
  (removeLoop ((rgn.cnt - 1#32).toNat - r) (rgn.region.drop r)).map (fun moved =>
    { cnt := rgn.cnt - 1#32, region := rgn.region.take r ++ moved })

def lmbCoalesceRegions (rgn : LmbRegion) (r1 r2 : Nat) : Option LmbRegion :=
  match rgn.region[r1]?, rgn.region[r2]? with
  | some first, some second =>
      lmbRemoveRegion
        { rgn with region := rgn.region.set r1 ⟨first.base, first.size + second.size⟩ } r2
  | _, _ => none

/-- The dummy entry of `lmb_init`. -/
def LmbRegion.init (rgn : LmbRegion) : LmbRegion :=
  { cnt := 1#32, region := rgn.region.set 0 ⟨0#32, 0#32⟩ }

/-- `lmb_init`; the other places of the arrays keep what they hold. -/
def lmbInit (lmb : Lmb) : Lmb := ⟨lmb.memory.init, lmb.reserved.init⟩

/-!
# Adding a region
-/

/-- How the first loop of `lmb_add_region` ends. -/
inductive Coalesced where
  | known
  | grown (i : Nat) (region : List LmbProperty)
  | passed

def Coalesced.behind (rgn : LmbProperty) : Coalesced -> Coalesced
  | .grown i region => .grown (i + 1) (rgn :: region)
  | other => other

/-- The first loop of `lmb_add_region`, over the entries that are left. -/
def coalesceLoop (base size : BitVec 32) : Nat -> List LmbProperty -> Option Coalesced
  | 0, _ => some .passed
  | _ + 1, [] => none
  | n + 1, rgn :: region =>
      if rgn.base = base ∧ rgn.size = size then some .known
      else if 0 < lmbAddrsAdjacent base size rgn.base rgn.size then
        some (.grown 0 (⟨rgn.base - size, rgn.size + size⟩ :: region))
      else if lmbAddrsAdjacent base size rgn.base rgn.size < 0 then
        some (.grown 0 (⟨rgn.base, rgn.size + size⟩ :: region))
      else (coalesceLoop base size n region).map (Coalesced.behind rgn)

/-- The loop that makes room for a new entry, from the place `n - 1` down. -/
def insertLoop (new : LmbProperty) : Nat -> List LmbProperty -> Option (List LmbProperty)
  | 0, region => some region
  | n + 1, region =>
      match region[n]? with
      | none => none
      | some rgn =>
          if n + 1 < region.length then
            if new.base < rgn.base then insertLoop new n (region.set (n + 1) rgn)
            else some (region.set (n + 1) new)
          else none

/-- The end of `lmb_add_region`, for a region that touches no other. -/
def lmbInsert (rgn : LmbRegion) (new : LmbProperty) : Option (Int × LmbRegion) :=
  if maxLmbRegions <= rgn.cnt.toNat then some (-1, rgn)
  else
    match insertLoop new ((rgn.cnt - 1#32).toInt + 1).toNat rgn.region with
    | none => none
    | some region =>
        match region[0]? with
        | none => none
        | some first =>
            let front := if new.base < first.base then region.set 0 new else region
            some (0, { cnt := rgn.cnt + 1#32, region := front })

/-- `lmb_add_region` behind its first loop. -/
def lmbCoalesceNext (rgn : LmbRegion) (new : LmbProperty) (i : Nat) (coalesced : Int) :
    Option (Int × LmbRegion) :=
  if i < (rgn.cnt - 1#32).toNat then
    match lmbRegionsAdjacent rgn i (i + 1) with
    | none => none
    | some adjacent =>
        if adjacent ≠ 0 then
          (lmbCoalesceRegions rgn i (i + 1)).map (fun merged => (coalesced + 1, merged))
        else if coalesced ≠ 0 then some (coalesced, rgn)
        else lmbInsert rgn new
  else if coalesced ≠ 0 then some (coalesced, rgn)
  else lmbInsert rgn new

def lmbAddRegion (rgn : LmbRegion) (base size : BitVec 32) : Option (Int × LmbRegion) :=
  match rgn.region[0]? with
  | none => none
  | some first =>
      if rgn.cnt = 1#32 ∧ first.size = 0#32 then
        some (0, { rgn with region := rgn.region.set 0 ⟨base, size⟩ })
      else
        match coalesceLoop base size rgn.cnt.toNat rgn.region with
        | none => none
        | some .known => some (0, rgn)
        | some (.grown i region) => lmbCoalesceNext { rgn with region := region } ⟨base, size⟩ i 1
        | some .passed => lmbCoalesceNext rgn ⟨base, size⟩ rgn.cnt.toNat 0

def lmbAdd (lmb : Lmb) (base size : BitVec 32) : Option (Int × Lmb) :=
  (lmbAddRegion lmb.memory base size).map (fun r => (r.1, { lmb with memory := r.2 }))

def lmbReserve (lmb : Lmb) (base size : BitVec 32) : Option (Int × Lmb) :=
  (lmbAddRegion lmb.reserved base size).map (fun r => (r.1, { lmb with reserved := r.2 }))

/-!
# Freeing a region
-/

/-- The loop of `lmb_free`: the place of the first region that contains an area. -/
def containerLoop (base stop : BitVec 32) : Nat -> Nat -> List LmbProperty ->
    Option (Option (Nat × LmbProperty))
  | 0, _, _ => some none
  | _ + 1, _, [] => none
  | n + 1, i, rgn :: region =>
      if rgn.base <= base ∧ stop <= rgn.base + rgn.size then some (some (i, rgn))
      else containerLoop base stop n (i + 1) region

def lmbFreeRegion (rgn : LmbRegion) (base size : BitVec 32) : Option (Int × LmbRegion) :=
  let stop := base + size
  match containerLoop base stop rgn.cnt.toNat 0 rgn.region with
  | none => none
  | some none => some (-1, rgn)
  | some (some (i, found)) =>
      let rgnend := found.base + found.size
      if found.base = base ∧ rgnend = stop then
        (lmbRemoveRegion rgn i).map (fun removed => (0, removed))
      else if found.base = base then
        some (0, { rgn with region := rgn.region.set i ⟨stop, found.size - size⟩ })
      else if rgnend = stop then
        some (0, { rgn with region := rgn.region.set i ⟨found.base, found.size - size⟩ })
      else
        lmbAddRegion { rgn with region := rgn.region.set i ⟨found.base, base - found.base⟩ }
          stop (rgnend - stop)

def lmbFree (lmb : Lmb) (base size : BitVec 32) : Option (Int × Lmb) :=
  (lmbFreeRegion lmb.reserved base size).map (fun r => (r.1, { lmb with reserved := r.2 }))

/-!
# Allocation
-/

/-- `lmb_overlaps_region`: the first entry that overlaps an area, with its place. -/
def overlapsLoop (base size : BitVec 32) : Nat -> Nat -> List LmbProperty ->
    Option (Option (Nat × LmbProperty))
  | 0, _, _ => some none
  | _ + 1, _, [] => none
  | n + 1, j, rgn :: region =>
      if lmbAddrsOverlap base size rgn.base rgn.size then some (some (j, rgn))
      else overlapsLoop base size n (j + 1) region

def lmbOverlapsRegion (rgn : LmbRegion) (base size : BitVec 32) :
    Option (Option (Nat × LmbProperty)) :=
  overlapsLoop base size rgn.cnt.toNat 0 rgn.region

def lmbAllocAnywhere : BitVec 32 := 0#32

def lmbAlignDown (addr size : BitVec 32) : BitVec 32 := addr &&& ~~~ (size - 1#32)

def lmbAlignUp (addr size : BitVec 32) : BitVec 32 := (addr + (size - 1#32)) &&& ~~~ (size - 1#32)

/-- How the inner loop of `__lmb_alloc_base` ends. -/
inductive Placed where
  | next
  | full
  | taken (base : BitVec 32) (reserved : LmbRegion)

/-- The inner loop of `__lmb_alloc_base`; every turn takes the base down. -/
def placeLoop (reserved : LmbRegion) (lmbbase size align : BitVec 32) :
    Nat -> BitVec 32 -> Option Placed
  | 0, _ => none
  | fuel + 1, base =>
      if base ≠ 0#32 ∧ lmbbase <= base then
        match lmbOverlapsRegion reserved base size with
        | none => none
        | some none =>
            (lmbAddRegion reserved base (lmbAlignUp size align)).map (fun added =>
              if added.1 < 0 then .full else .taken base added.2)
        | some (some (_, res)) =>
            if res.base < size then some .next
            else placeLoop reserved lmbbase size align fuel (lmbAlignDown (res.base - size) align)
      else some .next

/-- The loop of `__lmb_alloc_base` over the memory regions, from the place `n - 1` down. -/
def allocLoop (lmb : Lmb) (size align maxAddr : BitVec 32) : Nat -> Option (BitVec 32 × Lmb)
  | 0 => some (0#32, lmb)
  | n + 1 =>
      match lmb.memory.region[n]? with
      | none => none
      | some rgn =>
          if rgn.size < size then allocLoop lmb size align maxAddr n
          else if maxAddr ≠ lmbAllocAnywhere ∧ maxAddr <= rgn.base then
            allocLoop lmb size align maxAddr n
          else
            let top := rgn.base + rgn.size
            let base :=
              if maxAddr = lmbAllocAnywhere then lmbAlignDown (top - size) align
              else lmbAlignDown ((if top < maxAddr then top else maxAddr) - size) align
            match placeLoop lmb.reserved rgn.base size align (base.toNat + 1) base with
            | none => none
            | some .next => allocLoop lmb size align maxAddr n
            | some .full => some (0#32, lmb)
            | some (.taken base reserved) => some (base, { lmb with reserved := reserved })

def lmbAllocBase (lmb : Lmb) (size align maxAddr : BitVec 32) : Option (BitVec 32 × Lmb) :=
  allocLoop lmb size align maxAddr ((lmb.memory.cnt - 1#32).toInt + 1).toNat

/-- The loop of `lmb_is_reserved`. -/
def reservedLoop (addr : BitVec 32) : Nat -> List LmbProperty -> Option Bool
  | 0, _ => some false
  | _ + 1, [] => none
  | n + 1, rgn :: region =>
      if rgn.base <= addr ∧ addr <= rgn.base + rgn.size - 1#32 then some true
      else reservedLoop addr n region

def lmbIsReserved (lmb : Lmb) (addr : BitVec 32) : Option Bool :=
  reservedLoop addr lmb.reserved.cnt.toNat lmb.reserved.region

end Boot
end Bab750
