import Bab750.Pci.Region
import Mathlib.Data.List.Pairwise

/-!
# Address translation

`pci_hose_phys_to_bus` and `pci_hose_bus_to_phys` of `drivers/pci/pci.c`. Both look for the
region of an address, first without the system memory. A region is found by a compare with its
end, so one that ends with the address space is never found.
-/

namespace Bab750
namespace Pci

open Foundation

/-!
# Searching the regions
-/

/-- The type of a region is the one that is asked for. -/
def sameType (flags : Word) (res : Region) : Prop := (res.flags ^^^ flags) &&& regionType = 0#32

instance (flags : Word) (res : Region) : Decidable (sameType flags res) :=
  inferInstanceAs (Decidable (_ = _))

/-- The loop of both functions: what the first region of the type gives that is not skipped. -/
def searchRegions (flags skipMask : Word) (translate : Region -> Option Word) :
    List Region -> Option Word
  | [] => none
  | res :: regions =>
      if ¬ sameType flags res then searchRegions flags skipMask translate regions
      else if res.flags &&& skipMask ≠ 0#32 then searchRegions flags skipMask translate regions
      else
        match translate res with
        | some addr => some addr
        | none => searchRegions flags skipMask translate regions

def physToBus (physAddr : Word) (res : Region) : Option Word :=
  let busAddr := physAddr - res.physStart + res.busStart
  if between res.busStart res.size busAddr then some busAddr else none

def busToPhys (busAddr : Word) (res : Region) : Option Word :=
  if between res.busStart res.size busAddr then some (busAddr - res.busStart + res.physStart)
  else none

/-- The two passes of both functions: the address, and what goes to the console. -/
def searchTwice (regions : List Region) (flags : Word) (translate : Region -> Option Word)
    (message : List Byte) : Word × List Byte :=
  let first :=
    if flags &&& regionMem = regionMem then
      searchRegions flags regionSysMemory translate regions
    else none
  match first with
  | some addr => (addr, [])
  | none =>
      match searchRegions flags 0#32 translate regions with
      | some addr => (addr, [])
      | none => (0#32, message)

def pciHosePhysToBus (hose : Option (List Region)) (physAddr flags : Word) : Word × List Byte :=
  match hose with
  | none => (0#32, ascii "pci_hose_phys_to_bus: invalid hose\n")
  | some regions =>
      searchTwice regions flags (physToBus physAddr)
        (ascii "pci_hose_phys_to_bus: invalid physical address\n")

def pciHoseBusToPhys (hose : Option (List Region)) (busAddr flags : Word) : Word × List Byte :=
  match hose with
  | none => (0#32, ascii "pci_hose_bus_to_phys: invalid hose\n")
  | some regions =>
      searchTwice regions flags (busToPhys busAddr)
        (ascii "pci_hose_bus_to_phys: invalid physical address\n")

/-!
# What a search finds
-/

section Search

variable {flags : Word} {translate : Region -> Option Word} {regions : List Region}

theorem searchRegions_none (skipMask : Word)
    (h : forall res, res ∈ regions -> sameType flags res -> translate res = none) :
    searchRegions flags skipMask translate regions = none := by
  induction regions with
  | nil =>
      rfl
  | cons res regions ih =>
      have hrest := ih (fun res' hmem => h res' (List.mem_cons_of_mem _ hmem))
      rw [searchRegions, hrest]
      split
      · rfl
      · rename_i htype
        rw [h res List.mem_cons_self (Decidable.not_not.mp htype)]
        split <;> rfl

/-- What all regions of the type agree on is found when a region with it is not skipped. -/
theorem searchRegions_some {skipMask addr : Word} {res : Region} (hmem : res ∈ regions)
    (htype : sameType flags res) (hskip : res.flags &&& skipMask = 0#32)
    (hfound : translate res = some addr)
    (h : forall res', res' ∈ regions -> sameType flags res' ->
      translate res' = none ∨ translate res' = some addr) :
    searchRegions flags skipMask translate regions = some addr := by
  induction regions with
  | nil =>
      cases hmem
  | cons first regions ih =>
      have hrest := fun hmem => ih hmem (fun res' hmem' => h res' (List.mem_cons_of_mem _ hmem'))
      rw [searchRegions]
      rcases List.mem_cons.mp hmem with rfl | hmem'
      · rw [if_neg (not_not_intro htype), if_neg (not_not_intro hskip), hfound]
      · split
        · exact hrest hmem'
        · rename_i hfirst
          split
          · exact hrest hmem'
          · rcases h first List.mem_cons_self (Decidable.not_not.mp hfirst) with hnone | hsome
            · rw [hnone]
              exact hrest hmem'
            · rw [hsome]

theorem searchRegions_agree (skipMask : Word) {addr : Word}
    (h : forall res, res ∈ regions -> sameType flags res ->
      translate res = none ∨ translate res = some addr) :
    searchRegions flags skipMask translate regions = none ∨
      searchRegions flags skipMask translate regions = some addr := by
  induction regions with
  | nil =>
      exact Or.inl rfl
  | cons first regions ih =>
      have hrest := ih (fun res hmem => h res (List.mem_cons_of_mem _ hmem))
      rw [searchRegions]
      split
      · exact hrest
      · rename_i htype
        split
        · exact hrest
        · rcases h first List.mem_cons_self (Decidable.not_not.mp htype) with hnone | hsome
          · rw [hnone]
            exact hrest
          · rw [hsome]
            exact Or.inr rfl

theorem searchTwice_none {message : List Byte}
    (h : forall res, res ∈ regions -> sameType flags res -> translate res = none) :
    searchTwice regions flags translate message = (0#32, message) := by
  unfold searchTwice
  rw [searchRegions_none regionSysMemory h, searchRegions_none 0#32 h]
  split <;> rfl

theorem searchTwice_some {message : List Byte} {addr : Word} {res : Region}
    (hmem : res ∈ regions) (htype : sameType flags res) (hfound : translate res = some addr)
    (h : forall res', res' ∈ regions -> sameType flags res' ->
      translate res' = none ∨ translate res' = some addr) :
    searchTwice regions flags translate message = (addr, []) := by
  have hsecond : searchRegions flags 0#32 translate regions = some addr :=
    searchRegions_some hmem htype (by rw [BitVec.and_zero]) hfound h
  have hfirst := searchRegions_agree regionSysMemory h
  unfold searchTwice
  dsimp only
  split
  · rename_i found heq
    split at heq
    · rcases hfirst with hnone | hsome
      · rw [hnone] at heq
        cases heq
      · rw [hsome] at heq
        cases heq
        rfl
    · cases heq
  · rw [hsecond]

end Search

/-!
# Round trips
-/

def BusApart (a b : Region) : Prop :=
  forall addr, Within a.busStart a.size addr -> ¬ Within b.busStart b.size addr

def PhysApart (a b : Region) : Prop :=
  forall addr, Within a.physStart a.size addr -> ¬ Within b.physStart b.size addr

instance : Std.Symm BusApart := ⟨fun _ _ h addr hb ha => h addr ha hb⟩

instance : Std.Symm PhysApart := ⟨fun _ _ h addr hb ha => h addr ha hb⟩

/-- The regions of the type are pairwise disjoint in both spaces. -/
structure Separate (regions : List Region) (flags : Word) : Prop where
  bus : (regions.filter (sameType flags)).Pairwise BusApart
  phys : (regions.filter (sameType flags)).Pairwise PhysApart

/-- The functions invert each other on the regions of the type and report all else. -/
structure Translates (regions : List Region) (flags : Word) : Prop where
  phys : forall res physAddr, res ∈ regions -> sameType flags res ->
    Within res.physStart res.size physAddr ->
      exists busAddr, pciHosePhysToBus (some regions) physAddr flags = (busAddr, []) ∧
        Within res.busStart res.size busAddr ∧
        pciHoseBusToPhys (some regions) busAddr flags = (physAddr, [])
  bus : forall res busAddr, res ∈ regions -> sameType flags res ->
    Within res.busStart res.size busAddr ->
      exists physAddr, pciHoseBusToPhys (some regions) busAddr flags = (physAddr, []) ∧
        Within res.physStart res.size physAddr ∧
        pciHosePhysToBus (some regions) physAddr flags = (busAddr, [])
  notPhys : forall physAddr,
    (forall res, res ∈ regions -> sameType flags res ->
      ¬ Within res.physStart res.size physAddr) ->
        pciHosePhysToBus (some regions) physAddr flags =
          (0#32, ascii "pci_hose_phys_to_bus: invalid physical address\n")
  notBus : forall busAddr,
    (forall res, res ∈ regions -> sameType flags res ->
      ¬ Within res.busStart res.size busAddr) ->
        pciHoseBusToPhys (some regions) busAddr flags =
          (0#32, ascii "pci_hose_bus_to_phys: invalid physical address\n")

/-- No region of the type that has an address ends with the address space or wraps around. -/
def EndsInside (regions : List Region) (flags : Word) : Prop :=
  forall res, res ∈ regions -> sameType flags res -> res.size ≠ 0#32 ->
    res.busStart.toNat + res.size.toNat < 2 ^ 32

instance (regions : List Region) (flags : Word) : Decidable (EndsInside regions flags) :=
  inferInstanceAs (Decidable (forall res, res ∈ regions -> _))

section RoundTrip

variable {regions : List Region} {flags : Word}

theorem physToBus_eq (physAddr : Word) (res : Region) :
    physToBus physAddr res =
      if Within res.physStart res.size physAddr ∧
          res.busStart.toNat + res.size.toNat < 2 ^ 32 then
        some (physAddr - res.physStart + res.busStart)
      else none := by
  unfold physToBus
  simp only [between_iff, within_move]

theorem busToPhys_eq (busAddr : Word) (res : Region) :
    busToPhys busAddr res =
      if Within res.busStart res.size busAddr ∧
          res.busStart.toNat + res.size.toNat < 2 ^ 32 then
        some (busAddr - res.busStart + res.physStart)
      else none := by
  unfold busToPhys
  simp only [between_iff]

theorem within_size {start size addr : Word} (h : Within start size addr) : size ≠ 0#32 := by
  intro hzero
  rw [Within, hzero] at h
  exact absurd h (by simp)

theorem mem_type {res : Region} (hmem : res ∈ regions) (htype : sameType flags res) :
    res ∈ regions.filter (sameType flags) :=
  List.mem_filter.mpr ⟨hmem, decide_eq_true htype⟩

theorem Separate.bus_unique (h : Separate regions flags) {a b : Region} {addr : Word}
    (ha : a ∈ regions) (hatype : sameType flags a) (hb : b ∈ regions)
    (hbtype : sameType flags b) (haddr : Within a.busStart a.size addr)
    (hbddr : Within b.busStart b.size addr) : a = b := by
  by_contra hne
  exact h.bus.forall (mem_type ha hatype) (mem_type hb hbtype) hne addr haddr hbddr

theorem Separate.phys_unique (h : Separate regions flags) {a b : Region} {addr : Word}
    (ha : a ∈ regions) (hatype : sameType flags a) (hb : b ∈ regions)
    (hbtype : sameType flags b) (haddr : Within a.physStart a.size addr)
    (hbddr : Within b.physStart b.size addr) : a = b := by
  by_contra hne
  exact h.phys.forall (mem_type ha hatype) (mem_type hb hbtype) hne addr haddr hbddr

/-- A physical address of a region that ends inside is translated by its offset. -/
theorem physToBus_found (hsep : Separate regions flags) {res : Region} {physAddr : Word}
    (hmem : res ∈ regions) (htype : sameType flags res)
    (haddr : Within res.physStart res.size physAddr)
    (hends : res.busStart.toNat + res.size.toNat < 2 ^ 32) :
    pciHosePhysToBus (some regions) physAddr flags =
      (physAddr - res.physStart + res.busStart, []) := by
  apply searchTwice_some hmem htype
  · rw [physToBus_eq, if_pos ⟨haddr, hends⟩]
  · intro res' hmem' htype'
    by_cases hfound : Within res'.physStart res'.size physAddr
    · right
      rw [hsep.phys_unique hmem' htype' hmem htype hfound haddr, physToBus_eq,
        if_pos ⟨haddr, hends⟩]
    · left
      rw [physToBus_eq, if_neg (fun hand => hfound hand.1)]

theorem busToPhys_found (hsep : Separate regions flags) {res : Region} {busAddr : Word}
    (hmem : res ∈ regions) (htype : sameType flags res)
    (haddr : Within res.busStart res.size busAddr)
    (hends : res.busStart.toNat + res.size.toNat < 2 ^ 32) :
    pciHoseBusToPhys (some regions) busAddr flags =
      (busAddr - res.busStart + res.physStart, []) := by
  apply searchTwice_some hmem htype
  · rw [busToPhys_eq, if_pos ⟨haddr, hends⟩]
  · intro res' hmem' htype'
    by_cases hfound : Within res'.busStart res'.size busAddr
    · right
      rw [hsep.bus_unique hmem' htype' hmem htype hfound haddr, busToPhys_eq,
        if_pos ⟨haddr, hends⟩]
    · left
      rw [busToPhys_eq, if_neg (fun hand => hfound hand.1)]

theorem busToPhys_missed (hsep : Separate regions flags) {res : Region}
    (hmem : res ∈ regions) (htype : sameType flags res) (hsize : res.size ≠ 0#32)
    (hends : ¬ res.busStart.toNat + res.size.toNat < 2 ^ 32) :
    pciHoseBusToPhys (some regions) res.busStart flags =
      (0#32, ascii "pci_hose_bus_to_phys: invalid physical address\n") := by
  apply searchTwice_none
  intro res' hmem' htype'
  rw [busToPhys_eq, if_neg]
  rintro ⟨hfound, hends'⟩
  rw [hsep.bus_unique hmem' htype' hmem htype hfound (within_start hsize)] at hends'
  exact hends hends'

/--
The functions invert each other on separate regions of a type, and report all other addresses,
just when no such region ends with the address space.
-/
theorem translation_iff (hsep : Separate regions flags) :
    Translates regions flags <-> EndsInside regions flags := by
  constructor
  · intro h res hmem htype hsize
    by_contra hends
    rcases h.bus res res.busStart hmem htype (within_start hsize) with ⟨_, hfound, _, _⟩
    rw [busToPhys_missed hsep hmem htype hsize hends] at hfound
    have hmessage : ascii "pci_hose_bus_to_phys: invalid physical address\n" = [] :=
      congrArg Prod.snd hfound
    exact absurd hmessage (by decide)
  · intro h
    constructor
    · intro res physAddr hmem htype haddr
      have hends := h res hmem htype (within_size haddr)
      have hbus : Within res.busStart res.size (physAddr - res.physStart + res.busStart) :=
        (within_move _ _ _ _).mpr haddr
      refine ⟨_, physToBus_found hsep hmem htype haddr hends, hbus, ?_⟩
      rw [busToPhys_found hsep hmem htype hbus hends, BitVec.add_sub_cancel,
        BitVec.sub_add_cancel]
    · intro res busAddr hmem htype haddr
      have hends := h res hmem htype (within_size haddr)
      have hphys : Within res.physStart res.size (busAddr - res.busStart + res.physStart) :=
        (within_move _ _ _ _).mpr haddr
      refine ⟨_, busToPhys_found hsep hmem htype haddr hends, hphys, ?_⟩
      rw [physToBus_found hsep hmem htype hphys hends, BitVec.add_sub_cancel,
        BitVec.sub_add_cancel]
    · intro physAddr hnone
      apply searchTwice_none
      intro res hmem htype
      rw [physToBus_eq, if_neg (fun hand => hnone res hmem htype hand.1)]
    · intro busAddr hnone
      apply searchTwice_none
      intro res hmem htype
      rw [busToPhys_eq, if_neg (fun hand => hnone res hmem htype hand.1)]

end RoundTrip

theorem within_apart {start size start' size' : Word}
    (h : start.toNat + size.toNat <= start'.toNat)
    (h' : start'.toNat + size'.toNat <= 2 ^ 32) (addr : Word) :
    ¬ (Within start size addr ∧ Within start' size' addr) := by
  have haddr := addr.isLt
  have hstart' := start'.isLt
  simp only [Within, BitVec.lt_def, BitVec.toNat_sub]
  omega

theorem boardRegions_separate : Separate boardRegions regionMem := by
  have hfilter : boardRegions.filter (sameType regionMem) = boardRegions.take 3 := by decide
  constructor
  · rw [hfilter]
    simp only [boardRegions, List.take, List.pairwise_cons, List.mem_cons, List.not_mem_nil]
    refine ⟨?_, ?_, ?_, List.Pairwise.nil⟩
    · rintro res (rfl | rfl | hres) addr h h'
      · exact within_apart (by decide) (by decide) addr ⟨h', h⟩
      · exact within_size h' rfl
      · exact hres
    · rintro res (rfl | hres) addr h h'
      · exact within_size h' rfl
      · exact hres
    · intro res hres
      exact absurd hres id
  · rw [hfilter]
    simp only [boardRegions, List.take, List.pairwise_cons, List.mem_cons, List.not_mem_nil]
    refine ⟨?_, ?_, ?_, List.Pairwise.nil⟩
    · rintro res (rfl | rfl | hres) addr h h'
      · exact within_apart (by decide) (by decide) addr ⟨h, h'⟩
      · exact within_size h' rfl
      · exact hres
    · rintro res (rfl | hres) addr h h'
      · exact within_size h' rfl
      · exact hres
    · intro res hres
      exact absurd hres id

/-- The board takes one byte off its system memory, so its memory regions are translated. -/
theorem translation_iff_board : Translates boardRegions regionMem :=
  (translation_iff boardRegions_separate).mpr (by decide)

def upperHalf : List Region :=
  [pciSetRegion 0x80000000#32 0x00000000#32 0x80000000#32 (regionMem ||| regionSysMemory)]

theorem translation_upper_half :
    Separate upperHalf regionMem ∧ ¬ Translates upperHalf regionMem := by
  have hsep : Separate upperHalf regionMem := by
    constructor
    · exact List.pairwise_singleton _ _
    · exact List.pairwise_singleton _ _
  refine ⟨hsep, fun h => ?_⟩
  exact absurd ((translation_iff hsep).mp h) (by decide)

end Pci
end Bab750
