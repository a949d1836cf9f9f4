import Bab750.Pci.Cursors

/-!
# The tree that a scan sets up

What is promised of it, when it is so, and what the answers of base address registers stand for.
-/

namespace Bab750
namespace Pci

open Foundation

/-!
# What is promised
-/

def Space.Shares : Space -> Space -> Prop
  | .io, .io => True
  | .io, _ => False
  | _, .io => False
  | _, _ => True

def Space.command : Space -> Word
  | .io => pciCommandIo
  | _ => pciCommandMemory

def Configured.isUpper (c : Configured) (pass : BarPass) : Bool :=
  c.passes.any (fun low => low.foundMem64 && low.bar + 1 = pass.bar)

/-- The first address that a register decodes; one that is refused keeps its answer. -/
def Configured.base (c : Configured) (pass : BarPass) : Nat :=
  (c.bars.getD pass.bar 0#32 &&& addressBits pass.response).toNat +
    if pass.foundMem64 then (c.bars.getD (pass.bar + 1) 0#32).toNat * 2 ^ 32 else 0

def Configured.ranges (c : Configured) (space : Space) : List Span :=
  if c.command &&& space.command ≠ 0#32 then
    (c.passes.filter (fun pass => pass.space = space && !c.isUpper pass)).map
      (fun pass => ⟨c.base pass, c.base pass + pass.size.toNat⟩)
  else []

/--
The windows of a bridge hold what is enabled behind it and nothing else, the buses of a bridge
are among those of the bridges above and no others', and no upper half of a register of 64 bits
is looked at as a register.
-/
structure ConsistentTree (tree : Forest (Option Configured)) : Prop where
  inside : forall p q b c r, tree.at? p = some (some b) -> tree.at? q = some (some c) ->
    Behind p q -> b.bridge = some r -> forall space range, range ∈ c.ranges space ->
      range.Inside (r.window space)
  outside : forall p q b c r, tree.at? p = some (some b) -> tree.at? q = some (some c) ->
    ¬ Behind p q -> b.bridge = some r -> forall space range, range ∈ c.ranges space ->
      forall other, space.Shares other -> range.Apart (r.window other)
  nested : forall p q b c r r', tree.at? p = some (some b) -> tree.at? q = some (some c) ->
    Behind p q -> b.bridge = some r -> c.bridge = some r' -> r'.buses.Inside r.buses
  siblings : forall p q b c r r', tree.at? p = some (some b) -> tree.at? q = some (some c) ->
    p ≠ q -> ¬ Behind p q -> ¬ Behind q p -> b.bridge = some r -> c.bridge = some r' ->
      r.buses.Apart r'.buses
  whole : forall p c, tree.at? p = some (some c) -> forall pass, pass ∈ c.passes ->
    pass.foundMem64 -> pass.bar + 1 ∉ c.probed

/-!
# When it is so
-/

/-- The capacity test for the register does not wrap, or it fails all the same. -/
def BarPass.NoWrap (pass : BarPass) : Prop :=
  forall res, pass.res = some res -> Unwrapped res (Request.allocate pass.size)

instance (pass : BarPass) : Decidable pass.NoWrap :=
  decidable_of_iff (forall res, res ∈ pass.res -> Unwrapped res (Request.allocate pass.size))
    Iff.rfl

def BarPass.HasRoom (pass : BarPass) : Prop :=
  exists res, pass.res = some res ∧
    ¬ alignWord res.busLower pass.size - res.busStart + pass.size > res.size

instance (pass : BarPass) : Decidable pass.HasRoom :=
  decidable_of_iff (exists res, res ∈ pass.res ∧
    ¬ alignWord res.busLower pass.size - res.busStart + pass.size > res.size) Iff.rfl

def isNarrowIo (response : Word) : Bool := isIoBar response && response &&& 0xffff0000#32 = 0#32

/--
The capacity test does not wrap, a register of 16 bits can hold what is granted to it, and what
a refused register decodes lies above the regions of its kind.
-/
structure BarPass.Regular (first : Hose) (pass : BarPass) : Prop where
  noWrap : pass.NoWrap
  narrow : isNarrowIo pass.response -> pass.HasRoom ∧ forall res, pass.res = some res ->
    (alignWord res.busLower pass.size).toNat + pass.size.toNat ≤ 2 ^ 16
  above : ¬ pass.HasRoom -> forall other res, pass.space.Shares other ->
    first.region other = some res -> (reach other.unit res).limit + pass.size.toNat ≤ 2 ^ 32

def Configured.Regular (first : Hose) (c : Configured) : Prop :=
  forall pass, pass ∈ c.passes -> pass.Regular first

def RegularScan (first : Hose) (tree : Forest (Option Configured)) : Prop :=
  forall p c, tree.at? p = some (some c) -> c.Regular first

/--
The function decodes the kind of addresses of a register: a bridge for its windows, a device
when a register of this kind is granted.
-/
def Configured.TurnsOn (c : Configured) (pass : BarPass) : Prop :=
  c.bridge ≠ none ∧ pass.res ≠ none ∨
    exists other, other ∈ c.passes ∧ other.space.Shares pass.space ∧ other.HasRoom

/-- There is room for each register of 64 bits when the scan comes to it. -/
def Mem64Room (tree : Forest (Option Configured)) : Prop :=
  forall p c, tree.at? p = some (some c) -> forall pass, pass ∈ c.passes ->
    pass.foundMem64 -> pass.HasRoom

def decodedBits (response : Word) : Nat := if isNarrowIo response then 16 else 32

def decodedSize (response : Word) : Nat :=
  2 ^ decodedBits response - (addressBits response).toNat

structure BarDemand where
  response : Word
  size : Nat
deriving DecidableEq

/-- The registers of a function; one of 64 bits takes two of them. -/
def barDemands : List Word -> List BarDemand
  | [] => []
  | [response] =>
      if response = 0#32 then []
      else if isMem64Bar response then [⟨response, 0⟩]
      else [⟨response, decodedSize response⟩]
  | response :: upper :: rest =>
      if response = 0#32 then barDemands (upper :: rest)
      else if isMem64Bar response then
        ⟨response, 2 ^ 64 - ((upper ++ response) &&& ~~~0xf#64).toNat⟩ :: barDemands rest
      else ⟨response, decodedSize response⟩ :: barDemands (upper :: rest)

def PciFunction.slots (f : PciFunction) : List Word :=
  f.bars.take (if f.classDevice = pciClassBridgePci then 2 else 6)

/-- A device or a PCI-PCI bridge whose registers decode powers of two, for I/O up to 64 KB. -/
structure PlainFunction (f : PciFunction) : Prop where
  notCardbus : f.classDevice ≠ pciClassBridgeCardbus
  powers : forall d, d ∈ barDemands f.slots -> exists k, d.size = 2 ^ k
  io : forall d, d ∈ barDemands f.slots -> isIoBar d.response -> d.size ≤ 2 ^ 16

def totalDemand (hose : Hose) (space : Space) (demands : List BarDemand) : Nat :=
  demands.foldr
    (fun d total => if barSpace hose d.response = space then d.size + total else total) 0

def Hose.room (hose : Hose) (space : Space) : Nat :=
  match hose.region space with
  | some res => res.size.toNat
  | none => 0

structure Topology (hose : Hose) (forest : Forest PciFunction) : Prop where
  plain : forall f, f ∈ forest.toList -> PlainFunction f
  /-- The first bus and one bus behind each bridge. -/
  buses : hose.currentBusno + 1 +
    (forest.toList.filter (fun f => f.classDevice = pciClassBridgePci)).length ≤ 256
  fits : forall space, totalDemand hose space
    (forest.toList.flatMap (fun f => barDemands f.slots)) ≤ hose.room space

/-- The regions of a board end below 4 GB, with their last windows, and share no address. -/
structure RegionsFit (hose : Hose) : Prop where
  mem : hose.pciPrefetch ≠ none -> hose.pciMem ≠ none
  each : forall space res, hose.region space = some res ->
    (reach space.unit res).limit < 2 ^ 32
  apart : forall mem prefetch, hose.pciMem = some mem -> hose.pciPrefetch = some prefetch ->
    (reach (2 ^ 20) mem).limit ≤ (reach (2 ^ 20) prefetch).first ∨
      (reach (2 ^ 20) prefetch).limit ≤ (reach (2 ^ 20) mem).first

/-!
# The registers of a function
-/

/-- The address bits of the answer are those of a register of so many addresses. -/
def Decodes (response size : Word) : Prop :=
  exists k, size.toNat = 2 ^ k ∧
    (addressBits response).toNat + 2 ^ k = 2 ^ decodedBits response

/-- Every answer stands for a power of two, and a 64-bit one has another behind it. -/
def GoodSlots : List Word -> Prop
  | [] => True
  | response :: rest =>
      (response ≠ 0#32 -> (forall upper, Decodes response (barSize response upper)) ∧
        (isMem64Bar response -> rest ≠ [])) ∧ GoodSlots rest

theorem and_not_low {w : Nat} (x : BitVec w) (k : Nat) (hk : k ≤ w) :
    (x &&& ~~~(BitVec.ofNat w (2 ^ k - 1))).toNat = x.toNat / 2 ^ k * 2 ^ k := by
  have hlt := x.isLt
  have hle : 2 ^ k ≤ 2 ^ w := Nat.pow_le_pow_right (by decide) hk
  have hpos : 0 < 2 ^ k := Nat.two_pow_pos k
  have hmask : (~~~(BitVec.ofNat w (2 ^ k - 1))).toNat = (2 ^ (w - k) - 1) * 2 ^ k := by
    rw [BitVec.toNat_not, BitVec.toNat_ofNat, Nat.mod_eq_of_lt (by omega), Nat.sub_mul,
      ← Nat.pow_add, Nat.sub_add_cancel hk]
    omega
  rw [BitVec.toNat_and, hmask, and_mask, Nat.mod_eq_of_lt]
  rw [Nat.div_lt_iff_lt_mul hpos, ← Nat.pow_add, Nat.sub_add_cancel hk]
  exact hlt

theorem addressBits_mem {response : Word} (hmem : isIoBar response = false) :
    (addressBits response).toNat = response.toNat / 2 ^ 4 * 2 ^ 4 := by
  unfold addressBits
  rw [hmem]
  exact and_not_low response 4 (by decide)

theorem addressBits_io {response : Word} (hio : isIoBar response = true) :
    (addressBits response).toNat = response.toNat / 2 ^ 2 * 2 ^ 2 := by
  unfold addressBits
  rw [hio]
  exact and_not_low response 2 (by decide)

theorem barSize_mem {response : Word} (hmem : isIoBar response = false) (upper : Word) :
    (barSize response upper).toNat = (2 ^ 32 - (addressBits response).toNat) % 2 ^ 32 := by
  have hlow : (response &&& ~~~0xf#32).toNat = response.toNat / 2 ^ 4 * 2 ^ 4 :=
    and_not_low response 4 (by decide)
  have hlt := response.isLt
  rw [addressBits_mem hmem]
  unfold barSize
  rw [hmem, if_neg Bool.false_ne_true]
  split
  · have hwide : ((upper ++ response) &&& ~~~0xf#64).toNat =
        (upper ++ response).toNat / 2 ^ 4 * 2 ^ 4 := and_not_low (upper ++ response) 4 (by decide)
    have happend : (upper ++ response).toNat = upper.toNat * 2 ^ 32 + response.toNat := by
      rw [BitVec.toNat_append, Nat.shiftLeft_eq, Nat.mul_comm, Nat.two_pow_add_eq_or_of_lt hlt]
    have hupper := upper.isLt
    rw [BitVec.toNat_setWidth, BitVec.toNat_add, BitVec.toNat_not, hwide, happend]
    simp only [BitVec.toNat_ofNat]
    omega
  · rw [BitVec.toNat_add, BitVec.toNat_not, hlow]
    simp only [BitVec.toNat_ofNat]
    omega

theorem barSize_io {response : Word} (hio : isIoBar response = true) (upper : Word) :
    (barSize response upper).toNat = 2 ^ 16 - (addressBits response).toNat % 2 ^ 16 := by
  have hlow : (response &&& ~~~0x3#32).toNat = response.toNat / 2 ^ 2 * 2 ^ 2 :=
    and_not_low response 2 (by decide)
  have hmask : (0xffff#32).toNat = (2 ^ 16 - 1) * 2 ^ 0 := by decide
  have hlt := response.isLt
  rw [addressBits_io hio]
  unfold barSize
  rw [hio, if_pos rfl, BitVec.toNat_add, BitVec.toNat_and, BitVec.toNat_not, hmask, and_mask,
    hlow]
  simp only [BitVec.toNat_ofNat]
  omega

theorem isIoBar_of_mem64 {response : Word} (h : isMem64Bar response = true) :
    isIoBar response = false := by
  unfold isMem64Bar at h
  rw [Bool.and_eq_true, Bool.not_eq_true'] at h
  exact h.1

theorem narrow_lt {response : Word} (h : isNarrowIo response = true) :
    response.toNat < 2 ^ 16 := by
  have hmask : (0xffff0000#32).toNat = (2 ^ 16 - 1) * 2 ^ 16 := by decide
  have hlt := response.isLt
  unfold isNarrowIo at h
  rw [Bool.and_eq_true, decide_eq_true_eq] at h
  have hzero : (response &&& 0xffff0000#32).toNat = 0 := by
    rw [h.2]
    rfl
  rw [BitVec.toNat_and, hmask, and_mask] at hzero
  omega

theorem decodedBits_mem {response : Word} (hmem : isIoBar response = false) :
    decodedBits response = 32 := by
  unfold decodedBits isNarrowIo
  rw [hmem, Bool.false_and, if_neg Bool.false_ne_true]

theorem isBarSize_of_pow {size : Word} {k : Nat} (hsize : size.toNat = 2 ^ k) :
    IsBarSize size := by
  have hlt := size.isLt
  rw [hsize] at hlt
  have hk : k < 32 := (Nat.pow_lt_pow_iff_right (by decide)).mp hlt
  refine ⟨k, Nat.le_of_lt hk, ?_⟩
  apply BitVec.eq_of_toNat_eq
  rw [hsize, BitVec.toNat_ofNat, Nat.mod_eq_of_lt hlt]

theorem decodes_narrow {response : Word} {k : Nat} (hsize : decodedSize response = 2 ^ k)
    (hlt : 2 ^ k < 2 ^ 32) (hio : isIoBar response = true -> decodedSize response ≤ 2 ^ 16)
    (upper : Word) : Decodes response (barSize response upper) := by
  have hpos : 0 < 2 ^ k := Nat.two_pow_pos k
  have hbits := (addressBits response).isLt
  refine ⟨k, ?_, ?_⟩
  · cases hkind : isIoBar response with
    | false =>
        rw [decodedSize, decodedBits_mem hkind] at hsize
        rw [barSize_mem hkind]
        omega
    | true =>
        have hle := hio hkind
        rw [barSize_io hkind, ← hsize]
        unfold decodedSize decodedBits at hle ⊢
        by_cases hnarrow : isNarrowIo response = true
        · have hlow := narrow_lt hnarrow
          rw [if_pos hnarrow] at hle ⊢
          rw [addressBits_io hkind] at hle ⊢
          omega
        · rw [if_neg hnarrow] at hle ⊢
          omega
  · unfold decodedSize at hsize
    omega

/-- A register of 64 bits for less than 4 GB answers with all ones in its upper half. -/
theorem decodes_mem64 {response upper : Word} {k : Nat} (hwide : isMem64Bar response = true)
    (hsize : 2 ^ 64 - ((upper ++ response) &&& ~~~0xf#64).toNat = 2 ^ k)
    (hlt : 2 ^ k < 2 ^ 32) :
    upper = 0xffffffff#32 ∧ forall u, Decodes response (barSize response u) := by
  have hresponse := response.isLt
  have hupper := upper.isLt
  have hpos : 0 < 2 ^ k := Nat.two_pow_pos k
  have hmem := isIoBar_of_mem64 hwide
  have happend : (upper ++ response).toNat = upper.toNat * 2 ^ 32 + response.toNat := by
    rw [BitVec.toNat_append, Nat.shiftLeft_eq, Nat.mul_comm,
      Nat.two_pow_add_eq_or_of_lt hresponse]
  have hmasked : ((upper ++ response) &&& ~~~0xf#64).toNat =
      (upper ++ response).toNat / 2 ^ 4 * 2 ^ 4 := and_not_low (upper ++ response) 4 (by decide)
  rw [hmasked, happend] at hsize
  constructor
  · apply BitVec.eq_of_toNat_eq
    show upper.toNat = 2 ^ 32 - 1
    omega
  · intro u
    have hbits := addressBits_mem hmem
    refine ⟨k, ?_, ?_⟩
    · rw [barSize_mem hmem, hbits]
      omega
    · rw [decodedBits_mem hmem, hbits]
      omega

theorem decodes_holds {response size addr : Word} (h : Decodes response size)
    (hdvd : size.toNat ∣ addr.toNat)
    (hnarrow : isNarrowIo response = true -> addr.toNat + size.toNat ≤ 2 ^ 16) :
    addr &&& addressBits response = addr := by
  rcases h with ⟨k, hsize, hbits⟩
  rcases hdvd with ⟨m, hm⟩
  have hpos : 0 < 2 ^ k := Nat.two_pow_pos k
  rw [hsize] at hm
  have hlt : addr.toNat < 2 ^ decodedBits response := by
    unfold decodedBits
    by_cases hn : isNarrowIo response = true
    · have hend := hnarrow hn
      rw [if_pos hn]
      omega
    · rw [if_neg hn]
      exact addr.isLt
  have hk : k ≤ decodedBits response := by
    rw [← Nat.pow_le_pow_iff_right (a := 2) (by decide)]
    omega
  have hmask : (addressBits response).toNat = (2 ^ (decodedBits response - k) - 1) * 2 ^ k := by
    rw [Nat.sub_mul, ← Nat.pow_add, Nat.sub_add_cancel hk]
    omega
  apply BitVec.eq_of_toNat_eq
  rw [BitVec.toNat_and, hmask, and_mask, hm, Nat.mul_div_cancel_left m hpos, Nat.mul_comm,
    Nat.mod_eq_of_lt]
  rw [hm, Nat.mul_comm, ← Nat.sub_add_cancel hk, Nat.pow_add] at hlt
  exact Nat.lt_of_mul_lt_mul_right hlt

theorem goodSlots_of_demands {slots : List Word}
    (hdemands : forall d, d ∈ barDemands slots -> (exists k, d.size = 2 ^ k ∧ 2 ^ k < 2 ^ 32) ∧
      (isIoBar d.response -> d.size ≤ 2 ^ 16)) :
    GoodSlots slots := by
  induction slots using barDemands.induct with
  | case1 =>
      trivial
  | case2 =>
      exact ⟨fun hne => absurd rfl hne, trivial⟩
  | case3 response hne hwide =>
      unfold barDemands at hdemands
      rw [if_neg hne, if_pos hwide] at hdemands
      rcases hdemands _ List.mem_cons_self with ⟨⟨k, hk, _⟩, _⟩
      have hpos : 0 < 2 ^ k := Nat.two_pow_pos k
      have hnone : 0 = 2 ^ k := hk
      omega
  | case4 response hne hnarrow =>
      unfold barDemands at hdemands
      rw [if_neg hne, if_neg hnarrow] at hdemands
      rcases hdemands _ List.mem_cons_self with ⟨⟨k, hk, hlt⟩, hio⟩
      exact ⟨fun _ => ⟨decodes_narrow hk hlt hio, fun hwide => absurd hwide hnarrow⟩, trivial⟩
  | case5 upper rest ih =>
      unfold barDemands at hdemands
      rw [if_pos rfl] at hdemands
      exact ⟨fun hne => absurd rfl hne, ih hdemands⟩
  | case6 response upper rest hne hwide ih =>
      unfold barDemands at hdemands
      rw [if_neg hne, if_pos hwide] at hdemands
      rcases hdemands _ List.mem_cons_self with ⟨⟨k, hk, hlt⟩, _⟩
      rcases decodes_mem64 hwide hk hlt with ⟨hupper, hgood⟩
      refine ⟨fun _ => ⟨hgood, fun _ => List.cons_ne_nil _ _⟩, ?_,
        ih (fun d hd => hdemands d (List.mem_cons_of_mem _ hd))⟩
      rw [hupper]
      intro _
      refine ⟨fun _ => ⟨2, rfl, by decide⟩, fun hboth => ?_⟩
      exact absurd hboth (by decide)
  | case7 response upper rest hne hnarrow ih =>
      unfold barDemands at hdemands
      rw [if_neg hne, if_neg hnarrow] at hdemands
      rcases hdemands _ List.mem_cons_self with ⟨⟨k, hk, hlt⟩, hio⟩
      exact ⟨fun _ => ⟨decodes_narrow hk hlt hio, fun hwide => absurd hwide hnarrow⟩,
        ih (fun d hd => hdemands d (List.mem_cons_of_mem _ hd))⟩

end Pci
end Bab750
