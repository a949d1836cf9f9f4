import Bab750.Pci.BusScan

/-!
# What a scan promises

The scan of a whole topology, by induction on the functions, and the tree that it sets up.
-/

namespace Bab750
namespace Pci

open Foundation

variable {first hose : Hose}

/-!
# The functions of a bus
-/

/-- A device or a PCI-PCI bridge of the topology. -/
structure GoodFunction (f : PciFunction) : Prop where
  notCardbus : f.classDevice ≠ pciClassBridgeCardbus
  slots : GoodSlots f.slots

theorem le_totalDemand {demands : List BarDemand} {d : BarDemand} (hd : d ∈ demands) :
    d.size ≤ totalDemand hose (barSpace hose d.response) demands := by
  unfold totalDemand
  induction demands with
  | nil => exact absurd hd List.not_mem_nil
  | cons other demands ih =>
      rw [List.foldr_cons]
      rcases List.mem_cons.mp hd with heq | hd
      · rw [heq, if_pos rfl]
        exact Nat.le_add_right _ _
      · have hle := ih hd
        split
        · exact Nat.le_trans hle (Nat.le_add_left _ _)
        · exact hle

theorem room_lt (hose : Hose) (space : Space) : hose.room space < 2 ^ 32 := by
  unfold Hose.room
  cases hose.region space with
  | none => decide
  | some res => exact res.size.isLt

theorem Topology.good {forest : Forest PciFunction} (h : Topology hose forest) {f : PciFunction}
    (hf : f ∈ forest.toList) : GoodFunction f := by
  refine ⟨(h.plain f hf).notCardbus, goodSlots_of_demands ?_⟩
  intro d hd
  rcases (h.plain f hf).powers d hd with ⟨k, hk⟩
  refine ⟨⟨k, hk, ?_⟩, (h.plain f hf).io d hd⟩
  rw [← hk]
  have hall : d ∈ forest.toList.flatMap (fun f => barDemands f.slots) :=
    List.mem_flatMap.mpr ⟨f, hf, hd⟩
  exact Nat.lt_of_le_of_lt (Nat.le_trans (le_totalDemand hall) (h.fits _)) (room_lt hose _)

theorem windowOf_bridge {b : Configured} {r : BridgeRegisters} (hr : b.bridge = some r)
    (space : Space) : windowOf space (some b) = some (r.window space) := by
  unfold windowOf
  rw [Option.bind_some, hr]
  rfl

theorem mem_ranges {c : Configured} {space : Space} {range : Span} :
    range ∈ c.ranges space <-> c.command &&& space.command ≠ 0#32 ∧
      exists pass, pass ∈ c.passes ∧ pass.space = space ∧ c.isUpper pass = false ∧
        range = ⟨c.base pass, c.base pass + pass.size.toNat⟩ := by
  unfold Configured.ranges
  by_cases hbit : c.command &&& space.command ≠ 0#32
  · rw [if_pos hbit, and_iff_right hbit, List.mem_map]
    constructor
    · rintro ⟨pass, hpass, heq⟩
      rw [List.mem_filter, Bool.and_eq_true, decide_eq_true_eq, Bool.not_eq_true'] at hpass
      exact ⟨pass, hpass.1, hpass.2.1, hpass.2.2, heq.symm⟩
    · rintro ⟨pass, hpass, hspace, hlow, heq⟩
      refine ⟨pass, ?_, heq.symm⟩
      rw [List.mem_filter, Bool.and_eq_true, decide_eq_true_eq, Bool.not_eq_true']
      exact ⟨hpass, hspace, hlow⟩
  · rw [if_neg hbit]
    exact iff_of_false List.not_mem_nil (fun h => hbit h.1)

section Registers

variable {c : Configured} {space : Space}

theorem ConfiguredOk.found (hfits : RegionsFit first) (h : ConfiguredOk first c) {pass : BarPass}
    (hpass : pass ∈ c.passes) (hon : c.TurnsOn pass) : first.region pass.space ≠ none := by
  rcases h.looked pass hpass with ⟨hose, hlook⟩
  rcases hon with ⟨_, hres⟩ | ⟨other, hother, hshares, res, hres, _⟩
  · exact hlook.found.mp hres
  · rcases h.looked other hother with ⟨hose', hlook'⟩
    refine hlook.shared hfits ?_ (hlook'.found.mp ?_)
    · rw [shares_iff] at hshares ⊢
      exact hshares.symm
    · rw [hres]
      exact Option.some_ne_none res

theorem ConfiguredOk.enabled (h : ConfiguredOk first c)
    (hwide : forall pass, pass ∈ c.passes -> pass.foundMem64 -> pass.HasRoom) {range : Span}
    (hrange : range ∈ c.ranges space) :
    range ∈ c.grants space ∨ exists pass, pass ∈ c.passes ∧ pass.space = space ∧
      c.TurnsOn pass ∧ ¬ pass.HasRoom ∧ range.first + pass.size.toNat = 2 ^ 32 ∧
        range.limit = 2 ^ 32 := by
  rcases mem_ranges.mp hrange with ⟨hbit, pass, hpass, hspace, _, heq⟩
  rcases h.looked pass hpass with ⟨hose, hlook⟩
  by_cases hroom : pass.HasRoom
  · rcases Option.ne_none_iff_exists'.mp (hlook.granted.mpr hroom) with ⟨addr, haddr⟩
    rw [h.granted pass hpass addr haddr] at heq
    exact Or.inl (mem_grants.mpr ⟨pass, addr, hpass, hspace, haddr, heq⟩)
  · have hnarrow : pass.foundMem64 = false :=
      Bool.eq_false_of_not_eq_true (fun hmem64 => hroom (hwide pass hpass hmem64))
    have hkept := h.refused pass hpass hroom hnarrow
    rw [← hspace] at hbit
    rw [heq]
    exact Or.inr ⟨pass, hpass, hspace, (h.command pass hpass).mp hbit, hroom, hkept, hkept⟩

theorem ConfiguredOk.left (h : ConfiguredOk first c)
    (hwide : forall pass, pass ∈ c.passes -> pass.foundMem64 -> pass.HasRoom) {pass : BarPass}
    (hpass : pass ∈ c.passes) (hon : c.TurnsOn pass) (hroom : ¬ pass.HasRoom) :
    exists range, range ∈ c.ranges pass.space ∧ range.limit = 2 ^ 32 := by
  have hnarrow : pass.foundMem64 = false :=
    Bool.eq_false_of_not_eq_true (fun hmem64 => hroom (hwide pass hpass hmem64))
  have hlow : c.isUpper pass = false := by
    unfold Configured.isUpper
    rw [List.any_eq_false]
    intro low hlowMem hboth
    rw [Bool.and_eq_true, decide_eq_true_eq] at hboth
    refine (h.upper low hlowMem hboth.1).mpr (hwide low hlowMem hboth.1) ?_
    rw [hboth.2]
    exact h.probed pass hpass
  refine ⟨_, mem_ranges.mpr ⟨(h.command pass hpass).mpr hon, pass, hpass, rfl, hlow, rfl⟩, ?_⟩
  exact h.refused pass hpass hroom hnarrow

end Registers

section Promises

variable {s : Scanned} {p q : Position} {b c : Configured} {r : BridgeRegisters}

theorem ScanLaid.found (h : ScanLaid first hose s) (hc : s.tree.at? q = some (some c))
    {space : Space} {range : Span} (hrange : range ∈ c.grants space) :
    first.region space ≠ none := by
  rcases mem_grants.mp hrange with ⟨pass, addr, hpass, hspace, haddr, _⟩
  rcases (h.all q c hc).looked pass hpass with ⟨hose', hlook⟩
  rw [← hspace]
  have hgranted : pass.address ≠ none := by
    rw [haddr]
    exact Option.some_ne_none addr
  rcases hlook.granted.mp hgranted with ⟨res, hres, _⟩
  refine hlook.found.mp ?_
  rw [hres]
  exact Option.some_ne_none res

theorem ScanLaid.inside (h : ScanLaid first hose s) (hb : s.tree.at? p = some (some b))
    (hc : s.tree.at? q = some (some c)) (hbehind : Behind p q) (hr : b.bridge = some r)
    {space : Space} {range : Span} (hrange : range ∈ c.grants space) :
    range.Inside (r.window space) :=
  ((h.laid space (h.found hc hrange)).inside hb (windowOf_bridge hr space) hc hbehind).1
    range hrange

theorem ScanLaid.reached (h : ScanLaid first first s) {space : Space} {start : Region}
    (hstart : first.region space = some start) :
    (reach space.unit start).first = first.cursor space ∧
      s.hose.cursor space ≤ (reach space.unit start).limit := by
  rcases h.moved.kept hstart with ⟨res, hres, hmoved⟩
  unfold Hose.cursor
  rw [hstart, hres]
  exact ⟨rfl, hmoved.limit⟩

theorem ScanLaid.window_reached (h : ScanLaid first first s)
    (hb : s.tree.at? p = some (some b)) (hr : b.bridge = some r) {space : Space} {start : Region}
    (hstart : first.region space = some start) :
    (r.window space).Inside (reach space.unit start) := by
  have hfound : first.region space ≠ none := by
    rw [hstart]
    exact Option.some_ne_none start
  have hwindow := ((h.laid space hfound).bounds hb).2 _ (windowOf_bridge hr space)
  rcases h.reached hstart with ⟨hfirst, hlimit⟩
  constructor
  · rw [hfirst]
    exact hwindow.1
  · exact Nat.le_trans hwindow.2.2 hlimit

/-- A space without a region has a window with nothing in it, if its kind has a region. -/
theorem ScanLaid.window_closed (h : ScanLaid first first s) (hfits : RegionsFit first)
    (hb : s.tree.at? p = some (some b)) (hr : b.bridge = some r) {space other : Space}
    (hfound : first.region space ≠ none) (hshares : space.Shares other)
    (hother : first.region other = none) (range : Span) : range.Apart (r.window other) := by
  have hclosed : other = .prefetch := by
    cases other with
    | prefetch => rfl
    | io =>
        cases space with
        | io => exact absurd hother hfound
        | mem => exact False.elim hshares
        | prefetch => exact False.elim hshares
    | mem =>
        cases space with
        | mem => exact absurd hother hfound
        | io => exact False.elim hshares
        | prefetch => exact absurd hother (hfits.mem hfound)
  rw [hclosed] at hother ⊢
  rw [(h.all p b hb).closed r hr hother]
  intro n _ hn
  exact absurd (Nat.lt_of_le_of_lt hn.1 hn.2) (by decide)

theorem RegionsFit.apart_of (hfits : RegionsFit first) {space other : Space} {a b : Region}
    (hshares : space.Shares other) (hne : space ≠ other) (ha : first.region space = some a)
    (hb : first.region other = some b) :
    (reach space.unit a).Apart (reach other.unit b) := by
  cases space with
  | mem =>
      cases other with
      | mem => exact absurd rfl hne
      | io => exact False.elim hshares
      | prefetch =>
          rcases hfits.apart a b ha hb with hle | hle
          · exact Span.apart_of_le hle
          · exact (Span.apart_of_le hle).symm
  | prefetch =>
      cases other with
      | prefetch => exact absurd rfl hne
      | io => exact False.elim hshares
      | mem =>
          rcases hfits.apart b a hb ha with hle | hle
          · exact (Span.apart_of_le hle).symm
          · exact Span.apart_of_le hle
  | io =>
      cases other with
      | io => exact absurd rfl hne
      | mem => exact False.elim hshares
      | prefetch => exact False.elim hshares

theorem ScanLaid.outside (h : ScanLaid first first s) (hfits : RegionsFit first)
    (hb : s.tree.at? p = some (some b)) (hc : s.tree.at? q = some (some c))
    (hbehind : ¬ Behind p q) (hr : b.bridge = some r) {space other : Space} {range : Span}
    (hrange : range ∈ c.grants space) (hshares : space.Shares other) :
    range.Apart (r.window other) := by
  have hfound := h.found hc hrange
  by_cases hsame : space = other
  · rw [← hsame]
    exact (h.laid space hfound).outside hb (windowOf_bridge hr space) hc hbehind range hrange
  · cases hother : first.region other with
    | none => exact h.window_closed hfits hb hr hfound hshares hother range
    | some b' =>
        rcases Option.ne_none_iff_exists'.mp hfound with ⟨a, ha⟩
        have hspans := ((h.laid space hfound).bounds hc).1 range hrange
        have hreach := h.reached ha
        refine (hfits.apart_of hshares hsame ha hother).mono ⟨?_, ?_⟩
          (h.window_reached hb hr hother)
        · rw [hreach.1]
          exact hspans.1
        · exact Nat.le_trans hspans.2 hreach.2

end Promises

def sampleDevice (number : Nat) (bars : List Word) : PciFunction :=
  ⟨number, 0x00#8, 0x0200#16, 0x00#8, 0x0#32, bars, ⟨0, 0, 0, 0, 0, 0, 0, 0, 0, 0, 0⟩⟩

def sampleBridge (number : Nat) : PciFunction :=
  { sampleDevice number [] with headerType := 0x01#8, classDevice := pciClassBridgePci }

/-- Behind a bridge, a device that asks for 1 MB, and then for 512 MB. -/
def refusedForest : Forest PciFunction :=
  .node (sampleBridge 8)
    (.node (sampleDevice 0 [0xfff00000#32, 0xe0000000#32]) .empty .empty) .empty

theorem boardRegions_fit : RegionsFit (pciautoConfigInit 0 0 boardRegions) := by
  have hprefetch : (pciautoConfigInit 0 0 boardRegions).pciPrefetch = none := by decide
  refine ⟨fun hne => absurd hprefetch hne, ?_, ?_⟩
  · intro space
    cases space with
    | mem => decide
    | prefetch => decide
    | io => decide
  · intro mem prefetch _ hfound
    rw [hprefetch] at hfound
    cases hfound

theorem boardRegions_topology {forest : Forest PciFunction}
    (hplain : forall f, f ∈ forest.toList -> f.classDevice ≠ pciClassBridgeCardbus ∧
      forall d, d ∈ barDemands f.slots -> d.size ∈ [2 ^ 8, 2 ^ 12, 2 ^ 20, 2 ^ 29] ∧
        (isIoBar d.response -> d.size ≤ 2 ^ 16))
    (hbuses : (forest.toList.filter (fun f => f.classDevice = pciClassBridgePci)).length ≤ 255)
    (hfits : forall space, space ∈ [Space.mem, .prefetch, .io] ->
      totalDemand (pciautoConfigInit 0 0 boardRegions) space
        (forest.toList.flatMap (fun f => barDemands f.slots)) ≤
          (pciautoConfigInit 0 0 boardRegions).room space) :
    Topology (pciautoConfigInit 0 0 boardRegions) forest := by
  refine ⟨fun f hf => ⟨(hplain f hf).1, fun d hd => ?_, fun d hd => ((hplain f hf).2 d hd).2⟩,
    ?_, ?_⟩
  · have hsize := ((hplain f hf).2 d hd).1
    simp only [List.mem_cons, List.not_mem_nil, or_false] at hsize
    rcases hsize with hsize | hsize | hsize | hsize
    · exact ⟨8, hsize⟩
    · exact ⟨12, hsize⟩
    · exact ⟨20, hsize⟩
    · exact ⟨29, hsize⟩
  · have hfirst : (pciautoConfigInit 0 0 boardRegions).currentBusno = 0 := rfl
    rw [hfirst]
    omega
  · intro space
    apply hfits
    cases space <;> decide

theorem boardRegions_regular {tree : Forest (Option Configured)}
    (h : forall v, v ∈ tree.toList -> forall c, c ∈ v -> forall pass, pass ∈ c.passes ->
      pass.NoWrap ∧ isNarrowIo pass.response = false ∧ pass.size.toNat ≤ 2 ^ 29) :
    RegularScan (pciautoConfigInit 0 0 boardRegions) tree := by
  intro p c hc pass hpass
  rcases h _ (Forest.mem_of_at? hc) c rfl pass hpass with ⟨hnowrap, hwide, hsize⟩
  refine ⟨hnowrap, fun hnarrow => ?_, fun _ other res _ hres => ?_⟩
  · rw [hwide] at hnarrow
    cases hnarrow
  · have hreach : (reach other.unit res).limit ≤ 2 ^ 30 := by
      revert res
      cases other with
      | mem => decide
      | prefetch => decide
      | io => decide
    omega

/-- What is refused behind a bridge is decoded at the end of the addresses all the same. -/
theorem enumeration_keeps_answer :
    Topology (pciautoConfigInit 0 (max 0 0) boardRegions) refusedForest ∧
      RegionsFit (pciautoConfigInit 0 (max 0 0) boardRegions) ∧
      RegularScan (pciautoConfigInit 0 (max 0 0) boardRegions)
        (pciHoseScan 0 0 boardRegions refusedForest).tree ∧
      Mem64Room (pciHoseScan 0 0 boardRegions refusedForest).tree ∧
      ¬ ConsistentTree (pciHoseScan 0 0 boardRegions refusedForest).tree := by
  refine ⟨boardRegions_topology (by decide) (by decide) (by decide), boardRegions_fit,
    boardRegions_regular (by decide), ?_, ?_⟩
  · intro p c hc pass hpass hwide
    have hall : forall v, v ∈ (pciHoseScan 0 0 boardRegions refusedForest).tree.toList ->
        forall c, c ∈ v -> forall pass, pass ∈ c.passes -> pass.foundMem64 = false := by decide
    rw [hall _ (Forest.mem_of_at? hc) c rfl pass hpass] at hwide
    cases hwide
  · intro h
    have hbridge : exists v, v ∈ (pciHoseScan 0 0 boardRegions refusedForest).tree.at? [] ∧
        exists b, b ∈ v ∧ exists r, r ∈ b.bridge ∧ (r.window .mem).limit = 0x200000 := by decide
    have hkept : exists u, u ∈ (pciHoseScan 0 0 boardRegions refusedForest).tree.at? [.down] ∧
        exists c, c ∈ u ∧ ⟨0xe0000000, 0x100000000⟩ ∈ c.ranges .mem := by decide
    rcases hbridge with ⟨v, hv, b, hb, r, hr, hlimit⟩
    rcases hkept with ⟨u, hu, c, hc, hrange⟩
    rw [hb] at hv
    rw [hc] at hu
    have hinside := (h.inside [] [.down] b c r hv hu (by decide) hr .mem _ hrange).2
    rw [hlimit] at hinside
    exact absurd hinside (by decide)

end Pci
end Bab750
