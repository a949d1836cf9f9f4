import Bab750.Pci.Registers

/-!
# The scan lays the tree out

Bus numbers and the cursors of the regions only move up, so that what is set up behind a bridge
lies between the positions that its windows are read off.
-/

namespace Bab750
namespace Pci

open Foundation

variable {first hose hose' : Hose}

/-!
# Bridges
-/

theorem HoseMoved.busLower (h : HoseMoved first hose) (hfits : RegionsFit first) {space : Space}
    {res : Region} (hres : hose.region space = some res) :
    res.busLower.toNat = hose.cursor space ∧ 0 < hose.cursor space := by
  rcases h.find hres with ⟨start, hstart, hmoved⟩
  have hlimit := hfits.each space start hstart
  have hmovedLimit := hmoved.limit
  have hpos := (cursor_bounds res).1
  have hcursor : hose.cursor space = Pci.cursor res := by
    unfold Hose.cursor
    rw [hres]
  rw [hcursor]
  refine ⟨?_, hpos⟩
  rw [← cursor_mod, Nat.mod_eq_of_lt (by omega)]

/-- What is known of every function that is set up. -/
structure ConfiguredOk (first : Hose) (c : Configured) : Prop where
  looked : forall pass, pass ∈ c.passes -> exists hose, Looked first hose pass
  upper : forall pass, pass ∈ c.passes -> pass.foundMem64 = true ->
    (pass.bar + 1 ∉ c.probed <-> pass.HasRoom)
  probed : forall pass, pass ∈ c.passes -> pass.bar ∈ c.probed
  granted : forall pass, pass ∈ c.passes -> forall addr, pass.address = some addr ->
    c.base pass = addr.toNat
  refused : forall pass, pass ∈ c.passes -> ¬ pass.HasRoom -> pass.foundMem64 = false ->
    c.base pass + pass.size.toNat = 2 ^ 32
  command : forall pass, pass ∈ c.passes ->
    (c.command &&& pass.space.command ≠ 0#32 <-> c.TurnsOn pass)
  closed : forall r, c.bridge = some r -> first.pciPrefetch = none ->
    r.window .prefetch = ⟨2 ^ 28, 2 ^ 20⟩

def Configured.grants (c : Configured) (space : Space) : List Span :=
  c.passes.filterMap (fun pass =>
    if pass.space = space then
      pass.address.map (fun addr => ⟨addr.toNat, addr.toNat + pass.size.toNat⟩)
    else none)

def grantsOf (space : Space) (v : Option Configured) : List Span :=
  match v with
  | some c => c.grants space
  | none => []

def windowOf (space : Space) (v : Option Configured) : Option Span :=
  v.bind (fun c => c.bridge.map (fun r => r.window space))

def busesOf (v : Option Configured) : Option Span :=
  v.bind (fun c => c.bridge.map BridgeRegisters.buses)

def nextBus (first hose : Hose) : Nat := hose.currentBusno + 1 - first.firstBusno

theorem mem_grants {c : Configured} {space : Space} {range : Span} :
    range ∈ c.grants space <-> exists pass addr, pass ∈ c.passes ∧ pass.space = space ∧
      pass.address = some addr ∧ range = ⟨addr.toNat, addr.toNat + pass.size.toNat⟩ := by
  unfold Configured.grants
  rw [List.mem_filterMap]
  constructor
  · rintro ⟨pass, hpass, hrange⟩
    split at hrange
    · rename_i hspace
      rcases Option.map_eq_some_iff.mp hrange with ⟨addr, haddr, heq⟩
      exact ⟨pass, addr, hpass, hspace, haddr, heq.symm⟩
    · cases hrange
  · rintro ⟨pass, addr, hpass, hspace, haddr, heq⟩
    refine ⟨pass, hpass, ?_⟩
    rw [if_pos hspace, haddr, heq]
    rfl

theorem shares_iff (space other : Space) :
    space.Shares other <-> (space = .io <-> other = .io) := by
  cases space <;> cases other <;> simp [Space.Shares]

/-- A kind of addresses that has a region has one for each register of the kind. -/
theorem Looked.shared {pass : BarPass} (hfits : RegionsFit first) (h : Looked first hose pass)
    {other : Space} (hshares : pass.space.Shares other) (hother : first.region other ≠ none) :
    first.region pass.space ≠ none := by
  cases hspace : pass.space with
  | io =>
      rw [hspace] at hshares
      cases other with
      | io => exact hother
      | mem => exact False.elim hshares
      | prefetch => exact False.elim hshares
  | mem =>
      rw [hspace] at hshares
      cases other with
      | io => exact False.elim hshares
      | mem => exact hother
      | prefetch => exact hfits.mem hother
  | prefetch =>
      have hfound := h.prefetch hspace
      rw [hspace] at hfound
      exact hfound

structure ScanLaid (first hose : Hose) (s : Scanned) : Prop where
  moved : HoseMoved first s.hose
  current : hose.currentBusno ≤ s.hose.currentBusno
  laid : forall space, first.region space ≠ none ->
    LaidOut (grantsOf space) (windowOf space) s.tree (hose.cursor space) (s.hose.cursor space)
  buses : LaidOut (fun _ => []) busesOf s.tree (nextBus first hose) (nextBus first s.hose)
  all : forall p c, s.tree.at? p = some (some c) -> ConfiguredOk first c

end Pci
end Bab750
