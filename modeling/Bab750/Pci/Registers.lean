import Bab750.Pci.BusTree

/-!
# The registers of one function

What the loop of `pciauto_setup_device` does to the cursors of a controller, to the base address
registers and to the command register.
-/

namespace Bab750
namespace Pci

open Foundation

/-!
# The cursors of a controller
-/

def OptionMoved (unit : Nat) : Option Region -> Option Region -> Prop
  | none, none => True
  | some first, some res => RegionMoved unit first res
  | _, _ => False

/-- A controller in a scan, and what it was in the beginning. -/
structure HoseMoved (first hose : Hose) : Prop where
  firstBusno : hose.firstBusno = first.firstBusno
  region : forall space, OptionMoved space.unit (first.region space) (hose.region space)

def Hose.cursor (hose : Hose) (space : Space) : Nat :=
  match hose.region space with
  | some res => Pci.cursor res
  | none => 0

section Scan

variable {first hose hose' : Hose}

theorem HoseMoved.find (h : HoseMoved first hose) {space : Space} {res : Region}
    (hres : hose.region space = some res) : exists start, first.region space = some start ∧
      RegionMoved space.unit start res := by
  have hmoved := h.region space
  rw [hres] at hmoved
  cases hstart : first.region space with
  | none =>
      rw [hstart] at hmoved
      exact False.elim hmoved
  | some start =>
      rw [hstart] at hmoved
      exact ⟨start, rfl, hmoved⟩

theorem HoseMoved.kept (h : HoseMoved first hose) {space : Space} {start : Region}
    (hstart : first.region space = some start) : exists res, hose.region space = some res ∧
      RegionMoved space.unit start res := by
  have hmoved := h.region space
  rw [hstart] at hmoved
  cases hres : hose.region space with
  | none =>
      rw [hres] at hmoved
      exact False.elim hmoved
  | some res =>
      rw [hres] at hmoved
      exact ⟨res, rfl, hmoved⟩

theorem HoseMoved.missing (h : HoseMoved first hose) {space : Space}
    (hstart : first.region space = none) : hose.region space = none := by
  cases hres : hose.region space with
  | none => rfl
  | some res =>
      rcases h.find hres with ⟨start, hfound, _⟩
      rw [hstart] at hfound
      cases hfound

/-- What a step does to the cursors, and the ranges that it grants. -/
structure Advance (first hose hose' : Hose) (passes : List BarPass) : Prop where
  moved : HoseMoved first hose'
  currentBusno : hose'.currentBusno = hose.currentBusno
  le : forall space, hose.cursor space ≤ hose'.cursor space
  ranges : forall pass, pass ∈ passes -> forall addr, pass.address = some addr ->
    hose.cursor pass.space ≤ addr.toNat ∧
      addr.toNat + pass.size.toNat ≤ hose'.cursor pass.space

theorem Advance.none (h : HoseMoved first hose) : Advance first hose hose [] :=
  ⟨h, rfl, fun _ => Nat.le_refl _, fun _ hpass => absurd hpass List.not_mem_nil⟩

theorem Advance.trans {hose'' : Hose} {passes passes' : List BarPass}
    (h : Advance first hose hose' passes) (h' : Advance first hose' hose'' passes') :
    Advance first hose hose'' (passes ++ passes') := by
  refine ⟨h'.moved, h'.currentBusno.trans h.currentBusno,
    fun space => Nat.le_trans (h.le space) (h'.le space), ?_⟩
  intro pass hpass addr haddr
  rcases List.mem_append.mp hpass with hpass | hpass
  · have hrange := h.ranges pass hpass addr haddr
    exact ⟨hrange.1, Nat.le_trans hrange.2 (h'.le pass.space)⟩
  · have hrange := h'.ranges pass hpass addr haddr
    exact ⟨Nat.le_trans (h.le pass.space) hrange.1, hrange.2⟩

structure Looked (first hose : Hose) (pass : BarPass) : Prop where
  moved : HoseMoved first hose
  space : pass.space = barSpace hose pass.response
  res : pass.res = hose.region pass.space
  address : pass.address = (hose.allocate pass.space pass.size).1
  decodes : Decodes pass.response pass.size

theorem allocate_isSome {pass : BarPass} (hres : pass.res = hose.region pass.space) :
    (hose.allocate pass.space pass.size).1.isSome = true <-> pass.HasRoom := by
  unfold Hose.allocate BarPass.HasRoom
  rw [hres]
  cases hose.region pass.space with
  | none =>
      refine iff_of_false Bool.false_ne_true ?_
      rintro ⟨res, hfound, _⟩
      cases hfound
  | some res =>
      unfold pciautoRegionAllocate
      dsimp only
      by_cases hroom : alignWord res.busLower pass.size - res.busStart + pass.size > res.size
      · rw [if_pos hroom]
        refine iff_of_false Bool.false_ne_true ?_
        rintro ⟨res', hfound, hnot⟩
        rw [← Option.some.inj hfound] at hnot
        exact hnot hroom
      · rw [if_neg hroom]
        exact iff_of_true rfl ⟨res, rfl, hroom⟩

section Looked

variable {pass : BarPass}

theorem Looked.granted (h : Looked first hose pass) : pass.address ≠ none <-> pass.HasRoom := by
  rw [← Option.isSome_iff_ne_none, h.address]
  exact allocate_isSome h.res

theorem Looked.found (h : Looked first hose pass) :
    pass.res ≠ none <-> first.region pass.space ≠ none := by
  rw [h.res]
  constructor
  · intro hres hnone
    exact hres (h.moved.missing hnone)
  · intro hfirst
    rcases Option.ne_none_iff_exists'.mp hfirst with ⟨start, hstart⟩
    rcases h.moved.kept hstart with ⟨res, hres, _⟩
    rw [hres]
    exact Option.some_ne_none res

theorem Looked.io (h : Looked first hose pass) :
    pass.space = .io <-> isIoBar pass.response = true := by
  rw [h.space]
  unfold barSpace
  cases isIoBar pass.response with
  | true => exact iff_of_true rfl rfl
  | false =>
      rw [if_neg Bool.false_ne_true]
      refine iff_of_false ?_ Bool.false_ne_true
      split
      · exact fun heq => Space.noConfusion heq
      · exact fun heq => Space.noConfusion heq

theorem Looked.prefetch (h : Looked first hose pass) (hspace : pass.space = .prefetch) :
    first.region pass.space ≠ none := by
  rw [← h.found, h.res, hspace]
  rw [h.space] at hspace
  unfold barSpace at hspace
  split at hspace
  · cases hspace
  · split at hspace
    · rename_i hsome
      rw [Bool.and_eq_true] at hsome
      exact Option.isSome_iff_ne_none.mp hsome.1
    · cases hspace

theorem alignWord_dvd {res : Region} {size : Word} {k : Nat} (hsize : size.toNat = 2 ^ k) :
    size.toNat ∣ (alignWord res.busLower size).toNat := by
  have hlt := size.isLt
  rw [hsize] at hlt
  have hk : k < 32 := (Nat.pow_lt_pow_iff_right (by decide)).mp hlt
  have hne : size ≠ 0#32 := by
    rintro rfl
    exact absurd hsize.symm (Nat.two_pow_pos k).ne'
  rw [alignWord_toNat (isBarSize_of_pow hsize), wideSize, if_neg hne, hsize,
    Nat.dvd_mod_iff (Nat.pow_dvd_pow 2 (Nat.le_of_lt hk))]
  exact dvd_roundUp _ _

theorem Looked.holds (h : Looked first hose pass) (hregular : pass.Regular first) {addr : Word}
    (haddr : pass.address = some addr) : addr &&& addressBits pass.response = addr := by
  have hroom := h.granted.mp (by rw [haddr]; exact Option.some_ne_none addr)
  rcases hroom with ⟨res, hres, hfits⟩
  have hword : addr = alignWord res.busLower pass.size := by
    have hgrant := h.address
    unfold Hose.allocate pciautoRegionAllocate at hgrant
    rw [← h.res, hres, haddr] at hgrant
    dsimp only at hgrant
    rw [if_neg hfits] at hgrant
    exact Option.some.inj hgrant
  rcases h.decodes with ⟨k, hsize, _⟩
  rw [hword]
  exact decodes_holds h.decodes (alignWord_dvd hsize)
    (fun hnarrow => (hregular.narrow hnarrow).2 res hres)

theorem Looked.keeps (h : Looked first hose pass) (hregular : pass.Regular first)
    (hroom : ¬ pass.HasRoom) :
    (addressBits pass.response).toNat + pass.size.toNat = 2 ^ 32 := by
  have hwide : isNarrowIo pass.response ≠ true := fun hnarrow =>
    hroom (hregular.narrow hnarrow).1
  rcases h.decodes with ⟨k, hsize, hbits⟩
  unfold decodedBits at hbits
  rw [if_neg hwide] at hbits
  rw [hsize]
  exact hbits

end Looked

/-!
# The command register
-/

end Scan

end Pci
end Bab750
