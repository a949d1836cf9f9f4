import Bab750.Flash.Specs

/-!
# What the flash commands leave alone

Erasing changes nothing outside of the sectors of the banks, and setting a protection
changes no memory at all and no layout.
-/

namespace Bab750
namespace Flash

open Foundation
open Command
open Support (simpleStrtoul)

variable {E : Type}

def FlashInfo.Outside (info : FlashInfo) (a : BitVec 32) : Prop :=
  forall i, i < info.sectorCount -> info.inSector i a = false

def OutsideFlash (banks : List FlashInfo) (a : BitVec 32) : Prop :=
  forall info, info ∈ banks -> info.Outside a

/-!
# Erasing
-/

theorem mem_sectorsFrom {first last : Int} {i : Nat} (hfirst : 0 <= first)
    (h : i ∈ sectorsFrom first last) : (i : Int) <= last := by
  unfold sectorsFrom at h
  rcases List.mem_map.mp h with ⟨k, hk, rfl⟩
  rw [List.mem_range] at hk
  omega

theorem eraseSectors_outside (chip : Chip) (memory : Memory) (info : FlashInfo)
    (sectors : List Nat) (a : BitVec 32)
    (h : forall i, i ∈ sectors -> info.inSector i a = false) :
    eraseSectors chip memory info sectors a = memory a := by
  unfold eraseSectors
  rw [if_neg]
  rw [Bool.not_eq_true, List.any_eq_false]
  intro i hi
  rw [h i hi]
  decide

theorem flashErase_outside (chip : Chip) (board : Board E) (info : FlashInfo)
    (first last : Int) (a : BitVec 32) (hlast : last < info.sectorCount)
    (h : info.Outside a) :
    (flashErase chip board info first last).board.memory a = board.memory a := by
  unfold flashErase
  split
  · rfl
  case isFalse hrange =>
      have herase : eraseSectors chip board.memory info
          ((sectorsFrom first last).filter (fun i => !info.protect i)) a =
            board.memory a := by
        apply eraseSectors_outside
        intro i hi
        have hle := mem_sectorsFrom (by omega) (List.mem_filter.mp hi).left
        exact h i (by omega)
      split
      · rfl
      · dsimp only
        split
        · rfl
        · split
          · exact herase
          · exact herase

theorem scanSectors_last (info : FlashInfo) (addrFirst addrLast : BitVec 32) :
    (scanSectors info addrFirst addrLast).last < info.sectorCount := by
  unfold scanSectors
  -- the index of every sector that is looked at is below the count
  have hfold : forall (sectors : List Nat) (range : SectorRange),
      (forall i, i ∈ sectors -> i < info.sectorCount) ->
      range.last < info.sectorCount ->
      (sectors.foldl (fun (range : SectorRange) sect =>
        let last := info.sectorLast sect
        if last < addrFirst then range
        else if addrLast < info.start sect then range
        else
          { first := if addrFirst = info.start sect then sect else range.first
            last := if addrLast = last then sect else range.last }) range).last <
        info.sectorCount := by
    intro sectors
    induction sectors with
    | nil =>
        intro range _ hrange
        exact hrange
    | cons sect sectors ih =>
        intro range hall hrange
        have hsect := hall sect List.mem_cons_self
        rw [List.foldl_cons]
        apply ih _ (fun i hi => hall i (List.mem_cons_of_mem _ hi))
        dsimp only
        split
        · exact hrange
        · split
          · exact hrange
          · dsimp only
            split
            · omega
            · exact hrange
  apply hfold
  · intro i hi
    exact List.mem_range.mp hi
  · show (-1 : Int) < _
    omega

theorem flashFillSectRanges_last (banks : List FlashInfo) (addrFirst addrLast : BitVec 32) :
    forall pair, pair ∈ banks.zip (flashFillSectRanges banks addrFirst addrLast).ranges ->
      pair.2.last < pair.1.sectorCount := by
  have hnone : forall (l : List FlashInfo) pair,
      pair ∈ l.zip (l.map (fun _ => noSectors)) -> pair.2.last < pair.1.sectorCount := by
    intro l pair hpair
    have hmem := (List.of_mem_zip hpair).right
    rcases List.mem_map.mp hmem with ⟨_, _, hrange⟩
    rw [← hrange]
    show (-1 : Int) < _
    omega
  induction banks generalizing addrFirst with
  | nil =>
      intro pair hpair
      exact absurd hpair List.not_mem_nil
  | cons info banks ih =>
      have hcons : forall range : SectorRange, range.last < info.sectorCount ->
          forall ranges : List SectorRange, (forall pair, pair ∈ banks.zip ranges ->
            pair.2.last < pair.1.sectorCount) ->
          forall pair, pair ∈ (info :: banks).zip (range :: ranges) ->
            pair.2.last < pair.1.sectorCount := by
        intro range hrange ranges hranges pair hpair
        rw [List.zip_cons_cons] at hpair
        rcases List.mem_cons.mp hpair with rfl | hpair
        · exact hrange
        · exact hranges pair hpair
      have hscan := scanSectors_last info addrFirst addrLast
      unfold flashFillSectRanges
      dsimp only
      split
      · exact hnone (info :: banks)
      · split
        · refine hcons noSectors ?_ _ (ih addrFirst)
          show (-1 : Int) < _
          omega
        · split
          · split
            · exact hcons _ hscan _ (hnone banks)
            · have hlast : (if (scanSectors info addrFirst addrLast).last < 0
                  then (info.sectorCount : Int) - 1
                  else (scanSectors info addrFirst addrLast).last) < info.sectorCount := by
                split
                · omega
                · exact hscan
              generalize (if (scanSectors info addrFirst addrLast).last < 0
                then (info.sectorCount : Int) - 1
                else (scanSectors info addrFirst addrLast).last) = last at hlast ⊢
              split
              · exact hcons ⟨_, last⟩ hlast _ (hnone banks)
              · exact hcons ⟨_, last⟩ hlast _ (ih _)
          · split
            · exact hcons _ hscan _ (hnone banks)
            · split
              · exact hcons _ hscan _ (hnone banks)
              · exact hcons _ hscan _ (ih addrFirst)

theorem eraseBanks_outside (chip : Chip) (pairs : List (FlashInfo × SectorRange))
    (board : Board E) (erased : Int) (a : BitVec 32)
    (h : forall pair, pair ∈ pairs ->
      pair.2.last < pair.1.sectorCount ∧ pair.1.Outside a) :
    (eraseBanks chip pairs board erased).board.memory a = board.memory a := by
  induction pairs generalizing board erased with
  | nil =>
      rfl
  | cons pair pairs ih =>
      rcases pair with ⟨info, range⟩
      rcases h (info, range) List.mem_cons_self with ⟨hlast, houtside⟩
      have hrest := fun pair hpair => h pair (List.mem_cons_of_mem _ hpair)
      have herase := flashErase_outside chip board info range.first range.last a hlast houtside
      unfold eraseBanks
      split
      · dsimp only
        split
        · exact (ih _ _ hrest).trans herase
        · exact herase
      · exact ih _ _ hrest

theorem flashSectErase_outside (chip : Chip) (board : Board E)
    (addrFirst addrLast a : BitVec 32) (h : OutsideFlash board.banks a) :
    (flashSectErase chip board addrFirst addrLast).board.memory a = board.memory a := by
  unfold flashSectErase
  dsimp only
  split
  · rfl
  · split
    · apply eraseBanks_outside
      intro pair hpair
      exact ⟨flashFillSectRanges_last _ _ _ pair hpair,
        h pair.1 (List.of_mem_zip hpair).left⟩
    · rfl

theorem eraseBank_outside (chip : Chip) (board : Board E) (info : FlashInfo) (bank : Nat)
    (a : BitVec 32) (h : info.Outside a) :
    (eraseBank chip board info bank).board.memory a = board.memory a :=
  flashErase_outside chip board info 0 (info.sectorCount - 1) a (by omega) h

theorem eraseAll_outside (chip : Chip) (banks : List FlashInfo) (bank : Nat)
    (effect : Effect E) (a : BitVec 32) (h : OutsideFlash banks a) :
    (eraseAll chip banks bank effect).board.memory a = effect.board.memory a := by
  induction banks generalizing bank effect with
  | nil =>
      rfl
  | cons info banks ih =>
      unfold eraseAll
      rw [ih _ _ (fun other hother => h other (List.mem_cons_of_mem _ hother))]
      exact eraseBank_outside chip effect.board info bank a (h info List.mem_cons_self)

theorem abbrevSpec_sectors {banks : List FlashInfo} {str : List Byte} {bank : Nat}
    {first last : Int} (h : abbrevSpec banks str = .sectors bank first last) :
    exists info, banks[bank]? = some info ∧ last < info.sectorCount := by
  rcases abbrevSpec_sectors_iff.mp h with ⟨_, _, _, _, _, _, info, _, hpass, rfl, _, rfl⟩
  exact ⟨info, hpass.bankInfo, hpass.inside⟩

theorem bankNumber_mem {banks : List FlashInfo} {text : List Byte} {bank : Nat}
    {info : FlashInfo} (h : bankNumber banks text = some (bank, info)) : info ∈ banks := by
  unfold bankNumber at h
  dsimp only at h
  split at h
  · cases h
  · rcases Option.map_eq_some_iff.mp h with ⟨other, hother, hpair⟩
    rcases Prod.mk.inj hpair with ⟨_, rfl⟩
    exact List.mem_of_getElem? hother

theorem doFlerase_outside (chip : Chip) (board : Board E) (argv : List (List Byte))
    (a : BitVec 32) (h : OutsideFlash board.banks a) :
    (doFlerase chip board argv).board.memory a = board.memory a := by
  unfold doFlerase
  split
  · split
    · exact eraseAll_outside chip board.banks 1 _ a h
    · split
      · rfl
      case h_2 bank first last hspec =>
          rcases abbrevSpec_sectors hspec with ⟨info, hinfo, hlast⟩
          rw [hinfo]
          exact flashErase_outside chip board info first last a hlast
            (h info (List.mem_of_getElem? hinfo))
      · split
        · split
          · split
            · rfl
            case h_2 hbank =>
                exact eraseBank_outside chip board _ _ a (h _ (bankNumber_mem hbank))
          · unfold eraseRange
            split
            · rfl
            · split
              · rfl
              · exact flashSectErase_outside chip board _ _ a h
        · rfl
  · rfl

/-!
# Protection
-/

/-- Every bank of the second list has the layout of one in the first. -/
def SameLayout (before after : List FlashInfo) : Prop :=
  forall info, info ∈ after -> exists old p sectors, old ∈ before ∧
    (info = old ∨ info = old.protectSectors p sectors)

theorem SameLayout.outside {before after : List FlashInfo} (h : SameLayout before after)
    {a : BitVec 32} (houtside : OutsideFlash before a) : OutsideFlash after a := by
  intro info hinfo
  rcases h info hinfo with ⟨old, p, sectors, hold, rfl | rfl⟩
  · exact houtside info hold
  · exact houtside old hold

theorem sameLayout_refl (banks : List FlashInfo) : SameLayout banks banks :=
  fun info hinfo => ⟨info, false, [], hinfo, Or.inl rfl⟩

theorem sameLayout_modify (banks : List FlashInfo) (bank : Nat) (p : Bool)
    (sectors : FlashInfo -> List Nat) :
    SameLayout banks
      (banks.modify bank (fun info => info.protectSectors p (sectors info))) := by
  intro info hinfo
  rcases List.mem_iff_getElem?.mp hinfo with ⟨i, hi⟩
  rw [List.getElem?_modify] at hi
  rcases Option.map_eq_some_iff.mp hi with ⟨old, hold, hsame⟩
  refine ⟨old, p, sectors old, List.mem_of_getElem? hold, ?_⟩
  split at hsame
  · exact Or.inr hsame.symm
  · exact Or.inl hsame.symm

theorem sameLayout_protectBanks (p : Bool) (banks : List FlashInfo)
    (ranges : List SectorRange) : SameLayout banks (protectBanks p (banks.zip ranges)) := by
  intro info hinfo
  unfold protectBanks at hinfo
  rcases List.mem_map.mp hinfo with ⟨⟨old, range⟩, hpair, hsame⟩
  refine ⟨old, p, sectorsFrom range.first range.last, (List.of_mem_zip hpair).left, ?_⟩
  dsimp only at hsame
  split at hsame
  · exact Or.inr hsame.symm
  · exact Or.inl hsame.symm

structure OnlyProtects (before after : Board E) : Prop where
  memory : after.memory = before.memory
  layout : SameLayout before.banks after.banks

theorem onlyProtects_refl (board : Board E) : OnlyProtects board board :=
  ⟨rfl, sameLayout_refl _⟩

theorem flashSectProtect_onlyProtects (p : Bool) (board : Board E)
    (addrFirst addrLast : BitVec 32) :
    OnlyProtects board (flashSectProtect p board addrFirst addrLast).board := by
  unfold flashSectProtect
  dsimp only
  split
  · exact onlyProtects_refl board
  · split
    · exact ⟨rfl, sameLayout_protectBanks p _ _⟩
    · exact onlyProtects_refl board

theorem protectSpec_onlyProtects (p : Bool) (board : Board E) (arg2 : List Byte)
    (more : List (List Byte)) :
    OnlyProtects board (protectSpec p board arg2 more).board := by
  unfold protectSpec
  split
  · refine ⟨rfl, ?_⟩
    intro info hinfo
    rcases List.mem_map.mp hinfo with ⟨old, hold, hsame⟩
    refine ⟨old, p, allSectors old, hold, ?_⟩
    split at hsame
    · exact Or.inr hsame.symm
    · exact Or.inl hsame.symm
  · split
    · exact onlyProtects_refl board
    · exact ⟨rfl, sameLayout_modify _ _ p (fun _ => sectorsFrom _ _)⟩
    · split
      · split
        · split
          · exact onlyProtects_refl board
          · dsimp only
            split
            · exact ⟨rfl, sameLayout_modify _ _ p allSectors⟩
            · exact onlyProtects_refl board
        · unfold protectRange
          split
          · exact onlyProtects_refl board
          · split
            · exact onlyProtects_refl board
            · exact flashSectProtect_onlyProtects p board _ _
      · exact onlyProtects_refl board

theorem doProtect_onlyProtects (board : Board E) (argv : List (List Byte)) :
    OnlyProtects board (doProtect board argv).board := by
  unfold doProtect
  split
  · split
    · exact protectSpec_onlyProtects false board _ _
    · split
      · exact protectSpec_onlyProtects true board _ _
      · exact onlyProtects_refl board
  · exact onlyProtects_refl board

end Flash
end Bab750
