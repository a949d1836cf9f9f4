import Bab750.Flash.ExactRanges
import Mathlib.Data.List.Forall2

/-!
# Exact ranges of sectors

What `flash_sect_erase` and `flash_sect_protect` do to the sectors of a range, and for which
ranges they do exactly what was asked for.
-/

namespace Bab750
namespace Flash

open Foundation

/-!
# The sectors of a plan
-/

def PlanFits (info : FlashInfo) (range : SectorRange) : Prop :=
  0 <= range.first -> info.isKnown = true ∧ range.first <= range.last ∧
    range.last < info.sectorCount

def SectorRange.Has (range : SectorRange) (i : Nat) : Prop :=
  0 <= range.first ∧ range.first <= i ∧ i <= range.last

/-- The sector lies in the range from `lo` to `hi`. -/
def FlashInfo.Within (info : FlashInfo) (lo hi i : Nat) : Prop :=
  lo <= info.cut i ∧ info.cut (i + 1) <= hi + 1

def PlanExact (lo hi : Nat) (info : FlashInfo) (range : SectorRange) : Prop :=
  info.isKnown = true -> forall i, i < info.sectorCount -> (range.Has i ↔ info.Within lo hi i)

theorem forall2_none {p : FlashInfo -> SectorRange -> Prop} (banks : List FlashInfo)
    (h : forall info, info ∈ banks -> p info noSectors) :
    List.Forall₂ p banks (banks.map (fun _ => noSectors)) := by
  induction banks with
  | nil =>
      exact List.Forall₂.nil
  | cons info banks ih =>
      exact List.Forall₂.cons (h info List.mem_cons_self)
        (ih (fun bank hbank => h bank (List.mem_cons_of_mem _ hbank)))

theorem planFits_none (info : FlashInfo) (last : Int) : PlanFits info ⟨-1, last⟩ :=
  fun h => absurd h (show ¬ (0 : Int) <= -1 by decide)

theorem not_has_none (last : Int) (i : Nat) : ¬ SectorRange.Has ⟨-1, last⟩ i :=
  fun h => absurd h.left (show ¬ (0 : Int) <= -1 by decide)

theorem fill_fits (banks : List FlashInfo) (hlayout : Layout banks) {a last : BitVec 32}
    (h : (flashFillSectRanges banks a last).error = none) :
    List.Forall₂ PlanFits banks (flashFillSectRanges banks a last).ranges := by
  induction banks generalizing a with
  | nil =>
      exact List.Forall₂.nil
  | cons info banks ih =>
      cases Nat.lt_or_ge last.toNat a.toNat with
      | inl hlt =>
          rw [fill_empty _ hlt]
          exact forall2_none _ (fun bank _ => planFits_none bank _)
      | inr hle =>
          have hstep := fill_step banks hlayout.head hle
          generalize flashFillSectRanges (info :: banks) a last = plan at h hstep
          cases hstep with
          | missing hmissing =>
              exact List.Forall₂.cons (planFits_none info _) (ih hlayout.tail h)
          | ends i j hknown hj hij hfirst hlast =>
              refine List.Forall₂.cons (fun _ => ⟨hknown, ?_, ?_⟩) (ih hlayout.tail h)
              · exact Int.ofNat_le.mpr hij
              · exact Int.ofNat_lt.mpr hj
          | runsOn i hknown hi hfirst hlast =>
              refine List.Forall₂.cons (fun _ => ⟨hknown, ?_, ?_⟩) (ih hlayout.tail h)
              · show (i : Int) <= info.sectorCount - 1
                omega
              · show (info.sectorCount : Int) - 1 < info.sectorCount
                omega
          | skipped hknown hfirst hlast hout =>
              exact List.Forall₂.cons (planFits_none info _) (ih hlayout.tail h)
          | endInside i plan hknown hi hfirst hlast hinside herror =>
              exact absurd h herror
          | startInside plan hknown hfirst hin herror =>
              exact absurd h herror
          | reverse j plan hknown hfirst hj hlast herror =>
              exact absurd h herror

theorem fill_exact (banks : List FlashInfo) (hlayout : Layout banks) {a last : BitVec 32}
    (hle : a.toNat <= last.toNat) (h : WholeSectors banks a.toNat last.toNat) :
    List.Forall₂ (PlanExact a.toNat last.toNat) banks
      (flashFillSectRanges banks a last).ranges := by
  induction banks generalizing a with
  | nil =>
      exact List.Forall₂.nil
  | cons info banks ih =>
      have hstep := fill_step banks hlayout.head hle
      have haccepted := (fill_accepted_iff _ hlayout hle).mpr (Or.inl h)
      generalize flashFillSectRanges (info :: banks) a last = plan at haccepted hstep
      cases hstep with
      | missing hmissing =>
          refine List.Forall₂.cons ?_ (ih hlayout.tail hle ((wholeSectors_missing hmissing).mp h))
          intro hknown
          rw [hmissing] at hknown
          cases hknown
      | ends i j hknown hj hij hfirst hlast =>
          have hlaid := hlayout.head hknown
          rw [fill_behind hlayout hknown hj hlast]
          refine List.Forall₂.cons ?_ (forall2_none _ ?_)
          · intro _ k hk
            have hstep := hlaid.ascending k hk
            unfold SectorRange.Has FlashInfo.Within
            dsimp only
            constructor
            · rintro ⟨_, hik, hkj⟩
              have hlower := hlaid.ascending.le (show i <= k by omega) (by omega)
              have hupper := hlaid.ascending.le (show k + 1 <= j + 1 by omega) (by omega)
              omega
            · rintro ⟨hlower, hupper⟩
              have hik := hlaid.ascending.index_le (show i <= info.sectorCount by omega)
                (show info.cut i < info.cut (k + 1) by omega)
              have hkj := hlaid.ascending.index_le (show k <= info.sectorCount by omega)
                (show info.cut k < info.cut (j + 1) by omega)
              omega
          · intro bank hbank hbankKnown k hk
            have hbankLaid := hlayout.tail.laid bank hbank hbankKnown
            have hbehind := hlayout.behind hknown hbank hbankKnown
            have hzero := hbankLaid.ascending.le (Nat.zero_le k) (by omega)
            have hstep := hbankLaid.ascending k hk
            have htop := hlaid.cut_le_top (show j + 1 <= info.sectorCount from hj)
            refine ⟨fun hhas => absurd hhas (not_has_none _ _), ?_⟩
            rintro ⟨_, hupper⟩
            omega
      | runsOn i hknown hi hfirst hlast =>
          have hlaid := hlayout.head hknown
          have hend := bankEnd_within hlast
          have hrest := (wholeSectors_runsOn hlayout hknown hi hfirst hlast).mp h
          rw [← hend] at hrest
          have hstart := hlaid.ascending i hi
          have hbelow := hlaid.cut_le_top (show i + 1 <= info.sectorCount from hi)
          have hmore := ih hlayout.tail (show info.bankEnd.toNat <= last.toNat by omega) hrest
          refine List.Forall₂.cons ?_ ?_
          · intro _ k hk
            have hstep := hlaid.ascending k hk
            have htop := hlaid.cut_le_top (show k + 1 <= info.sectorCount from hk)
            unfold SectorRange.Has FlashInfo.Within
            dsimp only
            constructor
            · rintro ⟨_, hik, _⟩
              have hlower := hlaid.ascending.le (show i <= k by omega) (by omega)
              omega
            · rintro ⟨hlower, _⟩
              have hik := hlaid.ascending.index_le (show i <= info.sectorCount by omega)
                (show info.cut i < info.cut (k + 1) by omega)
              omega
          · -- the sectors behind the bank lie behind the start of the range, too
            have hmem := (List.forall₂_and_left (p := fun bank => bank ∈ banks) _ _).mpr
              ⟨fun bank hbank => hbank, hmore⟩
            apply hmem.imp
            rintro bank range ⟨hbank, hexact⟩ hbankKnown k hk
            rw [hexact hbankKnown k hk, hend]
            have hbehind := hlayout.behind hknown hbank hbankKnown
            have hzero := (hlayout.tail.laid bank hbank hbankKnown).ascending.le
              (Nat.zero_le k) (by omega)
            unfold FlashInfo.Within
            omega
      | skipped hknown hfirst hlast hout =>
          have hlaid := hlayout.head hknown
          have htop := top_le_of_start hlayout hknown
            ((sectorStart_cons (fun _ => hfirst)).mp (h.start hle))
          refine List.Forall₂.cons ?_
            (ih hlayout.tail hle ((wholeSectors_below hlaid htop).mp h))
          intro _ k hk
          have hstep := hlaid.ascending k hk
          have hbelow := hlaid.cut_le_top (show k + 1 <= info.sectorCount from hk)
          refine ⟨fun hhas => absurd hhas (not_has_none _ _), ?_⟩
          rintro ⟨hlower, _⟩
          omega
      | endInside i plan hknown hi hfirst hlast hinside herror =>
          exact absurd haccepted.left herror
      | startInside plan hknown hfirst hin herror =>
          exact absurd haccepted.left herror
      | reverse j plan hknown hfirst hj hlast herror =>
          exact absurd haccepted.left herror

/-!
# Erasing
-/

section Erase

variable {E : Type}

theorem mem_sectorsFrom_iff {range : SectorRange} (hfirst : 0 <= range.first) {i : Nat} :
    i ∈ sectorsFrom range.first range.last ↔ range.Has i := by
  unfold sectorsFrom SectorRange.Has
  rw [List.mem_map]
  constructor
  · rintro ⟨k, hk, rfl⟩
    rw [List.mem_range] at hk
    omega
  · rintro ⟨_, hle, hlast⟩
    exact ⟨i - range.first.toNat, List.mem_range.mpr (by omega), by omega⟩

def FlashInfo.unlocked (info : FlashInfo) (range : SectorRange) : List Nat :=
  (sectorsFrom range.first range.last).filter (fun i => !info.protect i)

/-- A sector of the plan that is not protected holds the address. -/
def FlashInfo.ErasedBy (info : FlashInfo) (range : SectorRange) (a : BitVec 32) : Prop :=
  exists i, range.Has i ∧ info.protect i = false ∧ info.inSector i a = true

theorem eraseSectors_erased {info : FlashInfo} {range : SectorRange} (hfirst : 0 <= range.first)
    (memory : Memory) (a : BitVec 32) :
    (info.ErasedBy range a ->
        eraseSectors norChip memory info (info.unlocked range) a = 0xff#8) ∧
      (¬ info.ErasedBy range a ->
        eraseSectors norChip memory info (info.unlocked range) a = memory a) := by
  have hany : (info.unlocked range).any (fun i => info.inSector i a) = true ↔
      info.ErasedBy range a := by
    unfold FlashInfo.unlocked
    rw [List.any_eq_true]
    constructor
    · rintro ⟨i, hi, hin⟩
      rw [List.mem_filter, mem_sectorsFrom_iff hfirst, Bool.not_eq_true'] at hi
      exact ⟨i, hi.left, hi.right, hin⟩
    · rintro ⟨i, hhas, hopen, hin⟩
      refine ⟨i, ?_, hin⟩
      rw [List.mem_filter, mem_sectorsFrom_iff hfirst, Bool.not_eq_true']
      exact ⟨hhas, hopen⟩
  unfold eraseSectors
  constructor
  · intro h
    rw [if_pos (hany.mpr h)]
    rfl
  · intro h
    rw [if_neg (fun hfound => h (hany.mp hfound))]

theorem flashErase_fits (board : Board E) {info : FlashInfo} (hlaid : info.Laid)
    (hcompatible : info.flashId <= flashAmdComp) {range : SectorRange}
    (hfits : PlanFits info range) (hfirst : 0 <= range.first) :
    (flashErase norChip board info range.first range.last).rc = 0 ∧
      (flashErase norChip board info range.first range.last).board =
        { board with
          memory := eraseSectors norChip board.memory info (info.unlocked range) } := by
  rcases hfits hfirst with ⟨hknown, horder, hlast⟩
  unfold flashErase
  rw [if_neg (by omega), hknown, if_neg]
  · dsimp only
    unfold FlashInfo.unlocked
    generalize hunlocked :
      (sectorsFrom range.first range.last).filter (fun i => !info.protect i) = unlocked
    cases hlastSector : unlocked.getLast? with
    | none =>
        rw [List.getLast?_eq_none_iff] at hlastSector
        rw [hlastSector]
        exact ⟨rfl, rfl⟩
    | some lSect =>
        have hmem := List.mem_of_getLast? hlastSector
        have hhas : range.Has lSect := by
          rw [← hunlocked, List.mem_filter, mem_sectorsFrom_iff hfirst] at hmem
          exact hmem.left
        have hlt : lSect < info.sectorCount := by
          have hupper := hhas.right.right
          omega
        have hbyte : eraseSectors norChip board.memory info unlocked (info.start lSect) =
            0xff#8 := by
          unfold eraseSectors
          rw [if_pos]
          · rfl
          · rw [List.any_eq_true]
            refine ⟨lSect, hmem, (hlaid.inSector_iff hlt _).mpr ?_⟩
            have hstep := hlaid.ascending lSect hlt
            have hstart := @FlashInfo.Laid.start_toNat info lSect hlt
            omega
        have hready : eraseSectors norChip board.memory info unlocked (info.start lSect) &&&
            0x80#8 = 0x80#8 := by
          rw [hbyte]
          decide
        dsimp only
        rw [if_pos hready]
        exact ⟨rfl, rfl⟩
  · rw [Bool.not_true, Bool.false_or, decide_eq_true_eq, BitVec.not_lt]
    exact hcompatible

def PlanErases (pairs : List (FlashInfo × SectorRange)) (a : BitVec 32) : Prop :=
  exists pair, pair ∈ pairs ∧ 0 <= pair.2.first ∧ pair.1.ErasedBy pair.2 a

/-- `flash_sect_erase` behind its plan: all its sectors are erased, and nothing else changes. -/
theorem eraseBanks_fits (pairs : List (FlashInfo × SectorRange)) (board : Board E)
    (erased : Int) (hlaid : forall pair, pair ∈ pairs -> pair.1.isKnown = true -> pair.1.Laid)
    (hcompatible : forall pair, pair ∈ pairs -> pair.1.isKnown = true ->
      pair.1.flashId <= flashAmdComp)
    (hfits : forall pair, pair ∈ pairs -> PlanFits pair.1 pair.2) :
    (eraseBanks norChip pairs board erased).rc = 0 ∧
      (eraseBanks norChip pairs board erased).board =
        { board with memory := (eraseBanks norChip pairs board erased).board.memory } ∧
      forall a, (PlanErases pairs a ->
          (eraseBanks norChip pairs board erased).board.memory a = 0xff#8) ∧
        (¬ PlanErases pairs a ->
          (eraseBanks norChip pairs board erased).board.memory a = board.memory a) := by
  induction pairs generalizing board erased with
  | nil =>
      refine ⟨rfl, rfl, ?_⟩
      intro a
      refine ⟨?_, fun _ => rfl⟩
      rintro ⟨pair, hpair, _⟩
      exact absurd hpair List.not_mem_nil
  | cons pair pairs ih =>
      rcases pair with ⟨info, range⟩
      have hih := fun board erased => ih board erased
        (fun pair hpair => hlaid pair (List.mem_cons_of_mem _ hpair))
        (fun pair hpair => hcompatible pair (List.mem_cons_of_mem _ hpair))
        (fun pair hpair => hfits pair (List.mem_cons_of_mem _ hpair))
      unfold eraseBanks
      by_cases hfirst : 0 <= range.first
      · have hpair := hfits _ List.mem_cons_self
        have hknown : info.isKnown = true := (hpair hfirst).left
        rcases flashErase_fits board (hlaid _ List.mem_cons_self hknown)
          (hcompatible _ List.mem_cons_self hknown) hpair hfirst with ⟨hcode, hboard⟩
        rw [if_pos hfirst]
        dsimp only
        rw [if_pos hcode, hboard]
        rcases hih { board with
          memory := eraseSectors norChip board.memory info (info.unlocked range) }
          (erased + (range.last - range.first + 1)) with ⟨hrest, hsame, hmemory⟩
        refine ⟨hrest, hsame, ?_⟩
        intro a
        have herase := @eraseSectors_erased info range hfirst board.memory a
        have hcons : PlanErases ((info, range) :: pairs) a ↔
            info.ErasedBy range a ∨ PlanErases pairs a := by
          constructor
          · rintro ⟨pair, hpair, hpos, herased⟩
            rcases List.mem_cons.mp hpair with rfl | hpair
            · exact Or.inl herased
            · exact Or.inr ⟨pair, hpair, hpos, herased⟩
          · rintro (herased | ⟨pair, hpair, hrest⟩)
            · exact ⟨(info, range), List.mem_cons_self, hfirst, herased⟩
            · exact ⟨pair, List.mem_cons_of_mem _ hpair, hrest⟩
        rw [hcons]
        by_cases hlater : PlanErases pairs a
        · exact ⟨fun _ => (hmemory a).left hlater, fun hnone => absurd (Or.inr hlater) hnone⟩
        · constructor
          · rintro (hhere | hrest)
            · exact ((hmemory a).right hlater).trans (herase.left hhere)
            · exact absurd hrest hlater
          · intro hnone
            exact ((hmemory a).right hlater).trans (herase.right (fun h => hnone (Or.inl h)))
      · rw [if_neg hfirst]
        rcases hih board erased with ⟨hcode, hboard, hmemory⟩
        refine ⟨hcode, hboard, ?_⟩
        intro a
        have hsame : PlanErases ((info, range) :: pairs) a ↔ PlanErases pairs a := by
          constructor
          · rintro ⟨pair, hpair, hpos, herased⟩
            rcases List.mem_cons.mp hpair with rfl | hpair
            · exact absurd hpos hfirst
            · exact ⟨pair, hpair, hpos, herased⟩
          · rintro ⟨pair, hpair, hrest⟩
            exact ⟨pair, List.mem_cons_of_mem _ hpair, hrest⟩
        rw [hsame]
        exact hmemory a

end Erase

/-!
# The commands
-/

theorem exists_zip_of_mem {p : FlashInfo -> SectorRange -> Prop} {banks : List FlashInfo}
    {ranges : List SectorRange} (h : List.Forall₂ p banks ranges) {info : FlashInfo}
    (hinfo : info ∈ banks) : exists range, (info, range) ∈ banks.zip ranges := by
  induction h with
  | nil =>
      exact absurd hinfo List.not_mem_nil
  | cons hp hrest ih =>
      rcases List.mem_cons.mp hinfo with rfl | hinfo
      · exact ⟨_, List.mem_cons_self⟩
      · rcases ih hinfo with ⟨range, hrange⟩
        exact ⟨range, List.mem_cons_of_mem _ hrange⟩

/-- The address lies in a sector of the range that is not protected. -/
def ErasedIn (banks : List FlashInfo) (lo hi : Nat) (a : BitVec 32) : Prop :=
  exists info, info ∈ banks ∧ info.isKnown = true ∧ exists i, i < info.sectorCount ∧
    info.Within lo hi i ∧ info.protect i = false ∧ info.inSector i a = true

theorem planErases_iff {banks : List FlashInfo} {ranges : List SectorRange} {lo hi : Nat}
    (hfits : List.Forall₂ PlanFits banks ranges)
    (hexact : List.Forall₂ (PlanExact lo hi) banks ranges) (a : BitVec 32) :
    PlanErases (banks.zip ranges) a ↔ ErasedIn banks lo hi a := by
  constructor
  · rintro ⟨⟨info, range⟩, hpair, hfirst, i, hhas, hopen, hin⟩
    rcases List.forall₂_zip hfits hpair hfirst with ⟨hknown, _, hlast⟩
    have hlt : i < info.sectorCount := by
      have hupper := hhas.right.right
      dsimp only at hupper hlast
      omega
    exact ⟨info, (List.of_mem_zip hpair).left, hknown, i, hlt,
      (List.forall₂_zip hexact hpair hknown i hlt).mp hhas, hopen, hin⟩
  · rintro ⟨info, hinfo, hknown, i, hi, hwithin, hopen, hin⟩
    rcases exists_zip_of_mem hexact hinfo with ⟨range, hpair⟩
    have hhas := (List.forall₂_zip hexact hpair hknown i hi).mpr hwithin
    exact ⟨(info, range), hpair, hhas.left, i, hhas, hopen, hin⟩

/-- The bank with the protection of its sectors in the range set. -/
def FlashInfo.protectWithin (info : FlashInfo) (p : Bool) (lo hi : Nat) : FlashInfo :=
  if info.isKnown then
    { info with
      protect := fun i =>
        if i < info.sectorCount ∧ lo <= info.cut i ∧ info.cut (i + 1) <= hi + 1 then p
        else info.protect i }
  else info

theorem protectBanks_exact {banks : List FlashInfo} {ranges : List SectorRange} {lo hi : Nat}
    (hfits : List.Forall₂ PlanFits banks ranges)
    (hexact : List.Forall₂ (PlanExact lo hi) banks ranges) (p : Bool) :
    protectBanks p (banks.zip ranges) =
      banks.map (fun info => info.protectWithin p lo hi) := by
  induction hexact with
  | nil =>
      rfl
  | @cons info range banks ranges hhead hrest ih =>
      cases hfits with
      | cons hfit hfits =>
          have hrec := ih hfits
          unfold protectBanks at hrec ⊢
          rw [List.zip_cons_cons, List.map_cons, List.map_cons, hrec]
          congr 1
          dsimp only
          unfold FlashInfo.protectWithin
          cases hknown : info.isKnown with
          | false =>
              rfl
          | true =>
              have hsector : forall i, (i < info.sectorCount ∧ lo <= info.cut i ∧
                  info.cut (i + 1) <= hi + 1) ↔ range.Has i := by
                intro i
                constructor
                · rintro ⟨hi', hwithin⟩
                  exact (hhead hknown i hi').mpr hwithin
                · intro hhas
                  have hlast := (hfit hhas.left).right.right
                  have hupper := hhas.right.right
                  have hlt : i < info.sectorCount := by omega
                  exact ⟨hlt, (hhead hknown i hlt).mp hhas⟩
              rw [if_pos rfl, Bool.true_and]
              split
              case isTrue hrange =>
                  rw [Bool.and_eq_true, decide_eq_true_eq, decide_eq_true_eq] at hrange
                  unfold FlashInfo.protectSectors
                  congr 1
                  funext i
                  exact if_congr ((mem_sectorsFrom_iff hrange.left).trans (hsector i).symm)
                    rfl rfl
              case isFalse hnone =>
                  rw [Bool.and_eq_true, decide_eq_true_eq, decide_eq_true_eq] at hnone
                  have hempty : forall i, ¬ range.Has i := by
                    intro i hhas
                    exact hnone ⟨hhas.left, Int.le_trans hhas.right.left hhas.right.right⟩
                  have hsame : (fun i => if i < info.sectorCount ∧ lo <= info.cut i ∧
                      info.cut (i + 1) <= hi + 1 then p else info.protect i) = info.protect := by
                    funext i
                    exact if_neg (fun h => hempty i ((hsector i).mp h))
                  rw [hsame]

section Commands

variable {E : Type}

/-- What a caller of `flash_sect_erase` relies on. -/
structure ExactErase (board : Board E) (first last : BitVec 32) : Prop where
  exact : (flashSectErase norChip board first last).rc = 0 ->
    WholeSectors board.banks first.toNat last.toNat
  erased : (flashSectErase norChip board first last).rc = 0 ->
    forall a, (ErasedIn board.banks first.toNat last.toNat a ->
        (flashSectErase norChip board first last).board.memory a = 0xff#8) ∧
      (¬ ErasedIn board.banks first.toNat last.toNat a ->
        (flashSectErase norChip board first last).board.memory a = board.memory a)
  kept : (flashSectErase norChip board first last).board.banks = board.banks
  refused : ¬ WholeSectors board.banks first.toNat last.toNat ->
    (flashSectErase norChip board first last).rc ≠ 0 ∧
      (flashSectErase norChip board first last).board = board

/-- What a caller of `flash_sect_protect` relies on. -/
structure ExactProtect (p : Bool) (board : Board E) (first last : BitVec 32) : Prop where
  exact : (flashSectProtect p board first last).rc = 0 ->
    WholeSectors board.banks first.toNat last.toNat
  flags : (flashSectProtect p board first last).rc = 0 ->
    (flashSectProtect p board first last).board =
      { board with
        banks := board.banks.map (fun info =>
          info.protectWithin p first.toNat last.toNat) }
  refused : ¬ WholeSectors board.banks first.toNat last.toNat ->
    (flashSectProtect p board first last).rc ≠ 0 ∧
      (flashSectProtect p board first last).board = board

variable {board : Board E} {first last : BitVec 32}

theorem RunsOut.not_wholeSectors {banks : List FlashInfo} (hlayout : Layout banks) {lo hi : Nat}
    (h : RunsOut banks lo hi) : ¬ WholeSectors banks lo hi := by
  rcases h with ⟨⟨n, hn, hle, hnone⟩, _⟩
  intro hwhole
  rcases hwhole n hn hle with ⟨info, hinfo, hknown, i, hi, hin, hout, _⟩
  exact hnone info hinfo hknown
    ((hlayout.laid info hinfo hknown).sector_covers hi ⟨hin, hout⟩)

theorem flashSectErase_refused
    (h : ¬ (flashFillSectRanges board.banks first last).Accepted) :
    (flashSectErase norChip board first last).rc ≠ 0 ∧
      (flashSectErase norChip board first last).board = board := by
  unfold flashSectErase
  dsimp only
  split
  case h_1 error herror =>
      exact ⟨Int.one_ne_zero, rfl⟩
  case h_2 herror =>
      rw [if_neg (fun hcount => h ⟨herror, hcount⟩)]
      exact ⟨Int.one_ne_zero, rfl⟩

theorem flashSectErase_accepted
    (h : (flashFillSectRanges board.banks first last).Accepted) :
    flashSectErase norChip board first last =
      eraseBanks norChip
        (board.banks.zip (flashFillSectRanges board.banks first last).ranges) board 0 := by
  unfold flashSectErase
  dsimp only
  rw [h.left]
  exact if_pos h.right

theorem flashSectProtect_refused (p : Bool)
    (h : ¬ (flashFillSectRanges board.banks first last).Accepted) :
    (flashSectProtect p board first last).rc ≠ 0 ∧
      (flashSectProtect p board first last).board = board := by
  unfold flashSectProtect
  dsimp only
  split
  case h_1 error herror =>
      exact ⟨Int.one_ne_zero, rfl⟩
  case h_2 herror =>
      rw [if_neg (fun hcount => h ⟨herror, hcount⟩)]
      exact ⟨Int.one_ne_zero, rfl⟩

theorem flashSectProtect_accepted (p : Bool)
    (h : (flashFillSectRanges board.banks first last).Accepted) :
    (flashSectProtect p board first last).rc = 0 ∧
      (flashSectProtect p board first last).board =
        { board with
          banks := protectBanks p
            (board.banks.zip (flashFillSectRanges board.banks first last).ranges) } := by
  unfold flashSectProtect
  dsimp only
  rw [h.left, if_pos h.right]
  exact ⟨rfl, rfl⟩

/-- `flash_erase` knows how to erase the known banks. -/
def Compatible (banks : List FlashInfo) : Prop :=
  forall info, info ∈ banks -> info.isKnown = true -> info.flashId <= flashAmdComp

theorem flashSectErase_erases (hlayout : Layout board.banks)
    (hcompatible : Compatible board.banks)
    (h : (flashFillSectRanges board.banks first last).Accepted) :
    (flashSectErase norChip board first last).rc = 0 ∧
      (flashSectErase norChip board first last).board =
        { board with memory := (flashSectErase norChip board first last).board.memory } ∧
      forall a, (PlanErases (board.banks.zip
            (flashFillSectRanges board.banks first last).ranges) a ->
          (flashSectErase norChip board first last).board.memory a = 0xff#8) ∧
        (¬ PlanErases (board.banks.zip
            (flashFillSectRanges board.banks first last).ranges) a ->
          (flashSectErase norChip board first last).board.memory a = board.memory a) := by
  rw [flashSectErase_accepted h]
  have hfits := fill_fits _ hlayout h.left
  exact eraseBanks_fits _ board 0
    (fun pair hpair => hlayout.laid _ (List.of_mem_zip hpair).left)
    (fun pair hpair => hcompatible _ (List.of_mem_zip hpair).left)
    (fun pair hpair => List.forall₂_zip hfits hpair)

theorem exactErase_of_whole (hlayout : Layout board.banks)
    (hcompatible : Compatible board.banks) (hle : first.toNat <= last.toNat)
    (h : WholeSectors board.banks first.toNat last.toNat) : ExactErase board first last := by
  have haccepted := (fill_accepted_iff _ hlayout hle).mpr (Or.inl h)
  rcases flashSectErase_erases hlayout hcompatible haccepted with ⟨_, hboard, hmemory⟩
  have hplan := planErases_iff (fill_fits _ hlayout haccepted.left) (fill_exact _ hlayout hle h)
  constructor
  · exact fun _ => h
  · intro _ a
    rw [← hplan a]
    exact hmemory a
  · rw [hboard]
  · exact fun hnot => absurd h hnot

theorem exactErase_of_refused
    (h : ¬ (flashFillSectRanges board.banks first last).Accepted) :
    ExactErase board first last := by
  rcases flashSectErase_refused h with ⟨hcode, hboard⟩
  constructor
  · exact fun hzero => absurd hzero hcode
  · exact fun hzero => absurd hzero hcode
  · rw [hboard]
  · exact fun _ => ⟨hcode, hboard⟩

theorem exactProtect_of_whole (p : Bool) (hlayout : Layout board.banks)
    (hle : first.toNat <= last.toNat) (h : WholeSectors board.banks first.toNat last.toNat) :
    ExactProtect p board first last := by
  have haccepted := (fill_accepted_iff _ hlayout hle).mpr (Or.inl h)
  constructor
  · exact fun _ => h
  · intro _
    rw [(flashSectProtect_accepted p haccepted).right,
      protectBanks_exact (fill_fits _ hlayout haccepted.left) (fill_exact _ hlayout hle h)]
  · exact fun hnot => absurd h hnot

theorem exactProtect_of_refused (p : Bool)
    (h : ¬ (flashFillSectRanges board.banks first last).Accepted) :
    ExactProtect p board first last := by
  rcases flashSectProtect_refused p h with ⟨hcode, hboard⟩
  constructor
  · exact fun hzero => absurd hzero hcode
  · exact fun hzero => absurd hzero hcode
  · exact fun _ => ⟨hcode, hboard⟩

/-- Ranges are exact, other than those that start with a sector, run out of the flash, and do
not end with a sector: of these the sectors up to the end of the flash are taken. -/
theorem sectRanges_exact_iff (board : Board E) (first last : BitVec 32)
    (hlayout : Layout board.banks) (hcompatible : Compatible board.banks)
    (hle : first.toNat <= last.toNat) :
    (ExactErase board first last ↔
        ¬ StartsAndRunsOut board.banks first.toNat last.toNat) ∧
      forall p, (ExactProtect p board first last ↔
        ¬ StartsAndRunsOut board.banks first.toNat last.toNat) := by
  have haccepted := fill_accepted_iff _ hlayout hle
  constructor
  · constructor
    · intro h hout
      have hcode := (flashSectErase_erases hlayout hcompatible
        (haccepted.mpr (Or.inr hout))).left
      exact (h.refused (hout.right.not_wholeSectors hlayout)).left hcode
    · intro hnot
      by_cases h : WholeSectors board.banks first.toNat last.toNat
      · exact exactErase_of_whole hlayout hcompatible hle h
      · exact exactErase_of_refused (fun ha => (haccepted.mp ha).elim h hnot)
  · intro p
    constructor
    · intro h hout
      have hcode := (flashSectProtect_accepted p (haccepted.mpr (Or.inr hout))).left
      exact (h.refused (hout.right.not_wholeSectors hlayout)).left hcode
    · intro hnot
      by_cases h : WholeSectors board.banks first.toNat last.toNat
      · exact exactProtect_of_whole p hlayout hle h
      · exact exactProtect_of_refused p (fun ha => (haccepted.mp ha).elim h hnot)

end Commands

def oneBankBoard : Board Unit where
  memory := fun _ => 0x00#8
  banks := [chipInfo 0xff800000#32 0x41#8 (fun _ => false) missingBank 64 0x00400000#32,
    missingBank]
  baseAddress := 0#32
  rest := ()

theorem oneBankBoard_layout : Layout oneBankBoard.banks := by
  constructor
  · intro info hinfo hknown
    rcases List.mem_pair.mp hinfo with rfl | rfl
    · exact chipInfo_laid rfl (by decide)
    · exact absurd hknown (by decide)
  · apply List.pairwise_pair.mpr
    intro _ hknown
    exact absurd hknown (by decide)

theorem oneBankBoard_compatible : Compatible oneBankBoard.banks := by
  intro info hinfo hknown
  rcases List.mem_pair.mp hinfo with rfl | rfl
  · decide
  · exact absurd hknown (by decide)

theorem oneBankBoard_startsAndRunsOut :
    StartsAndRunsOut oneBankBoard.banks (0xff800000#32).toNat (0xffc00fff#32).toNat := by
  refine ⟨⟨_, List.mem_cons_self, rfl, 0, by decide, by decide⟩,
    ⟨0xffc00000, by decide, by decide, ?_⟩, ?_⟩
  · intro info hinfo hknown hcovers
    rcases List.mem_pair.mp hinfo with rfl | rfl
    · have htop := hcovers.right
      rw [chipInfo_top rfl (by decide)] at htop
      exact absurd htop (by decide)
    · exact absurd hknown (by decide)
  · rintro ⟨info, hinfo, hknown, i, hi, hend⟩
    rcases List.mem_pair.mp hinfo with rfl | rfl
    · have hlt : i < 64 := hi
      rw [chipInfo_cut rfl (by decide) (show i + 1 <= 64 from hlt)] at hend
      have hnumber : 0xff800000 + (i + 1) * 0x10000 = 0xffc00fff + 1 := hend
      omega
    · exact absurd hknown (by decide)

/-- The whole bank is erased for a range that ends behind it, where no sector is. -/
theorem sectRanges_past_flash :
    ¬ WholeSectors oneBankBoard.banks (0xff800000#32).toNat (0xffc00fff#32).toNat ∧
      (flashSectErase norChip oneBankBoard 0xff800000#32 0xffc00fff#32).rc = 0 ∧
      ¬ ExactErase oneBankBoard 0xff800000#32 0xffc00fff#32 ∧
      forall p, ¬ ExactProtect p oneBankBoard 0xff800000#32 0xffc00fff#32 := by
  have hwhole := oneBankBoard_startsAndRunsOut.right.not_wholeSectors oneBankBoard_layout
  have haccepted := (fill_accepted_iff _ oneBankBoard_layout (by decide)).mpr
    (Or.inr oneBankBoard_startsAndRunsOut)
  have herase := (flashSectErase_erases oneBankBoard_layout oneBankBoard_compatible
    haccepted).left
  refine ⟨hwhole, herase, fun h => (h.refused hwhole).left herase, ?_⟩
  intro p h
  exact (h.refused hwhole).left (flashSectProtect_accepted p haccepted).left

/-- The first sector of the flash. -/
theorem sectRanges_first_sector :
    ExactErase oneBankBoard 0xff800000#32 0xff80ffff#32 ∧
      forall p, ExactProtect p oneBankBoard 0xff800000#32 0xff80ffff#32 := by
  have hinside : ¬ StartsAndRunsOut oneBankBoard.banks (0xff800000#32).toNat
      (0xff80ffff#32).toNat := by
    rintro ⟨_, ⟨n, hn, hle, hnone⟩, _⟩
    apply hnone _ List.mem_cons_self rfl
    unfold FlashInfo.Covers
    rw [chipInfo_top rfl (by decide), chipInfo_cut rfl (by decide) (Nat.zero_le _)]
    change 0xff800000 <= n at hn
    change n <= 0xff80ffff at hle
    change 0xff800000 + 0 * 0x10000 <= n ∧ n < 0xff800000 + 0x00400000
    omega
  have hiff := sectRanges_exact_iff oneBankBoard 0xff800000#32 0xff80ffff#32
    oneBankBoard_layout oneBankBoard_compatible (by decide)
  exact ⟨hiff.left.mpr hinside, fun p => (hiff.right p).mpr hinside⟩

end Flash
end Bab750
