import Bab750.Flash.Sectors

/-!
# Ranges that are whole sectors

Which ranges `flash_fill_sect_ranges` accepts: those that consist of whole sectors, and those
that start with a sector, run out of the flash, and do not end with a sector.
-/

namespace Bab750
namespace Flash

open Foundation

/-- Every address from `lo` to `hi` lies in a sector of a known bank that lies in the range. -/
def WholeSectors (banks : List FlashInfo) (lo hi : Nat) : Prop :=
  forall n, lo <= n -> n <= hi -> exists info, info ∈ banks ∧ info.isKnown = true ∧
    exists i, i < info.sectorCount ∧ info.cut i <= n ∧ n < info.cut (i + 1) ∧
      lo <= info.cut i ∧ info.cut (i + 1) <= hi + 1

def SectorStart (banks : List FlashInfo) (n : Nat) : Prop :=
  exists info, info ∈ banks ∧ info.isKnown = true ∧
    exists i, i < info.sectorCount ∧ info.cut i = n

def SectorEnd (banks : List FlashInfo) (n : Nat) : Prop :=
  exists info, info ∈ banks ∧ info.isKnown = true ∧
    exists i, i < info.sectorCount ∧ info.cut (i + 1) = n + 1

/-- Some address from `lo` to `hi` lies in no known bank. -/
def LeavesFlash (banks : List FlashInfo) (lo hi : Nat) : Prop :=
  exists n, lo <= n ∧ n <= hi ∧ forall info, info ∈ banks -> info.isKnown = true ->
    ¬ info.Covers n

/-- A range that leaves the flash and does not end with a sector. -/
def RunsOut (banks : List FlashInfo) (lo hi : Nat) : Prop :=
  LeavesFlash banks lo hi ∧ ¬ SectorEnd banks hi

theorem Layout.tail {info : FlashInfo} {banks : List FlashInfo} (h : Layout (info :: banks)) :
    Layout banks where
  laid := fun bank hbank => h.laid bank (List.mem_cons_of_mem _ hbank)
  ascending := (List.pairwise_cons.mp h.ascending).right

theorem Layout.head {info : FlashInfo} {banks : List FlashInfo} (h : Layout (info :: banks))
    (hknown : info.isKnown = true) : info.Laid :=
  h.laid info List.mem_cons_self hknown

theorem Layout.behind {info : FlashInfo} {banks : List FlashInfo} (h : Layout (info :: banks))
    (hknown : info.isKnown = true) {bank : FlashInfo} (hbank : bank ∈ banks)
    (hbankKnown : bank.isKnown = true) : info.top <= bank.cut 0 :=
  (List.pairwise_cons.mp h.ascending).left bank hbank hknown hbankKnown

theorem FlashInfo.Laid.sector_covers {info : FlashInfo} (h : info.Laid) {i n : Nat}
    (hi : i < info.sectorCount) (hin : info.cut i <= n ∧ n < info.cut (i + 1)) :
    info.Covers n := by
  have hzero := h.ascending.le (Nat.zero_le i) (by omega)
  have htop := h.cut_le_top (show i + 1 <= info.sectorCount from hi)
  exact ⟨by omega, by omega⟩

/-!
# Banks in front of the others
-/

section Front

variable {info : FlashInfo} {banks : List FlashInfo} {lo hi : Nat}

theorem exists_known_missing {p : FlashInfo -> Prop} (hmissing : info.isKnown = false) :
    (exists bank, bank ∈ info :: banks ∧ bank.isKnown = true ∧ p bank) ↔
      exists bank, bank ∈ banks ∧ bank.isKnown = true ∧ p bank := by
  constructor
  · rintro ⟨bank, hbank, hknown, hp⟩
    rcases List.mem_cons.mp hbank with rfl | hbank
    · rw [hmissing] at hknown
      cases hknown
    · exact ⟨bank, hbank, hknown, hp⟩
  · rintro ⟨bank, hbank, hknown, hp⟩
    exact ⟨bank, List.mem_cons_of_mem _ hbank, hknown, hp⟩

theorem wholeSectors_missing (hmissing : info.isKnown = false) :
    WholeSectors (info :: banks) lo hi ↔ WholeSectors banks lo hi := by
  unfold WholeSectors
  simp only [exists_known_missing hmissing]

theorem sectorStart_missing (hmissing : info.isKnown = false) {n : Nat} :
    SectorStart (info :: banks) n ↔ SectorStart banks n :=
  exists_known_missing hmissing

theorem runsOut_missing (hmissing : info.isKnown = false) :
    RunsOut (info :: banks) lo hi ↔ RunsOut banks lo hi := by
  have hend : SectorEnd (info :: banks) hi ↔ SectorEnd banks hi := exists_known_missing hmissing
  have hleaves : LeavesFlash (info :: banks) lo hi ↔ LeavesFlash banks lo hi := by
    unfold LeavesFlash
    simp only [List.forall_mem_cons, hmissing, Bool.false_eq_true, false_implies, true_and]
  unfold RunsOut
  rw [hend, hleaves]

theorem sectorEnd_cons (h : info.isKnown = true ->
    forall i, i < info.sectorCount -> info.cut (i + 1) ≠ hi + 1) :
    SectorEnd (info :: banks) hi ↔ SectorEnd banks hi := by
  constructor
  · rintro ⟨bank, hbank, hknown, i, hi', hend⟩
    rcases List.mem_cons.mp hbank with rfl | hbank
    · exact absurd hend (h hknown i hi')
    · exact ⟨bank, hbank, hknown, i, hi', hend⟩
  · rintro ⟨bank, hbank, hknown, hend⟩
    exact ⟨bank, List.mem_cons_of_mem _ hbank, hknown, hend⟩

/-- A range that starts in the front bank and runs on goes on behind it. -/
theorem wholeSectors_runsOn (hlayout : Layout (info :: banks)) (hknown : info.isKnown = true)
    {i : Nat} (hi' : i < info.sectorCount) (hfirst : info.cut i = lo) (hlast : info.top <= hi) :
    WholeSectors (info :: banks) lo hi ↔ WholeSectors banks info.top hi := by
  have hlaid := hlayout.head hknown
  have hzero := hlaid.ascending.le (Nat.zero_le i) (by omega)
  have hstep := hlaid.ascending i hi'
  have hbelow := hlaid.cut_le_top (show i + 1 <= info.sectorCount from hi')
  constructor
  · intro h n hn hle
    rcases h n (by omega) hle with ⟨bank, hbank, hbankKnown, k, hk, hin, hout, _, hend⟩
    rcases List.mem_cons.mp hbank with rfl | hbank
    · have htop := hlaid.cut_le_top (show k + 1 <= bank.sectorCount from hk)
      omega
    · have hbehind := hlayout.behind hknown hbank hbankKnown
      have hstart := (hlayout.tail.laid bank hbank hbankKnown).ascending.le (Nat.zero_le k)
        (by omega)
      exact ⟨bank, hbank, hbankKnown, k, hk, hin, hout, by omega, hend⟩
  · intro h n hn hle
    cases Nat.lt_or_ge n info.top with
    | inl hlt =>
        rcases FlashInfo.Laid.exists_sector (show info.Covers n from ⟨by omega, hlt⟩) with
          ⟨k, hk, hin, hout⟩
        have hik := hlaid.ascending.index_le (show i <= info.sectorCount by omega)
          (show info.cut i < info.cut (k + 1) by omega)
        have hstart := hlaid.ascending.le hik (by omega)
        have htop := hlaid.cut_le_top (show k + 1 <= info.sectorCount from hk)
        exact ⟨info, List.mem_cons_self, hknown, k, hk, hin, hout, by omega, by omega⟩
    | inr hge =>
        rcases h n hge hle with ⟨bank, hbank, hbankKnown, k, hk, hin, hout, hstart, hend⟩
        exact ⟨bank, List.mem_cons_of_mem _ hbank, hbankKnown, k, hk, hin, hout, by omega, hend⟩

theorem runsOut_runsOn (hlayout : Layout (info :: banks)) (hknown : info.isKnown = true)
    {i : Nat} (hi' : i < info.sectorCount) (hfirst : info.cut i = lo) (hlast : info.top <= hi) :
    RunsOut (info :: banks) lo hi ↔ RunsOut banks info.top hi := by
  have hlaid := hlayout.head hknown
  have hzero := hlaid.ascending.le (Nat.zero_le i) (by omega)
  have hstep := hlaid.ascending i hi'
  have hbelow := hlaid.cut_le_top (show i + 1 <= info.sectorCount from hi')
  have hend : SectorEnd (info :: banks) hi ↔ SectorEnd banks hi := by
    apply sectorEnd_cons
    intro _ k hk hcut
    have htop := hlaid.cut_le_top (show k + 1 <= info.sectorCount from hk)
    omega
  have hleaves : LeavesFlash (info :: banks) lo hi ↔ LeavesFlash banks info.top hi := by
    constructor
    · rintro ⟨n, hn, hle, hnone⟩
      refine ⟨n, ?_, hle, fun bank hbank => hnone bank (List.mem_cons_of_mem _ hbank)⟩
      apply Nat.le_of_not_lt
      intro hlt
      exact hnone info List.mem_cons_self hknown ⟨by omega, hlt⟩
    · rintro ⟨n, hn, hle, hnone⟩
      refine ⟨n, by omega, hle, ?_⟩
      intro bank hbank hbankKnown hcovers
      rcases List.mem_cons.mp hbank with rfl | hbank
      · exact absurd hcovers.right (Nat.not_lt.mpr hn)
      · exact hnone bank hbank hbankKnown hcovers
  unfold RunsOut
  rw [hend, hleaves]

theorem wholeSectors_ends (hlayout : Layout (info :: banks)) (hknown : info.isKnown = true)
    {i j : Nat} (hj : j < info.sectorCount) (hij : i <= j) (hfirst : info.cut i = lo)
    (hlast : info.cut (j + 1) = hi + 1) : WholeSectors (info :: banks) lo hi := by
  have hlaid := hlayout.head hknown
  have hzero := hlaid.ascending.le (Nat.zero_le i) (by omega)
  have htop := hlaid.cut_le_top (show j + 1 <= info.sectorCount from hj)
  intro n hn hle
  rcases FlashInfo.Laid.exists_sector (show info.Covers n from ⟨by omega, by omega⟩) with
    ⟨k, hk, hin, hout⟩
  have hik := hlaid.ascending.index_le (show i <= info.sectorCount by omega)
    (show info.cut i < info.cut (k + 1) by omega)
  have hkj := hlaid.ascending.index_le (show k <= info.sectorCount by omega)
    (show info.cut k < info.cut (j + 1) by omega)
  have hstart := hlaid.ascending.le hik (by omega)
  have hend := hlaid.ascending.le (show k + 1 <= j + 1 by omega) (by omega)
  exact ⟨info, List.mem_cons_self, hknown, k, hk, hin, hout, by omega, by omega⟩

theorem endInside_rejected (hlayout : Layout (info :: banks)) (hknown : info.isKnown = true)
    (hle : lo <= hi) (hstart : info.cut 0 <= lo)
    (hlast : forall j, j < info.sectorCount -> info.cut (j + 1) ≠ hi + 1) (hin : hi < info.top) :
    ¬ WholeSectors (info :: banks) lo hi ∧ ¬ RunsOut (info :: banks) lo hi := by
  constructor
  · intro h
    rcases h hi hle (Nat.le_refl _) with ⟨bank, hbank, hbankKnown, k, hk, hcut, hout, _, hend⟩
    rcases List.mem_cons.mp hbank with rfl | hbank
    · exact hlast k hk (by omega)
    · have hbehind := hlayout.behind hknown hbank hbankKnown
      have hzero := (hlayout.tail.laid bank hbank hbankKnown).ascending.le (Nat.zero_le k)
        (by omega)
      omega
  · rintro ⟨⟨n, hn, hnle, hnone⟩, _⟩
    exact hnone info List.mem_cons_self hknown ⟨by omega, by omega⟩

end Front

/-!
# Over all banks
-/

theorem fill_missing (banks : List FlashInfo) (a last : BitVec 32)
    (h : forall info, info ∈ banks -> info.isKnown = false) :
    flashFillSectRanges banks a last = ⟨banks.map (fun _ => noSectors), 0, none⟩ := by
  induction banks with
  | nil =>
      rfl
  | cons info banks ih =>
      unfold flashFillSectRanges
      dsimp only
      split
      · rfl
      · rw [h info List.mem_cons_self, if_pos (by rfl),
          ih (fun bank hbank => h bank (List.mem_cons_of_mem _ hbank))]
        rfl

theorem fill_empty (banks : List FlashInfo) {a last : BitVec 32} (h : last.toNat < a.toNat) :
    flashFillSectRanges banks a last = ⟨banks.map (fun _ => noSectors), 0, none⟩ := by
  cases banks with
  | nil =>
      rfl
  | cons info banks =>
      unfold flashFillSectRanges
      dsimp only
      rw [if_pos (by rw [BitVec.lt_def]; exact h)]

theorem fill_behind {info : FlashInfo} {banks : List FlashInfo} {last : BitVec 32}
    (hlayout : Layout (info :: banks)) (hknown : info.isKnown = true) {j : Nat}
    (hj : j < info.sectorCount) (hlast : info.cut (j + 1) = last.toNat + 1) :
    flashFillSectRanges banks (last + 1#32) last =
      ⟨banks.map (fun _ => noSectors), 0, none⟩ := by
  have hlt := last.isLt
  have htop := (hlayout.head hknown).cut_le_top (show j + 1 <= info.sectorCount from hj)
  by_cases hmore : last.toNat + 1 < 2 ^ 32
  · apply fill_empty
    rw [BitVec.toNat_add]
    show last.toNat < (last.toNat + 1) % 2 ^ 32
    omega
  · -- the bank ends with the address space, and no bank lies behind it
    apply fill_missing
    intro bank hbank
    rw [← Bool.not_eq_true]
    intro hbankKnown
    have hbehind := hlayout.behind hknown hbank hbankKnown
    have hlaid := hlayout.tail.laid bank hbank hbankKnown
    have hspace := hlaid.space
    have hpos := hlaid.cut_zero_lt
    omega

theorem bankEnd_within {info : FlashInfo} {last : BitVec 32} (h : info.top <= last.toNat) :
    info.bankEnd.toNat = info.top := by
  have hlt := last.isLt
  rw [FlashInfo.Laid.bankEnd_toNat]
  omega

theorem cons_error (range : SectorRange) (count : Int) (plan : SectorPlan) :
    (plan.cons range count).error = plan.error :=
  rfl

theorem cons_count (range : SectorRange) (count : Int) (plan : SectorPlan) :
    (plan.cons range count).count = count + plan.count :=
  rfl

/-- A range that has been entered, and that starts with or in front of the banks. -/
theorem fill_continues (banks : List FlashInfo) (hlayout : Layout banks) {a last : BitVec 32}
    (hle : a.toNat <= last.toNat)
    (habove : forall info, info ∈ banks -> info.isKnown = true -> a.toNat <= info.cut 0) :
    (flashFillSectRanges banks a last).error = none ↔
      WholeSectors banks a.toNat last.toNat ∨ RunsOut banks a.toNat last.toNat := by
  induction banks generalizing a with
  | nil =>
      have hout : RunsOut [] a.toNat last.toNat :=
        ⟨⟨a.toNat, Nat.le_refl _, hle, fun info hinfo => absurd hinfo List.not_mem_nil⟩,
          fun ⟨info, hinfo, _⟩ => absurd hinfo List.not_mem_nil⟩
      exact ⟨fun _ => Or.inr hout, fun _ => rfl⟩
  | cons info banks ih =>
      have htail : forall bank, bank ∈ banks -> bank.isKnown = true -> a.toNat <= bank.cut 0 :=
        fun bank hbank => habove bank (List.mem_cons_of_mem _ hbank)
      have hhead := habove info List.mem_cons_self
      -- an address in front of a bank that comes next lies in no bank
      have hgap : info.isKnown = true -> a.toNat ≠ info.cut 0 ->
          forall bank, bank ∈ info :: banks -> bank.isKnown = true -> ¬ bank.Covers a.toNat := by
        intro hknown hne bank hbank hbankKnown hcovers
        have hlower := hcovers.left
        have hfront := hhead hknown
        rcases List.mem_cons.mp hbank with rfl | hbank
        · omega
        · have hbehind := hlayout.behind hknown hbank hbankKnown
          have hpos := (hlayout.head hknown).cut_zero_lt
          omega
      have hnotWhole : forall list : List FlashInfo, list ⊆ info :: banks ->
          info.isKnown = true -> a.toNat ≠ info.cut 0 ->
            ¬ WholeSectors list a.toNat last.toNat := by
        intro list hsub hknown hne hwhole
        rcases hwhole a.toNat (Nat.le_refl _) hle with
          ⟨bank, hbank, hbankKnown, k, hk, hin, hout, _⟩
        exact hgap hknown hne bank (hsub hbank) hbankKnown
          ((hlayout.laid bank (hsub hbank) hbankKnown).sector_covers hk ⟨hin, hout⟩)
      have hstep := fill_step banks hlayout.head hle
      generalize flashFillSectRanges (info :: banks) a last = plan at hstep
      cases hstep with
      | missing hmissing =>
          rw [cons_error, wholeSectors_missing hmissing, runsOut_missing hmissing]
          exact ih hlayout.tail hle htail
      | ends i j hknown hj hij hfirst hlast =>
          rw [cons_error, fill_behind hlayout hknown hj hlast]
          exact ⟨fun _ => Or.inl (wholeSectors_ends hlayout hknown hj hij hfirst hlast),
            fun _ => rfl⟩
      | runsOn i hknown hi hfirst hlast =>
          have hend := bankEnd_within hlast
          rw [cons_error, wholeSectors_runsOn hlayout hknown hi hfirst hlast,
            runsOut_runsOn hlayout hknown hi hfirst hlast, ← hend]
          apply ih hlayout.tail (by omega)
          intro bank hbank hbankKnown
          rw [hend]
          exact hlayout.behind hknown hbank hbankKnown
      | skipped hknown hfirst hlast hout =>
          have hne := (hfirst 0 (hlayout.head hknown).some).symm
          have hleaves : forall list : List FlashInfo, list ⊆ info :: banks ->
              LeavesFlash list a.toNat last.toNat := fun list hsub =>
            ⟨a.toNat, Nat.le_refl _, hle, fun bank hbank => hgap hknown hne bank (hsub hbank)⟩
          rw [cons_error, ih hlayout.tail hle htail]
          have hend := @sectorEnd_cons info banks last.toNat (fun _ => hlast)
          constructor
          · rintro (hwhole | hrunsOut)
            · exact absurd hwhole (hnotWhole banks (List.subset_cons_self _ _) hknown hne)
            · exact Or.inr ⟨hleaves _ (List.Subset.refl _), fun h => hrunsOut.right (hend.mp h)⟩
          · rintro (hwhole | hrunsOut)
            · exact absurd hwhole (hnotWhole _ (List.Subset.refl _) hknown hne)
            · exact Or.inr ⟨hleaves _ (List.subset_cons_self _ _),
                fun h => hrunsOut.right (hend.mpr h)⟩
      | endInside i plan hknown hi hfirst hlast hinside herror =>
          have hzero := (hlayout.head hknown).ascending.le (Nat.zero_le i) (by omega)
          rcases endInside_rejected hlayout hknown hle (by omega) hlast hinside with
            ⟨hwhole, hrunsOut⟩
          exact ⟨fun h => absurd h herror, fun h => absurd h (by simp [hwhole, hrunsOut])⟩
      | startInside plan hknown hfirst hin herror =>
          have hfront := hhead hknown
          exact absurd (Nat.le_antisymm hin.left hfront)
            (hfirst 0 (hlayout.head hknown).some)
      | reverse j plan hknown hfirst hj hlast herror =>
          have hne := (hfirst 0 (hlayout.head hknown).some).symm
          constructor
          · intro h
            exact absurd h herror
          · rintro (hwhole | hrunsOut)
            · exact absurd hwhole (hnotWhole _ (List.Subset.refl _) hknown hne)
            · exact absurd ⟨info, List.mem_cons_self, hknown, j, hj, hlast⟩ hrunsOut.right

theorem fill_count (banks : List FlashInfo) (hlayout : Layout banks) {a last : BitVec 32}
    (h : (flashFillSectRanges banks a last).error = none) :
    0 <= (flashFillSectRanges banks a last).count := by
  induction banks generalizing a with
  | nil =>
      exact Int.le_refl _
  | cons info banks ih =>
      cases Nat.lt_or_ge last.toNat a.toNat with
      | inl hlt =>
          rw [fill_empty _ hlt]
      | inr hle =>
          have hstep := fill_step banks hlayout.head hle
          generalize flashFillSectRanges (info :: banks) a last = plan at h hstep
          cases hstep with
          | missing hmissing =>
              have hrest := ih hlayout.tail h
              rw [cons_count]
              omega
          | ends i j hknown hj hij hfirst hlast =>
              have hrest := ih hlayout.tail h
              rw [cons_count]
              omega
          | runsOn i hknown hi hfirst hlast =>
              have hrest := ih hlayout.tail h
              rw [cons_count]
              omega
          | skipped hknown hfirst hlast hout =>
              have hrest := ih hlayout.tail h
              rw [cons_count]
              omega
          | endInside i plan hknown hi hfirst hlast hinside herror =>
              exact absurd h herror
          | startInside plan hknown hfirst hin herror =>
              exact absurd h herror
          | reverse j plan hknown hfirst hj hlast herror =>
              exact absurd h herror

def SectorPlan.Accepted (plan : SectorPlan) : Prop := plan.error = none ∧ plan.count ≠ 0

/-- A range that starts with a sector, leaves the flash, and does not end with a sector. -/
def StartsAndRunsOut (banks : List FlashInfo) (lo hi : Nat) : Prop :=
  SectorStart banks lo ∧ RunsOut banks lo hi

theorem WholeSectors.start {banks : List FlashInfo} {lo hi : Nat} (hle : lo <= hi)
    (h : WholeSectors banks lo hi) : SectorStart banks lo := by
  rcases h lo (Nat.le_refl _) hle with ⟨info, hinfo, hknown, i, hi', hcut, _, hstart, _⟩
  exact ⟨info, hinfo, hknown, i, hi', by omega⟩

section Skip

variable {info : FlashInfo} {banks : List FlashInfo} {lo hi : Nat}

/-- A bank that does not hold the start of a range which starts in another one lies below. -/
theorem top_le_of_start (hlayout : Layout (info :: banks)) (hknown : info.isKnown = true)
    (hstart : SectorStart banks lo) : info.top <= lo := by
  rcases hstart with ⟨bank, hbank, hbankKnown, k, hk, hcut⟩
  have hbehind := hlayout.behind hknown hbank hbankKnown
  have hzero := (hlayout.tail.laid bank hbank hbankKnown).ascending.le (Nat.zero_le k) (by omega)
  omega

theorem sectorStart_cons (h : info.isKnown = true ->
    forall i, i < info.sectorCount -> info.cut i ≠ lo) :
    SectorStart (info :: banks) lo ↔ SectorStart banks lo := by
  constructor
  · rintro ⟨bank, hbank, hknown, i, hi', hstart⟩
    rcases List.mem_cons.mp hbank with rfl | hbank
    · exact absurd hstart (h hknown i hi')
    · exact ⟨bank, hbank, hknown, i, hi', hstart⟩
  · rintro ⟨bank, hbank, hknown, hstart⟩
    exact ⟨bank, List.mem_cons_of_mem _ hbank, hknown, hstart⟩

theorem wholeSectors_below (hlaid : info.Laid) (htop : info.top <= lo) :
    WholeSectors (info :: banks) lo hi ↔ WholeSectors banks lo hi := by
  constructor
  · intro h n hn hle
    rcases h n hn hle with ⟨bank, hbank, hbankKnown, k, hk, hin, hout, hrest⟩
    rcases List.mem_cons.mp hbank with rfl | hbank
    · have hbelow := hlaid.cut_le_top (show k + 1 <= bank.sectorCount from hk)
      omega
    · exact ⟨bank, hbank, hbankKnown, k, hk, hin, hout, hrest⟩
  · intro h n hn hle
    rcases h n hn hle with ⟨bank, hbank, hrest⟩
    exact ⟨bank, List.mem_cons_of_mem _ hbank, hrest⟩

theorem runsOut_below (hlaid : info.Laid) (htop : info.top <= lo) (hle : lo <= hi) :
    RunsOut (info :: banks) lo hi ↔ RunsOut banks lo hi := by
  have hend : SectorEnd (info :: banks) hi ↔ SectorEnd banks hi := by
    apply sectorEnd_cons
    intro _ k hk hcut
    have hbelow := hlaid.cut_le_top (show k + 1 <= info.sectorCount from hk)
    omega
  have hleaves : LeavesFlash (info :: banks) lo hi ↔ LeavesFlash banks lo hi := by
    constructor
    · rintro ⟨n, hn, hnle, hnone⟩
      exact ⟨n, hn, hnle, fun bank hbank => hnone bank (List.mem_cons_of_mem _ hbank)⟩
    · rintro ⟨n, hn, hnle, hnone⟩
      refine ⟨n, hn, hnle, ?_⟩
      intro bank hbank hbankKnown hcovers
      rcases List.mem_cons.mp hbank with rfl | hbank
      · have hupper := hcovers.right
        omega
      · exact hnone bank hbank hbankKnown hcovers
  unfold RunsOut
  rw [hend, hleaves]

end Skip

theorem fill_accepted_iff (banks : List FlashInfo) (hlayout : Layout banks) {a last : BitVec 32}
    (hle : a.toNat <= last.toNat) :
    (flashFillSectRanges banks a last).Accepted ↔
      WholeSectors banks a.toNat last.toNat ∨ StartsAndRunsOut banks a.toNat last.toNat := by
  induction banks with
  | nil =>
      constructor
      · intro h
        exact absurd rfl h.right
      · rintro (hwhole | ⟨⟨info, hinfo, _⟩, _⟩)
        · rcases hwhole.start hle with ⟨info, hinfo, _⟩
          exact absurd hinfo List.not_mem_nil
        · exact absurd hinfo List.not_mem_nil
  | cons info banks ih =>
      have hstep := fill_step banks hlayout.head hle
      generalize flashFillSectRanges (info :: banks) a last = plan at hstep
      cases hstep with
      | missing hmissing =>
          have haccepted : ((flashFillSectRanges banks a last).cons noSectors 0).Accepted ↔
              (flashFillSectRanges banks a last).Accepted := by
            unfold SectorPlan.Accepted
            rw [cons_error, cons_count, Int.zero_add]
          unfold StartsAndRunsOut at ih ⊢
          rw [haccepted, wholeSectors_missing hmissing, sectorStart_missing hmissing,
            runsOut_missing hmissing]
          exact ih hlayout.tail
      | ends i j hknown hj hij hfirst hlast =>
          rw [fill_behind hlayout hknown hj hlast]
          constructor
          · intro _
            exact Or.inl (wholeSectors_ends hlayout hknown hj hij hfirst hlast)
          · intro _
            refine ⟨rfl, ?_⟩
            rw [cons_count]
            dsimp only
            omega
      | runsOn i hknown hi hfirst hlast =>
          have hend := bankEnd_within hlast
          have hstart : SectorStart (info :: banks) a.toNat :=
            ⟨info, List.mem_cons_self, hknown, i, hi, hfirst⟩
          have hbehind : forall bank, bank ∈ banks -> bank.isKnown = true ->
              info.bankEnd.toNat <= bank.cut 0 := by
            intro bank hbank hbankKnown
            rw [hend]
            exact hlayout.behind hknown hbank hbankKnown
          have hrest := fill_continues banks hlayout.tail (show info.bankEnd.toNat <= last.toNat
            by omega) hbehind
          rw [hend] at hrest
          unfold StartsAndRunsOut SectorPlan.Accepted
          rw [cons_error, cons_count, wholeSectors_runsOn hlayout hknown hi hfirst hlast,
            runsOut_runsOn hlayout hknown hi hfirst hlast, hrest]
          constructor
          · rintro ⟨hwhole | hrunsOut, _⟩
            · exact Or.inl hwhole
            · exact Or.inr ⟨hstart, hrunsOut⟩
          · intro h
            have hok : WholeSectors banks info.top last.toNat ∨
                RunsOut banks info.top last.toNat := h.imp_right And.right
            refine ⟨hok, ?_⟩
            have hcount := fill_count banks hlayout.tail (hrest.mpr hok)
            omega
      | skipped hknown hfirst hlast hout =>
          have hlaid := hlayout.head hknown
          have hstart := @sectorStart_cons info banks a.toNat (fun _ => hfirst)
          have haccepted : ((flashFillSectRanges banks a last).cons ⟨-1, -1⟩ 0).Accepted ↔
              (flashFillSectRanges banks a last).Accepted := by
            unfold SectorPlan.Accepted
            rw [cons_error, cons_count, Int.zero_add]
          rw [haccepted, ih hlayout.tail]
          -- the range starts in another bank, and this one lies below it
          constructor
          · rintro (hwhole | ⟨hbegin, hrunsOut⟩)
            · have htop := top_le_of_start hlayout hknown (hwhole.start hle)
              exact Or.inl ((wholeSectors_below hlaid htop).mpr hwhole)
            · have htop := top_le_of_start hlayout hknown hbegin
              exact Or.inr ⟨hstart.mpr hbegin, (runsOut_below hlaid htop hle).mpr hrunsOut⟩
          · rintro (hwhole | ⟨hbegin, hrunsOut⟩)
            · have htop := top_le_of_start hlayout hknown (hstart.mp (hwhole.start hle))
              exact Or.inl ((wholeSectors_below hlaid htop).mp hwhole)
            · have htop := top_le_of_start hlayout hknown (hstart.mp hbegin)
              exact Or.inr ⟨hstart.mp hbegin, (runsOut_below hlaid htop hle).mp hrunsOut⟩
      | endInside i plan hknown hi hfirst hlast hinside herror =>
          have hzero := (hlayout.head hknown).ascending.le (Nat.zero_le i) (by omega)
          rcases endInside_rejected hlayout hknown hle (by omega) hlast hinside with
            ⟨hwhole, hrunsOut⟩
          exact ⟨fun h => absurd h.left herror,
            fun h => h.elim (fun hw => absurd hw hwhole) (fun hr => absurd hr.right hrunsOut)⟩
      | startInside plan hknown hfirst hin herror =>
          have hnone : ¬ SectorStart (info :: banks) a.toNat := by
            rw [sectorStart_cons (fun _ => hfirst)]
            intro hstart
            have htop := top_le_of_start hlayout hknown hstart
            omega
          exact ⟨fun h => absurd h.left herror,
            fun h => h.elim (fun hw => absurd (hw.start hle) hnone)
              (fun hr => absurd hr.left hnone)⟩
      | reverse j plan hknown hfirst hj hlast herror =>
          refine ⟨fun h => absurd h.left herror, ?_⟩
          rintro (hwhole | ⟨_, hrunsOut⟩)
          · have hstart := (sectorStart_cons (fun _ => hfirst)).mp (hwhole.start hle)
            have htop := top_le_of_start hlayout hknown hstart
            have hbelow := (hlayout.head hknown).cut_le_top
              (show j + 1 <= info.sectorCount from hj)
            omega
          · exact absurd ⟨info, List.mem_cons_self, hknown, j, hj, hlast⟩ hrunsOut.right

end Flash
end Bab750
