import Bab750.Flash.Layout

/-!
# The sectors of a range of addresses

What `flash_fill_sect_ranges` of `common/cmd_flash.c` finds: one step for each bank, and over
all banks the ranges that it takes.
-/

namespace Bab750
namespace Flash

open Foundation

/-!
# One bank
-/

/-- The place of an address among some cuts, -1 for none. -/
def FoundAt (found : Int) (n : Nat) (p : Nat -> Prop) : Prop :=
  (found = -1 ∧ forall i, i < n -> ¬ p i) ∨ exists i, i < n ∧ found = i ∧ p i

theorem FoundAt.next {found : Int} {n : Nat} {p : Nat -> Prop} (h : FoundAt found n p)
    (hn : ¬ p n) : FoundAt found (n + 1) p := by
  rcases h with ⟨hfound, hnone⟩ | ⟨i, hi, hfound, hp⟩
  · refine Or.inl ⟨hfound, ?_⟩
    intro i hi
    cases Nat.lt_or_eq_of_le (Nat.le_of_lt_succ hi) with
    | inl hlt =>
        exact hnone i hlt
    | inr heq =>
        rw [heq]
        exact hn
  · exact Or.inr ⟨i, by omega, hfound, hp⟩

theorem FoundAt.here {n : Nat} {p : Nat -> Prop} (hn : p n) :
    FoundAt (n : Int) (n + 1) p :=
  Or.inr ⟨n, by omega, rfl, hn⟩

/-- The scan of a bank finds the sector that starts the range, and the one that ends it. -/
theorem scanSectors_found {info : FlashInfo} (hlaid : info.Laid) {a last : BitVec 32}
    (hle : a.toNat <= last.toNat) :
    FoundAt (scanSectors info a last).first info.sectorCount (fun i => info.cut i = a.toNat) ∧
      FoundAt (scanSectors info a last).last info.sectorCount
        (fun i => info.cut (i + 1) = last.toNat + 1) := by
  unfold scanSectors
  -- the sectors in front of one have been looked at
  have hfold : forall n, n <= info.sectorCount ->
      let range := (List.range n).foldl (fun (range : SectorRange) sect =>
        let last' := info.sectorLast sect
        if last' < a then range
        else if last < info.start sect then range
        else
          { first := if a = info.start sect then sect else range.first
            last := if last = last' then sect else range.last }) noSectors
      FoundAt range.first n (fun i => info.cut i = a.toNat) ∧
        FoundAt range.last n (fun i => info.cut (i + 1) = last.toNat + 1) := by
    intro n
    induction n with
    | zero =>
        intro _
        exact ⟨Or.inl ⟨rfl, fun i hi => absurd hi (Nat.not_lt_zero i)⟩,
          Or.inl ⟨rfl, fun i hi => absurd hi (Nat.not_lt_zero i)⟩⟩
    | succ n ih =>
        intro hn
        have hstep := hlaid.ascending n hn
        have hend := hlaid.sectorLast_toNat hn
        have hstart := @FlashInfo.Laid.start_toNat info n hn
        rcases ih (by omega) with ⟨hfirst, hlast⟩
        rw [List.range_succ, List.foldl_append]
        generalize (List.range n).foldl _ noSectors = range at hfirst hlast ⊢
        dsimp only [List.foldl_cons, List.foldl_nil]
        split
        case isTrue hbelow =>
            rw [BitVec.lt_def] at hbelow
            exact ⟨hfirst.next (by omega), hlast.next (by omega)⟩
        case isFalse hbelow =>
            split
            case isTrue habove =>
                rw [BitVec.lt_def] at habove
                exact ⟨hfirst.next (by omega), hlast.next (by omega)⟩
            case isFalse habove =>
                dsimp only
                constructor
                · split
                  case isTrue heq =>
                      exact FoundAt.here (by rw [← hstart, heq])
                  case isFalse hne =>
                      apply hfirst.next
                      intro hcut
                      exact hne (BitVec.eq_of_toNat_eq (by omega))
                · split
                  case isTrue heq =>
                      apply FoundAt.here
                      rw [heq, hend]
                      omega
                  case isFalse hne =>
                      apply hlast.next
                      intro hcut
                      exact hne (BitVec.eq_of_toNat_eq (by omega))
  exact hfold info.sectorCount (Nat.le_refl _)

inductive FillStep (info : FlashInfo) (banks : List FlashInfo) (a last : BitVec 32) :
    SectorPlan -> Prop where
  | missing (hmissing : info.isKnown = false) :
      FillStep info banks a last ((flashFillSectRanges banks a last).cons noSectors 0)
  | ends (i j : Nat) (hknown : info.isKnown = true) (hj : j < info.sectorCount) (hij : i <= j)
      (hfirst : info.cut i = a.toNat) (hlast : info.cut (j + 1) = last.toNat + 1) :
      FillStep info banks a last
        ((flashFillSectRanges banks (last + 1#32) last).cons ⟨i, j⟩ (j - i + 1))
  | runsOn (i : Nat) (hknown : info.isKnown = true) (hi : i < info.sectorCount)
      (hfirst : info.cut i = a.toNat) (hlast : info.top <= last.toNat) :
      FillStep info banks a last
        ((flashFillSectRanges banks info.bankEnd last).cons ⟨i, info.sectorCount - 1⟩
          (info.sectorCount - 1 - i + 1))
  | skipped (hknown : info.isKnown = true)
      (hfirst : forall i, i < info.sectorCount -> info.cut i ≠ a.toNat)
      (hlast : forall j, j < info.sectorCount -> info.cut (j + 1) ≠ last.toNat + 1)
      (hout : ¬ (info.cut 0 <= a.toNat ∧ a.toNat + 1 < info.top)) :
      FillStep info banks a last ((flashFillSectRanges banks a last).cons ⟨-1, -1⟩ 0)
  | endInside (i : Nat) (plan : SectorPlan) (hknown : info.isKnown = true)
      (hi : i < info.sectorCount) (hfirst : info.cut i = a.toNat)
      (hlast : forall j, j < info.sectorCount -> info.cut (j + 1) ≠ last.toNat + 1)
      (hinside : last.toNat < info.top) (herror : plan.error ≠ none) :
      FillStep info banks a last plan
  | startInside (plan : SectorPlan) (hknown : info.isKnown = true)
      (hfirst : forall i, i < info.sectorCount -> info.cut i ≠ a.toNat)
      (hin : info.cut 0 <= a.toNat ∧ a.toNat + 1 < info.top) (herror : plan.error ≠ none) :
      FillStep info banks a last plan
  | reverse (j : Nat) (plan : SectorPlan) (hknown : info.isKnown = true)
      (hfirst : forall i, i < info.sectorCount -> info.cut i ≠ a.toNat)
      (hj : j < info.sectorCount) (hlast : info.cut (j + 1) = last.toNat + 1)
      (herror : plan.error ≠ none) :
      FillStep info banks a last plan

theorem fill_step {info : FlashInfo} (banks : List FlashInfo) {a last : BitVec 32}
    (hlaid : info.isKnown = true -> info.Laid) (hle : a.toNat <= last.toNat) :
    FillStep info banks a last (flashFillSectRanges (info :: banks) a last) := by
  unfold flashFillSectRanges
  dsimp only
  rw [if_neg (by rw [BitVec.lt_def]; omega)]
  cases hknown : info.isKnown with
  | false =>
      rw [if_pos (by rfl)]
      exact FillStep.missing hknown
  | true =>
      have hlaid := hlaid hknown
      have hbank := hlaid.bankLast_toNat
      have hzero := @FlashInfo.Laid.start_toNat info 0 hlaid.some
      have hpos := hlaid.cut_zero_lt
      rw [if_neg (by decide)]
      rcases scanSectors_found hlaid hle with ⟨hfirst, hlast⟩
      generalize scanSectors info a last = range at hfirst hlast ⊢
      rcases range with ⟨first, final⟩
      dsimp only at hfirst hlast ⊢
      rcases hfirst with ⟨rfl, hnone⟩ | ⟨i, hi, rfl, hcut⟩
      · rw [if_neg (by decide)]
        split
        case isTrue hin =>
            rw [BitVec.le_def, BitVec.lt_def, hbank, hzero] at hin
            exact FillStep.startInside _ hknown hnone (by omega) (by simp)
        case isFalse hout =>
            rw [BitVec.le_def, BitVec.lt_def, hbank, hzero] at hout
            rcases hlast with ⟨rfl, hnever⟩ | ⟨j, hj, rfl, hend⟩
            · rw [if_neg (by decide)]
              exact FillStep.skipped hknown hnone hnever (by omega)
            · rw [if_pos (by omega)]
              exact FillStep.reverse j _ hknown hnone hj hend (by simp)
      · rw [if_pos (by omega)]
        rcases hlast with ⟨rfl, hnever⟩ | ⟨j, hj, rfl, hend⟩
        · by_cases hinside : last <= info.bankEnd - 1#32
          · rw [if_pos ⟨by decide, hinside⟩]
            rw [BitVec.le_def, hbank] at hinside
            exact FillStep.endInside i _ hknown hi hcut hnever (by omega) (by simp)
          · rw [if_neg (fun h => hinside h.right), if_pos (show (-1 : Int) < 0 by decide),
              if_neg (by omega), if_pos rfl, BitVec.sub_add_cancel]
            rw [BitVec.le_def, hbank] at hinside
            exact FillStep.runsOn i hknown hi hcut (by omega)
        · have hij : i <= j := by
            apply Nat.le_of_not_lt
            intro hlt
            have hbelow := hlaid.ascending.le (show j + 1 <= i from hlt) (by omega)
            omega
          have hnext : (if (j : Int) = info.sectorCount - 1 then info.bankEnd - 1#32 + 1#32
              else info.start ((j : Int).toNat + 1)) = last + 1#32 := by
            split
            case isTrue hlastSector =>
                have hend' := hend
                rw [show j + 1 = info.sectorCount by omega, FlashInfo.Laid.cut_count] at hend'
                apply congrArg (fun x => x + 1#32)
                apply BitVec.eq_of_toNat_eq
                omega
            case isFalse hother =>
                rw [Int.toNat_natCast]
                apply BitVec.eq_of_toNat_eq
                have hstart := @FlashInfo.Laid.start_toNat info (j + 1) (by omega)
                have hlt := (info.start (j + 1)).isLt
                rw [BitVec.toNat_add]
                show _ = (last.toNat + 1) % 2 ^ 32
                omega
          rw [if_neg (by omega), if_neg (by omega), if_neg (by omega), hnext]
          exact FillStep.ends i j hknown hj hij hcut hend

end Flash
end Bab750
