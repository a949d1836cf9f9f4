import Bab750.Jffs2.ScanRuns

/-!
# The scan of a partition, sector by sector

A sector that begins with erased words is passed over. Of the others, and so of the partition, the
scan lists the nodes of the walk.
-/

namespace Bab750
namespace Jffs2

open Foundation

theorem leadingErased_spec (buf : View) {limit : Nat} (hlimit : limit % 4 = 0) (fuel : Nat) :
    forall ofs, ofs % 4 = 0 -> ofs ≤ limit -> limit ≤ ofs + 4 * fuel ->
      (forall w, w < ofs -> w % 4 = 0 -> buf.word w = erasedWord) ->
      let r := leadingErased buf limit fuel ofs
      r % 4 = 0 ∧ r ≤ limit ∧ (forall w, w < r -> w % 4 = 0 -> buf.word w = erasedWord) ∧
        (r < limit -> buf.word r ≠ erasedWord) := by
  induction fuel with
  | zero =>
      intro ofs hmod hle hfuel herased
      exact ⟨hmod, hle, herased, fun hlt => absurd hlt (by
        show ¬ ofs < limit
        omega)⟩
  | succ fuel ih =>
      intro ofs hmod hle hfuel herased
      unfold leadingErased
      dsimp only
      by_cases hword : ofs < limit ∧ buf.word ofs = erasedWord
      · rw [if_pos hword]
        refine ih (ofs + 4) (by omega) (by omega) (by omega) (fun w hw hwmod => ?_)
        by_cases hlast : w = ofs
        · rw [hlast]
          exact hword.2
        · exact herased w (by omega) hwmod
      · rw [if_neg hword]
        exact ⟨hmod, hle, herased, fun hlt herr => hword ⟨hlt, herr⟩⟩

/-- The scan takes the beginning of a sector for the one of an empty one. -/
def EmptySector (flash : Memory) (part : PartInfo) (i : Nat) : Prop :=
  ErasedWords flash part (i * part.sectorSize)
    (i * part.sectorSize + emptyScanSize part.sectorSize)

inductive SectorNodes (flash : Memory) (part : PartInfo) (i : Nat) : List Nat -> Prop
  | empty : EmptySector flash part i -> SectorNodes flash part i []
  | walk {found : List Nat} : ¬ EmptySector flash part i ->
      Nodes flash part ((i + 1) * part.sectorSize) (i * part.sectorSize) found ->
      SectorNodes flash part i found

inductive PartitionNodes (flash : Memory) (part : PartInfo) : Nat -> List Nat -> Prop
  | none : PartitionNodes flash part 0 []
  | sector {n : Nat} {before found : List Nat} : PartitionNodes flash part n before ->
      SectorNodes flash part n found -> PartitionNodes flash part (n + 1) (before ++ found)

section

variable {flash : Memory} {part : PartInfo}

theorem emptyScanSize_eq (h : part.sectorSize % 4 = 0) :
    emptyScanSize part.sectorSize % 4 = 0 ∧ emptyScanSize part.sectorSize ≤ part.sectorSize ∧
      emptyScanSize part.sectorSize ≤ bufSize ∧
      (emptyScanSize part.sectorSize < part.sectorSize ->
        emptyScanSize part.sectorSize = bufSize) := by
  have hsize : bufSize = 4096 := rfl
  unfold emptyScanSize
  split <;> omega

theorem leadingErased_words (buf : View) {ofs len : Nat} (hofs : ofs % 4 = 0)
    (hlen : len % 4 = 0) :
    let r := leadingErased (fillBuf flash part buf ofs len) len len 0
    r % 4 = 0 ∧ r ≤ len ∧ ErasedWords flash part ofs (ofs + r) ∧
      (r < len -> (nodeAt flash part (ofs + r)).word 0 ≠ erasedWord) := by
  have hagree : Agree len (fillBuf flash part buf ofs len) (nodeAt flash part ofs) :=
    fun _ hk => if_pos hk
  have hword : forall w, w < len -> w % 4 = 0 ->
      (fillBuf flash part buf ofs len).word w = (nodeAt flash part (ofs + w)).word 0 := by
    intro w hw hwmod
    rw [hagree.word (show w + 4 ≤ len by omega), ← nodeAt_add]
    unfold View.word View.drop
    simp only [Nat.add_zero]
  rcases leadingErased_spec (fillBuf flash part buf ofs len) hlen len 0 rfl (Nat.zero_le _)
    (by omega) (fun w hw => absurd hw (Nat.not_lt_zero w)) with ⟨hmod, hle, herased, hnext⟩
  refine ⟨hmod, hle, fun w hw hw' hwmod => ?_, fun hlt => ?_⟩
  · have hshift := hword (w - ofs) (by omega) (by omega)
    rw [herased (w - ofs) (by omega) (by omega), Nat.add_sub_cancel' hw] at hshift
    exact hshift.symm
  · rw [← hword _ hlt hmod]
    exact hnext hlt

theorem scanSector_nodes (hsize : part.sectorSize % 4 = 0) {i stop : Nat}
    (hstop : Stop flash part ((i + 1) * part.sectorSize) stop) {found : List Nat}
    (hnodes : SectorNodes flash part i found) (buf : View) (lists : Lists) :
    exists buf' least, forall fuel, least ≤ fuel ->
      scanSector flash part fuel buf lists i =
        some (buf', found.foldl (listNode flash part) lists) := by
  have hbuffer : bufSize = 4096 := rfl
  have hbehind := hstop.behind
  have hlow := hstop.low
  rcases emptyScanSize_eq hsize with ⟨hmod, hle, hsmall, hwhole⟩
  have hsplit : (i + 1) * part.sectorSize = i * part.sectorSize + part.sectorSize :=
    Nat.succ_mul i part.sectorSize
  have hstart : i * part.sectorSize % 4 = 0 := by
    rw [Nat.mul_mod, hsize, Nat.mul_zero, Nat.zero_mod]
  have hspec := @leadingErased_words flash part buf _ _ hstart hmod
  unfold scanSector
  rw [u32_of_lt (show i * part.sectorSize < 2 ^ 32 by omega)]
  dsimp only at hspec ⊢
  rw [u32_of_lt (show i * part.sectorSize + part.sectorSize < 2 ^ 32 by omega), ← hsplit]
  generalize leadingErased (fillBuf flash part buf (i * part.sectorSize)
    (emptyScanSize part.sectorSize)) (emptyScanSize part.sectorSize)
    (emptyScanSize part.sectorSize) 0 = r at hspec ⊢
  rcases hspec with ⟨hrmod, hrle, hwords, hnext⟩
  by_cases hall : r = emptyScanSize part.sectorSize
  · simp only [if_pos hall]
    rw [hall] at hwords
    cases hnodes with
    | empty _ => exact ⟨_, 0, fun _ _ => rfl⟩
    | walk hno _ => exact absurd hwords hno
  · simp only [if_neg hall]
    have hrlt : r < emptyScanSize part.sectorSize := by omega
    cases hnodes with
    | empty hempty =>
        exact absurd (hempty (i * part.sectorSize + r) (by omega) (by omega) (by omega))
          (hnext hrlt)
    | walk _ hwalk =>
        have hrest := hwalk.behindErased (r / 4) hstart (by
          rw [show 4 * (r / 4) = r by omega]
          exact hwords)
        rw [show 4 * (r / 4) = r by omega] at hrest
        have hprev : u32Sub (i * part.sectorSize + r) 1 ≠ i * part.sectorSize + r := by
          unfold u32Sub u32
          omega
        rw [show u32 (r + i * part.sectorSize) = i * part.sectorSize + r by
          rw [u32_of_lt (by omega), Nat.add_comm]]
        have hready : Ready flash part ((i + 1) * part.sectorSize)
            ⟨i * part.sectorSize + r, u32Sub (i * part.sectorSize + r) 1,
              i * part.sectorSize, emptyScanSize part.sectorSize,
              fillBuf flash part buf (i * part.sectorSize) (emptyScanSize part.sectorSize),
              lists⟩ :=
          ⟨⟨fun _ hk => if_pos hk, hmod, hsmall, hstart, Nat.le_add_right _ _, (by
              show (i * part.sectorSize + r) % 4 = 0
              omega), fun hlt => hwhole (by
                have hlt' : i * part.sectorSize + emptyScanSize part.sectorSize <
                  (i + 1) * part.sectorSize := hlt
                omega)⟩, hprev⟩
        rcases scanMore_nodes (by omega) hstop _ _ found hrest (fun _ => hready)
          (Nat.lt_succ_self _) with ⟨t, hlists, least, hrun⟩
        refine ⟨t.buf, least, fun fuel hfuel => ?_⟩
        rw [hrun fuel hfuel, Option.map_some, hlists]

/-- The scan of a partition lists the nodes of the walk, whatever the buffer holds before. -/
theorem buildLists_nodes (hsize : part.sectorSize % 4 = 0) {stop : Nat}
    (hstop : Stop flash part (part.size / part.sectorSize * part.sectorSize) stop)
    {found : List Nat}
    (hnodes : PartitionNodes flash part (part.size / part.sectorSize) found) (buf : View) :
    exists least, forall fuel, least ≤ fuel -> buildLists flash part fuel buf =
      some (found.foldl (listNode flash part) Lists.empty) := by
  have hsectors : forall n, n ≤ part.size / part.sectorSize -> forall found,
      PartitionNodes flash part n found ->
      exists buf' least, forall fuel, least ≤ fuel ->
        scanSectors flash part fuel n buf Lists.empty =
          some (buf', found.foldl (listNode flash part) Lists.empty) := by
    intro n
    induction n with
    | zero =>
        intro _ found hfound
        cases hfound
        exact ⟨buf, 0, fun _ _ => rfl⟩
    | succ n ih =>
        intro hn found hfound
        cases hfound with
        | @sector _ before after hbefore hafter =>
            rcases ih (by omega) before hbefore with ⟨buf', least, hrun⟩
            have hstop' : Stop flash part ((n + 1) * part.sectorSize) stop :=
              ⟨Nat.le_trans (Nat.mul_le_mul_right _ hn) hstop.behind, hstop.aligned, hstop.low,
                hstop.written⟩
            rcases scanSector_nodes hsize hstop' hafter buf'
              (before.foldl (listNode flash part) Lists.empty) with ⟨buf'', least', hrun'⟩
            refine ⟨buf'', max least least', fun fuel hfuel => ?_⟩
            unfold scanSectors
            rw [hrun fuel (by omega), Option.bind_some, hrun' fuel (by omega),
              List.foldl_append]
  rcases hsectors _ (Nat.le_refl _) found hnodes with ⟨buf', least, hrun⟩
  refine ⟨least, fun fuel hfuel => ?_⟩
  unfold buildLists
  rw [hrun fuel hfuel]
  rfl

end

end Jffs2
end Bab750
