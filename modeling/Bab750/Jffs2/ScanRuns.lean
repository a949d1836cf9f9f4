import Bab750.Jffs2.Scan

/-!
# The scan finds the nodes

The scan through the buffer lists what a walk over the words of the flash finds, whatever the
buffer is filled with and wherever it ends.
-/

namespace Bab750
namespace Jffs2

open Foundation

def nodeAt (flash : Memory) (part : PartInfo) (ofs : Nat) : View :=
  flashAt flash (part.offset + BitVec.ofNat 32 ofs)

structure Header (node : View) (ofs sectorEnd : Nat) : Prop where
  magic : node.magic = magicBitmask
  crc : hdrCrc node = true
  fits : ofs + node.totlen ≤ sectorEnd

/-- A node that is as long as what is read of it. -/
structure Regular (node : View) : Prop where
  header : unknownNodeSize ≤ node.totlen
  inode : node.nodetype = nodetypeInode -> rawInodeSize ≤ node.totlen
  dirent : node.nodetype = nodetypeDirent -> rawDirentSize + node.nsize ≤ node.totlen

/-- The length in a header does not lead over the end of the address space. -/
def NoWrap (node : View) (ofs : Nat) : Prop :=
  node.magic = magicBitmask -> hdrCrc node = true -> ofs + node.totlen < 2 ^ 32

/-- A walk over the words of a sector, from an offset on, and the nodes it meets. -/
inductive Nodes (flash : Memory) (part : PartInfo) (sectorEnd : Nat) : Nat -> List Nat -> Prop
  | stop {ofs : Nat} : sectorEnd < ofs + unknownNodeSize -> Nodes flash part sectorEnd ofs []
  | skip {ofs : Nat} {found : List Nat} : ofs + unknownNodeSize ≤ sectorEnd ->
      ¬ Header (nodeAt flash part ofs) ofs sectorEnd -> NoWrap (nodeAt flash part ofs) ofs ->
      Nodes flash part sectorEnd (ofs + 4) found -> Nodes flash part sectorEnd ofs found
  | node {ofs : Nat} {found : List Nat} : ofs + unknownNodeSize ≤ sectorEnd ->
      Header (nodeAt flash part ofs) ofs sectorEnd -> Regular (nodeAt flash part ofs) ->
      Nodes flash part sectorEnd (ofs + nodeLength (nodeAt flash part ofs).totlen) found ->
      Nodes flash part sectorEnd ofs (ofs :: found)

def listNode (flash : Memory) (part : PartInfo) (lists : Lists) (ofs : Nat) : Lists :=
  let node := nodeAt flash part ofs
  if node.nodetype = nodetypeInode then
    if inodeCrc node then
      lists.insertFrag (part.offset + BitVec.ofNat 32 ofs) node.totlen
    else lists
  else if node.nodetype = nodetypeDirent then
    if direntCrc node && direntNameCrc node then
      lists.insertDir (part.offset + BitVec.ofNat 32 ofs) node.totlen
    else lists
  else lists

/-- A word of flash, somewhere behind the sector, that is not erased. -/
structure Stop (flash : Memory) (part : PartInfo) (sectorEnd stop : Nat) : Prop where
  behind : sectorEnd ≤ stop
  aligned : stop % 4 = 0
  low : stop + 2 * bufSize ≤ 2 ^ 32
  written : (nodeAt flash part stop).word 0 ≠ erasedWord

/-!
# Numbers
-/

theorem u32_of_lt {n : Nat} (h : n < 2 ^ 32) : u32 n = n := Nat.mod_eq_of_lt h

theorem u32Sub_of_le {m n : Nat} (hle : n ≤ m) (hlt : m < 2 ^ 32) : u32Sub m n = m - n := by
  unfold u32Sub u32
  omega

theorem u32Sub_of_lt {m n : Nat} (hlt : m < n) (h : n < 2 ^ 32) :
    u32Sub m n = 2 ^ 32 - (n - m) := by
  unfold u32Sub u32
  omega

theorem nodeLength_eq {totlen : Nat} (h : totlen + 3 < 2 ^ 32) :
    totlen ≤ nodeLength totlen ∧ nodeLength totlen < totlen + 4 ∧ nodeLength totlen % 4 = 0 := by
  unfold nodeLength
  rw [u32_of_lt h]
  omega

theorem nodeAt_add (flash : Memory) (part : PartInfo) (ofs i : Nat) :
    (nodeAt flash part ofs).drop i = nodeAt flash part (ofs + i) := by
  funext k
  unfold View.drop nodeAt flashAt
  rw [BitVec.add_assoc, BitVec.add_assoc, ← BitVec.ofNat_add, ← BitVec.ofNat_add, Nat.add_assoc]

/-!
# The buffer
-/

structure Buffered (flash : Memory) (part : PartInfo) (sectorEnd : Nat) (s : Scan) : Prop where
  holds : Agree s.bufLen s.buf (nodeAt flash part s.bufOfs)
  lenAligned : s.bufLen % 4 = 0
  lenSmall : s.bufLen ≤ bufSize
  ofsAligned : s.bufOfs % 4 = 0
  before : s.bufOfs ≤ s.ofs
  aligned : s.ofs % 4 = 0
  whole : s.bufOfs + s.bufLen < sectorEnd -> s.bufLen = bufSize

section

variable {flash : Memory} {part : PartInfo} {sectorEnd : Nat} {s : Scan}

theorem Buffered.inbufOfs (h : Buffered flash part sectorEnd s) (hlow : s.ofs < 2 ^ 32) :
    s.inbufOfs = s.ofs - s.bufOfs :=
  u32Sub_of_le h.before hlow

/-- As much of the node as is in the buffer is the node on the flash. -/
theorem Buffered.agree (h : Buffered flash part sectorEnd s) (hlow : s.ofs < 2 ^ 32) {k : Nat}
    (hk : s.ofs + k ≤ s.bufOfs + s.bufLen) : Agree k s.node (nodeAt flash part s.ofs) := by
  intro i hi
  have hbefore := h.before
  have hin := h.inbufOfs hlow
  have hview := congrFun (nodeAt_add flash part s.bufOfs (s.ofs - s.bufOfs)) i
  rw [Nat.add_sub_cancel' hbefore] at hview
  unfold Scan.node View.drop
  rw [hin, h.holds _ (by omega), ← hview]
  rfl

theorem buffered_fetch (haligned : s.ofs % 4 = 0) {len : Nat} (hlen : len % 4 = 0)
    (hsmall : len ≤ bufSize) (hwhole : s.ofs + len < sectorEnd -> len = bufSize) :
    Buffered flash part sectorEnd (s.fetch flash part len) where
  holds := fun _ hi => if_pos hi
  lenAligned := hlen
  lenSmall := hsmall
  ofsAligned := haligned
  before := Nat.le_refl _
  aligned := haligned
  whole := hwhole

/-- The buffer behind the `get_fl_mem` that takes what is left of the sector. -/
theorem buffered_refill (haligned : s.ofs % 4 = 0) (hsector : sectorEnd % 4 = 0)
    (hend : sectorEnd < 2 ^ 32) (hlow : s.ofs + bufSize ≤ 2 ^ 32) :
    Buffered flash part sectorEnd
      (s.fetch flash part (min bufSize (u32Sub sectorEnd s.ofs))) := by
  by_cases hle : s.ofs ≤ sectorEnd
  · have hsub := u32Sub_of_le hle hend
    apply buffered_fetch haligned
    · rw [hsub]
      unfold bufSize
      omega
    · exact Nat.min_le_left _ _
    · rw [hsub]
      omega
  · have hsub := u32Sub_of_lt (Nat.lt_of_not_le hle) (by unfold bufSize at hlow; omega)
    have hmin : min bufSize (u32Sub sectorEnd s.ofs) = bufSize := by
      rw [hsub]
      unfold bufSize at *
      omega
    rw [hmin]
    exact buffered_fetch haligned rfl (Nat.le_refl _) (fun _ => rfl)

theorem Buffered.moved (h : Buffered flash part sectorEnd s) {ofs : Nat} (hle : s.ofs ≤ ofs)
    (haligned : ofs % 4 = 0) (prevofs : Nat) :
    Buffered flash part sectorEnd { s with ofs := ofs, prevofs := prevofs } where
  holds := h.holds
  lenAligned := h.lenAligned
  lenSmall := h.lenSmall
  ofsAligned := h.ofsAligned
  before := Nat.le_trans h.before hle
  aligned := haligned
  whole := h.whole

theorem Buffered.listed (h : Buffered flash part sectorEnd s) (lists : Lists) :
    Buffered flash part sectorEnd { s with lists := lists } where
  holds := h.holds
  lenAligned := h.lenAligned
  lenSmall := h.lenSmall
  ofsAligned := h.ofsAligned
  before := h.before
  aligned := h.aligned
  whole := h.whole

/-!
# Erased words
-/

def ErasedWords (flash : Memory) (part : PartInfo) (ofs ofs' : Nat) : Prop :=
  forall w, ofs ≤ w -> w < ofs' -> w % 4 = 0 -> (nodeAt flash part w).word 0 = erasedWord

theorem erasedWords_cons {ofs ofs' : Nat} (hword : (nodeAt flash part ofs).word 0 = erasedWord)
    (haligned : ofs % 4 = 0) (h : ErasedWords flash part (ofs + 4) ofs') :
    ErasedWords flash part ofs ofs' := by
  intro w hw hw' hmod
  by_cases hfirst : w = ofs
  · rw [hfirst]
    exact hword
  · exact h w (by omega) hw' hmod

/-- Where `more_empty` leaves the scan. -/
structure Passed (flash : Memory) (part : PartInfo) (sectorEnd : Nat) (s : Scan)
    (r : Bool × Scan) : Prop where
  lists : r.2.lists = s.lists
  prevofs : r.2.prevofs = s.prevofs
  later : s.ofs ≤ r.2.ofs
  aligned : r.2.ofs % 4 = 0
  buffered : r.1 = true -> Buffered flash part sectorEnd r.2
  erased : ErasedWords flash part s.ofs r.2.ofs
  end_of_sector : r.1 = false -> r.2.ofs = sectorEnd

theorem Passed.skip {r : Bool × Scan}
    (h : Passed flash part sectorEnd { s with ofs := s.ofs + 4 } r)
    (hword : (nodeAt flash part s.ofs).word 0 = erasedWord) (haligned : s.ofs % 4 = 0) :
    Passed flash part sectorEnd s r where
  lists := h.lists
  prevofs := h.prevofs
  later := Nat.le_trans (Nat.le_add_right _ 4) h.later
  aligned := h.aligned
  buffered := h.buffered
  erased := erasedWords_cons hword haligned h.erased
  end_of_sector := h.end_of_sector

theorem Buffered.word (h : Buffered flash part sectorEnd s) (hlow : s.ofs < 2 ^ 32)
    (hk : s.ofs + 4 ≤ s.bufOfs + s.bufLen) : s.node.word 0 = (nodeAt flash part s.ofs).word 0 :=
  (h.agree hlow hk).word (Nat.le_refl 4)

/-- What a round of `more_empty` does, by the fuel that is left. -/
inductive EmptyRound (flash : Memory) (part : PartInfo) (sectorEnd scanEnd : Nat) (s : Scan) :
    (Nat -> Option (Bool × Scan)) -> Prop
  | written : (nodeAt flash part s.ofs).word 0 ≠ erasedWord ->
      EmptyRound flash part sectorEnd scanEnd s (fun _ => some (true, s))
  | erased : s.inbufOfs < scanEnd -> (nodeAt flash part s.ofs).word 0 = erasedWord ->
      EmptyRound flash part sectorEnd scanEnd s
        (fun fuel => moreEmpty flash part sectorEnd fuel scanEnd { s with ofs := s.ofs + 4 })
  | ended : s.ofs = sectorEnd ->
      EmptyRound flash part sectorEnd scanEnd s (fun _ => some (false, { s with bufLen := 0 }))
  | fetched {bufLen : Nat} : ¬ s.inbufOfs < scanEnd -> 0 < bufLen ->
      Buffered flash part sectorEnd (s.fetch flash part bufLen) ->
      EmptyRound flash part sectorEnd scanEnd s
        (fun fuel => moreEmpty flash part sectorEnd fuel bufLen (s.fetch flash part bufLen))

theorem moreEmpty_round (hbuf : Buffered flash part sectorEnd s) (hsector : sectorEnd % 4 = 0)
    (hend : sectorEnd < 2 ^ 32) (hlow : s.ofs + bufSize ≤ 2 ^ 32) {scanEnd : Nat}
    (hscan : scanEnd ≤ s.bufLen) : EmptyRound flash part sectorEnd scanEnd s
      (fun fuel => moreEmpty flash part sectorEnd (fuel + 1) scanEnd s) := by
  have hsize : bufSize = 4096 := rfl
  have hofs : s.ofs < 2 ^ 32 := by omega
  by_cases hinside : s.inbufOfs < scanEnd
  · have hroom : s.ofs + 4 ≤ s.bufOfs + s.bufLen := by
      have hin := hbuf.inbufOfs hofs
      have h1 := hbuf.aligned
      have h2 := hbuf.ofsAligned
      have h3 := hbuf.lenAligned
      have hbefore := hbuf.before
      omega
    have hword := hbuf.word hofs hroom
    by_cases herased : s.node.word 0 = erasedWord
    · have hnext : u32 (s.ofs + 4) = s.ofs + 4 := u32_of_lt (by omega)
      simp only [moreEmpty, if_pos hinside, if_neg (not_not_intro herased), hnext]
      exact .erased hinside (hword ▸ herased)
    · simp only [moreEmpty, if_pos hinside, if_pos herased]
      exact .written (hword ▸ herased)
  · by_cases hzero : min bufSize (u32Sub sectorEnd s.ofs) = 0
    · have hend : s.ofs = sectorEnd := by
        by_cases hcase : s.ofs ≤ sectorEnd
        · rw [u32Sub_of_le hcase (by omega)] at hzero
          omega
        · rw [u32Sub_of_lt (Nat.lt_of_not_le hcase) hofs] at hzero
          omega
      simp only [moreEmpty, if_neg hinside, if_pos hzero]
      rw [hzero]
      exact .ended hend
    · simp only [moreEmpty, if_neg hinside, if_neg hzero]
      exact .fetched hinside (Nat.pos_of_ne_zero hzero)
        (buffered_refill hbuf.aligned hsector hend hlow)

/-- A run of `more_empty` ends at a word that is not erased, or at the end of the sector. -/
theorem moreEmpty_passed (hsector : sectorEnd % 4 = 0) {stop : Nat}
    (hstop : Stop flash part sectorEnd stop) (budget : Nat) :
    forall (scanEnd : Nat) (s : Scan), Buffered flash part sectorEnd s ->
      scanEnd ≤ s.bufLen -> s.ofs ≤ stop ->
      2 * (stop - s.ofs) + (if s.inbufOfs < scanEnd then 0 else 1) < budget ->
      exists r, Passed flash part sectorEnd s r ∧ r.2.ofs ≤ stop ∧
        forall fuel, budget ≤ fuel -> moreEmpty flash part sectorEnd fuel scanEnd s = some r := by
  have hbehind := hstop.behind
  have hhigh := hstop.low
  have hsize : bufSize = 4096 := rfl
  have hmod := hstop.aligned
  have hnothing : forall ofs, ErasedWords flash part ofs ofs :=
    fun ofs w hw hw' => absurd hw (Nat.not_le_of_lt hw')
  induction budget with
  | zero => exact fun _ _ _ _ _ h => absurd h (Nat.not_lt_zero _)
  | succ budget ih =>
      intro scanEnd s hbuf hscan hle hbudget
      have haligned := hbuf.aligned
      have hround := moreEmpty_round hbuf hsector (by omega) (by omega) hscan
      -- The last round needs no fuel, the others leave one less.
      generalize hrun : (fun fuel => moreEmpty flash part sectorEnd (fuel + 1) scanEnd s) = run
        at hround
      have hfuel : forall r, (forall fuel, budget ≤ fuel -> run fuel = some r) ->
          forall fuel, budget + 1 ≤ fuel ->
            moreEmpty flash part sectorEnd fuel scanEnd s = some r := by
        intro r hrest fuel hfuel
        rcases Nat.exists_eq_add_of_le' hfuel with ⟨extra, rfl⟩
        exact (congrFun hrun (extra + budget)).trans (hrest _ (Nat.le_add_left _ _))
      cases hround with
      | written _ =>
          exact ⟨(true, s), ⟨rfl, rfl, Nat.le_refl _, haligned, fun _ => hbuf, hnothing _, nofun⟩,
            hle, hfuel _ (fun _ _ => rfl)⟩
      | erased hinside hword =>
          have hne : s.ofs ≠ stop := fun heq => hstop.written (heq ▸ hword)
          have hmoved : Buffered flash part sectorEnd { s with ofs := s.ofs + 4 } :=
            hbuf.moved (Nat.le_add_right _ 4) (by omega) s.prevofs
          rw [if_pos hinside] at hbudget
          rcases ih scanEnd { s with ofs := s.ofs + 4 } hmoved hscan
            (show s.ofs + 4 ≤ stop by omega) (by
              show 2 * (stop - (s.ofs + 4)) + _ < budget
              split <;> omega) with ⟨r, hpassed, hrle, hrest⟩
          exact ⟨r, hpassed.skip hword haligned, hrle, hfuel r hrest⟩
      | ended hend =>
          exact ⟨(false, { s with bufLen := 0 }), ⟨rfl, rfl, Nat.le_refl _, haligned, nofun,
            hnothing _, fun _ => hend⟩, hle, hfuel _ (fun _ _ => rfl)⟩
      | @fetched bufLen hinside hpos hfetched =>
          have hstart : (s.fetch flash part bufLen).inbufOfs = 0 := by
            rw [hfetched.inbufOfs (show s.ofs < 2 ^ 32 by omega)]
            exact Nat.sub_self _
          rw [if_neg hinside] at hbudget
          rcases ih bufLen _ hfetched (Nat.le_refl _) hle (by
            rw [hstart, if_pos hpos]
            show 2 * (stop - s.ofs) + 0 < budget
            omega) with ⟨r, hpassed, hrle, hrest⟩
          exact ⟨r, ⟨hpassed.lists, hpassed.prevofs, hpassed.later, hpassed.aligned,
            hpassed.buffered, hpassed.erased, hpassed.end_of_sector⟩, hrle, hfuel r hrest⟩

/-!
# One node
-/

structure Switched (flash : Memory) (part : PartInfo) (sectorEnd : Nat) (s t : Scan) : Prop where
  ofs : t.ofs = s.ofs
  prevofs : t.prevofs = s.prevofs
  buffered : Buffered flash part sectorEnd t
  totlen : t.node.totlen = (nodeAt flash part s.ofs).totlen
  lists : t.lists = listNode flash part s.lists s.ofs

/-- The buffer that the switch looks at reaches behind the part that is checked. -/
theorem switch_fetch {m n : Nat} (hbuf : Buffered flash part sectorEnd s)
    (hlow : s.ofs + 2 * bufSize ≤ 2 ^ 32) (hm : m ≤ bufSize) (hn : n ≤ bufSize)
    (hfits : s.ofs + n ≤ sectorEnd)
    (hiff : s.bufOfs + s.bufLen < s.ofs + m <-> s.bufOfs + s.bufLen < s.ofs + n) :
    let t := if u32 (s.bufOfs + s.bufLen) < u32 (s.ofs + m) then s.fetch flash part s.bufLen
      else s
    Buffered flash part sectorEnd t ∧ t.ofs = s.ofs ∧ t.prevofs = s.prevofs ∧
      t.lists = s.lists ∧ t.ofs < 2 ^ 32 ∧ t.ofs + n ≤ t.bufOfs + t.bufLen := by
  have hbefore := hbuf.before
  have hsmall := hbuf.lenSmall
  have hsize : bufSize = 4096 := rfl
  dsimp only
  rw [u32_of_lt (show s.bufOfs + s.bufLen < 2 ^ 32 by omega),
    u32_of_lt (show s.ofs + m < 2 ^ 32 by omega)]
  split
  case isTrue hshort =>
      have hwhole : s.bufLen = bufSize := hbuf.whole (by omega)
      refine ⟨buffered_fetch hbuf.aligned hbuf.lenAligned hsmall (fun _ => hwhole), rfl, rfl,
        rfl, (show s.ofs < 2 ^ 32 by omega), ?_⟩
      show s.ofs + n ≤ s.ofs + s.bufLen
      omega
  case isFalse hlong => exact ⟨hbuf, rfl, rfl, rfl, by omega, by omega⟩

theorem scanInode_switched (hbuf : Buffered flash part sectorEnd s)
    (hlow : s.ofs + 2 * bufSize ≤ 2 ^ 32)
    (hfits : s.ofs + (nodeAt flash part s.ofs).totlen ≤ sectorEnd)
    (hlong : rawInodeSize ≤ (nodeAt flash part s.ofs).totlen)
    (htype : (nodeAt flash part s.ofs).nodetype = nodetypeInode) :
    Switched flash part sectorEnd s (scanInode flash part s) := by
  have hsize : rawInodeSize = 68 := rfl
  have hfetch := switch_fetch hbuf hlow (show rawInodeSize ≤ bufSize by decide)
    (show rawInodeSize ≤ bufSize by decide) (by omega) Iff.rfl
  unfold scanInode
  dsimp only at hfetch ⊢
  generalize (if u32 (s.bufOfs + s.bufLen) < u32 (s.ofs + rawInodeSize) then
    s.fetch flash part s.bufLen else s) = t at hfetch ⊢
  rcases hfetch with ⟨hbuf', hofs, hprev, hlists, hlow', hroom⟩
  have hagree := hbuf'.agree hlow' hroom
  have htotlen := hagree.totlen (by decide)
  have hcrc := hagree.inodeCrc (Nat.le_refl _)
  rw [hofs] at htotlen hcrc
  have hlist : listNode flash part s.lists s.ofs =
      if inodeCrc (nodeAt flash part s.ofs) then
        s.lists.insertFrag (part.offset + BitVec.ofNat 32 s.ofs)
          (nodeAt flash part s.ofs).totlen
      else s.lists := if_pos htype
  rw [hcrc]
  split
  case isTrue hgood =>
      refine ⟨hofs, hprev, hbuf'.listed _, htotlen, ?_⟩
      rw [hlist, if_pos hgood, htotlen, hlists, hofs]
  case isFalse hbad =>
      refine ⟨hofs, hprev, hbuf', htotlen, ?_⟩
      rw [hlist, if_neg hbad, hlists]

theorem scanDirent_switched (hbuf : Buffered flash part sectorEnd s)
    (hlow : s.ofs + 2 * bufSize ≤ 2 ^ 32)
    (hfits : s.ofs + (nodeAt flash part s.ofs).totlen ≤ sectorEnd)
    (hlong : rawDirentSize + (nodeAt flash part s.ofs).nsize ≤
      (nodeAt flash part s.ofs).totlen)
    (hinode : (nodeAt flash part s.ofs).nodetype ≠ nodetypeInode)
    (htype : (nodeAt flash part s.ofs).nodetype = nodetypeDirent) :
    Switched flash part sectorEnd s (scanDirent flash part s) := by
  have hsize : rawDirentSize = 40 := rfl
  have hbuffer : bufSize = 4096 := rfl
  have hname : forall node : View, node.nsize < 256 := fun node => (node 28).isLt
  have hname1 := hname s.node
  have hname2 := hname (nodeAt flash part s.ofs)
  -- The length of the name is right when it is in the buffer, and not needed when it is not.
  have hiff : s.bufOfs + s.bufLen < s.ofs + (rawDirentSize + s.node.nsize) <->
      s.bufOfs + s.bufLen < s.ofs + (rawDirentSize + (nodeAt flash part s.ofs).nsize) := by
    by_cases hin : s.ofs + 29 ≤ s.bufOfs + s.bufLen
    · rw [(hbuf.agree (by omega) hin).nsize (Nat.le_refl _)]
    · omega
  have hfetch := switch_fetch hbuf hlow (by omega) (by omega) (by omega) hiff
  unfold scanDirent
  dsimp only at hfetch ⊢
  rw [← Nat.add_assoc] at hfetch
  generalize (if u32 (s.bufOfs + s.bufLen) < u32 (s.ofs + rawDirentSize + s.node.nsize) then
    s.fetch flash part s.bufLen else s) = t at hfetch ⊢
  rcases hfetch with ⟨hbuf', hofs, hprev, hlists, hlow', hreach⟩
  have hagree := hbuf'.agree hlow' hreach
  rw [hofs] at hagree
  have htotlen := hagree.totlen (by omega)
  have hcrc := hagree.direntCrc (Nat.le_add_right _ _)
  have hnameCrc := (hagree.symm.direntNameCrc (Nat.le_refl _)).symm
  have hlist : listNode flash part s.lists s.ofs =
      if direntCrc (nodeAt flash part s.ofs) && direntNameCrc (nodeAt flash part s.ofs) then
        s.lists.insertDir (part.offset + BitVec.ofNat 32 s.ofs)
          (nodeAt flash part s.ofs).totlen
      else s.lists := (if_neg hinode).trans (if_pos htype)
  rw [hcrc, hnameCrc]
  split
  case isTrue hgood =>
      refine ⟨hofs, hprev, hbuf'.listed _, htotlen, ?_⟩
      rw [hlist, if_pos hgood, htotlen, hlists, hofs]
  case isFalse hbad =>
      refine ⟨hofs, hprev, hbuf', htotlen, ?_⟩
      rw [hlist, if_neg hbad, hlists]

theorem scanSwitch_switched (hbuf : Buffered flash part sectorEnd s)
    (hlow : s.ofs + 2 * bufSize ≤ 2 ^ 32)
    (hroom : s.ofs + unknownNodeSize ≤ s.bufOfs + s.bufLen)
    (hheader : Header (nodeAt flash part s.ofs) s.ofs sectorEnd)
    (hregular : Regular (nodeAt flash part s.ofs)) :
    Switched flash part sectorEnd s (scanSwitch flash part s) := by
  have hlow' : s.ofs < 2 ^ 32 := by
    unfold bufSize at hlow
    omega
  have hagree := hbuf.agree hlow' hroom
  have htype := hagree.nodetype (by decide)
  unfold scanSwitch
  rw [htype]
  by_cases hinode : (nodeAt flash part s.ofs).nodetype = nodetypeInode
  · rw [if_pos hinode]
    exact scanInode_switched hbuf hlow hheader.fits (hregular.inode hinode) hinode
  · rw [if_neg hinode]
    by_cases hdirent : (nodeAt flash part s.ofs).nodetype = nodetypeDirent
    · rw [if_pos hdirent]
      exact scanDirent_switched hbuf hlow hheader.fits (hregular.dirent hdirent) hinode hdirent
    · rw [if_neg hdirent]
      refine ⟨rfl, rfl, hbuf, hagree.totlen (by decide), ?_⟩
      exact ((if_neg hinode).trans (if_neg hdirent)).symm

/-!
# The walk
-/

theorem erased_magic {node : View} (h : node.word 0 = erasedWord) :
    node.magic ≠ magicBitmask := by
  intro hmagic
  have hhalf : node.magic = (node.word 0).extractLsb' 16 16 := by
    unfold View.magic View.half View.word
    apply BitVec.eq_of_getLsbD_eq
    intro i hi
    simp
    grind
  rw [h, hmagic] at hhalf
  exact absurd hhalf (by decide)

theorem Nodes.skipped {ofs : Nat} {found : List Nat} (h : Nodes flash part sectorEnd ofs found)
    (hno : ¬ Header (nodeAt flash part ofs) ofs sectorEnd) :
    Nodes flash part sectorEnd (ofs + 4) found := by
  cases h with
  | stop hstop => exact .stop (by omega)
  | skip _ _ _ hrest => exact hrest
  | node _ hheader _ _ => exact absurd hheader hno

theorem Nodes.listed {ofs : Nat} {found : List Nat} (h : Nodes flash part sectorEnd ofs found)
    (hroom : ofs + unknownNodeSize ≤ sectorEnd)
    (hheader : Header (nodeAt flash part ofs) ofs sectorEnd) :
    exists rest, found = ofs :: rest ∧ Regular (nodeAt flash part ofs) ∧
      Nodes flash part sectorEnd (ofs + nodeLength (nodeAt flash part ofs).totlen) rest := by
  cases h with
  | stop hstop => exact absurd hroom (Nat.not_le_of_lt hstop)
  | skip _ hno _ _ => exact absurd hheader hno
  | node _ _ hregular hrest => exact ⟨_, rfl, hregular, hrest⟩

theorem Nodes.behindErased {ofs : Nat} {found : List Nat}
    (h : Nodes flash part sectorEnd ofs found) (n : Nat) (haligned : ofs % 4 = 0)
    (herased : ErasedWords flash part ofs (ofs + 4 * n)) :
    Nodes flash part sectorEnd (ofs + 4 * n) found := by
  induction n generalizing ofs with
  | zero => exact h
  | succ n ih =>
      have hword := herased ofs (Nat.le_refl _) (by omega) haligned
      have hnext := h.skipped (fun hheader => erased_magic hword hheader.magic)
      have hrest := ih hnext (by omega) (fun w hw hw' hmod =>
        herased w (by omega) (by omega) hmod)
      rw [show ofs + 4 * (n + 1) = ofs + 4 + 4 * n by omega]
      exact hrest

theorem Nodes.beyond {ofs : Nat} {found : List Nat} (h : Nodes flash part sectorEnd ofs found)
    (hend : sectorEnd < ofs + unknownNodeSize) : found = [] := by
  cases h with
  | stop _ => rfl
  | skip hroom _ _ _ => exact absurd hroom (Nat.not_le_of_lt hend)
  | node hroom _ _ _ => exact absurd hroom (Nat.not_le_of_lt hend)

structure Ready (flash : Memory) (part : PartInfo) (sectorEnd : Nat) (s : Scan) : Prop where
  buffered : Buffered flash part sectorEnd s
  fresh : s.prevofs ≠ s.ofs

/-- What one round of the scan does with the word at an offset. -/
inductive Round (flash : Memory) (part : PartInfo) (sectorEnd ofs : Nat) (lists : Lists) :
    Next -> Prop
  | done {t : Scan} : sectorEnd < ofs + unknownNodeSize -> t.lists = lists ->
      Round flash part sectorEnd ofs lists (.done t)
  | skipped {t : Scan} : ofs + unknownNodeSize ≤ sectorEnd ->
      ¬ Header (nodeAt flash part ofs) ofs sectorEnd -> Ready flash part sectorEnd t ->
      t.ofs = ofs + 4 -> t.lists = lists -> Round flash part sectorEnd ofs lists (.more t)
  | listed {t : Scan} : ofs + unknownNodeSize ≤ sectorEnd ->
      Header (nodeAt flash part ofs) ofs sectorEnd ->
      Ready flash part sectorEnd t ->
      t.ofs = ofs + nodeLength (nodeAt flash part ofs).totlen ->
      t.lists = listNode flash part lists ofs -> Round flash part sectorEnd ofs lists (.more t)
  | erased {scanEnd : Nat} {t : Scan} : (nodeAt flash part ofs).word 0 = erasedWord ->
      Buffered flash part sectorEnd t -> scanEnd ≤ t.bufLen -> t.ofs = ofs + 4 ->
      t.prevofs = ofs -> t.lists = lists ->
      Round flash part sectorEnd ofs lists (.empty scanEnd t)

theorem header_fetch (hbuf : Buffered flash part sectorEnd s) (hsector : sectorEnd % 4 = 0)
    (hend : sectorEnd + 2 * bufSize ≤ 2 ^ 32) (hfits : s.ofs + unknownNodeSize ≤ sectorEnd) :
    let t := if u32 (s.bufOfs + s.bufLen) < u32 (s.ofs + unknownNodeSize) then
      s.fetch flash part (min bufSize (u32Sub sectorEnd s.ofs)) else s
    Buffered flash part sectorEnd t ∧ t.ofs = s.ofs ∧ t.prevofs = s.prevofs ∧
      t.lists = s.lists ∧ t.ofs + unknownNodeSize ≤ t.bufOfs + t.bufLen := by
  have hsmall := hbuf.lenSmall
  have hbefore := hbuf.before
  have hsize : bufSize = 4096 := rfl
  have hnode : unknownNodeSize = 12 := rfl
  dsimp only
  rw [u32_of_lt (show s.bufOfs + s.bufLen < 2 ^ 32 by omega),
    u32_of_lt (show s.ofs + unknownNodeSize < 2 ^ 32 by omega)]
  split
  case isTrue hshort =>
      refine ⟨buffered_refill hbuf.aligned hsector (by omega) (by omega), rfl, rfl, rfl, ?_⟩
      show s.ofs + unknownNodeSize ≤ s.ofs + min bufSize (u32Sub sectorEnd s.ofs)
      rw [u32Sub_of_le (by omega) (by omega)]
      omega
  case isFalse hlong => exact ⟨hbuf, rfl, rfl, rfl, Nat.le_of_not_lt hlong⟩

theorem scanHeader_round (hbuf : Buffered flash part sectorEnd s) (hprev : s.prevofs = s.ofs)
    (hend : sectorEnd + 2 * bufSize ≤ 2 ^ 32) (hroom : s.ofs + unknownNodeSize ≤ sectorEnd)
    (hreach : s.ofs + unknownNodeSize ≤ s.bufOfs + s.bufLen)
    (hwrap : NoWrap (nodeAt flash part s.ofs) s.ofs)
    (hregular : Header (nodeAt flash part s.ofs) s.ofs sectorEnd ->
      Regular (nodeAt flash part s.ofs)) :
    Round flash part sectorEnd s.ofs s.lists (scanHeader flash part sectorEnd s) := by
  have hsize : bufSize = 4096 := rfl
  have hnode : unknownNodeSize = 12 := rfl
  have haligned := hbuf.aligned
  have hagree := hbuf.agree (show s.ofs < 2 ^ 32 by omega) hreach
  have hmoved : Buffered flash part sectorEnd { s with ofs := s.ofs + 4 } :=
    hbuf.moved (Nat.le_add_right _ 4) (by omega) s.prevofs
  have hskip : Ready flash part sectorEnd { s with ofs := s.ofs + 4 } :=
    ⟨hmoved, by
      show s.prevofs ≠ s.ofs + 4
      omega⟩
  unfold scanHeader
  rw [u32_of_lt (show s.ofs + 4 < 2 ^ 32 by omega), hagree.word (by decide),
    hagree.magic (by decide), hagree.hdrCrc (Nat.le_refl _), hagree.totlen (by decide)]
  by_cases herased : (nodeAt flash part s.ofs).word 0 = erasedWord
  · rw [if_pos herased]
    exact .erased herased hmoved (Nat.min_le_right _ _) rfl hprev rfl
  rw [if_neg herased]
  by_cases hbad : (nodeAt flash part s.ofs).magic ≠ magicBitmask ∨
      hdrCrc (nodeAt flash part s.ofs) = false
  · rw [if_pos hbad]
    refine .skipped hroom (fun hheader => ?_) hskip rfl rfl
    rcases hbad with hbad | hbad
    · exact hbad hheader.magic
    · rw [hheader.crc] at hbad
      cases hbad
  rw [if_neg hbad]
  rcases not_or.mp hbad with ⟨hmagic, hcrc⟩
  have hmagic' := not_not.mp hmagic
  have hcrc' : hdrCrc (nodeAt flash part s.ofs) = true := by simpa using hcrc
  rw [u32_of_lt (hwrap hmagic' hcrc')]
  by_cases hlong : sectorEnd < s.ofs + (nodeAt flash part s.ofs).totlen
  · rw [if_pos hlong]
    exact .skipped hroom (fun hheader => Nat.not_le_of_lt hlong hheader.fits) hskip rfl rfl
  rw [if_neg hlong]
  have hheader : Header (nodeAt flash part s.ofs) s.ofs sectorEnd :=
    ⟨hmagic', hcrc', Nat.le_of_not_lt hlong⟩
  have hswitch := scanSwitch_switched hbuf (by omega) hreach hheader (hregular hheader)
  have hofs := hswitch.ofs
  have hlength := nodeLength_eq
    (show (nodeAt flash part s.ofs).totlen + 3 < 2 ^ 32 by omega)
  have hheaderLen := (hregular hheader).header
  dsimp only
  rw [hswitch.totlen, hofs, u32_of_lt (by omega)]
  refine .listed hroom hheader ⟨hswitch.buffered.moved (by omega) (by omega) _, ?_⟩ rfl
    hswitch.lists
  show (scanSwitch flash part s).prevofs ≠
    s.ofs + nodeLength (nodeAt flash part s.ofs).totlen
  rw [hswitch.prevofs, hprev]
  omega

theorem scanStep_round (hready : Ready flash part sectorEnd s) (hsector : sectorEnd % 4 = 0)
    (hend : sectorEnd + 2 * bufSize ≤ 2 ^ 32)
    (hwrap : s.ofs + unknownNodeSize ≤ sectorEnd -> NoWrap (nodeAt flash part s.ofs) s.ofs)
    (hregular : s.ofs + unknownNodeSize ≤ sectorEnd ->
      Header (nodeAt flash part s.ofs) s.ofs sectorEnd -> Regular (nodeAt flash part s.ofs)) :
    Round flash part sectorEnd s.ofs s.lists (scanStep flash part sectorEnd s) := by
  have hsize : bufSize = 4096 := rfl
  have hnode : unknownNodeSize = 12 := rfl
  unfold scanStep
  by_cases hinside : s.ofs < sectorEnd
  · rw [if_neg (not_not_intro hinside), if_neg (Ne.symm hready.fresh)]
    dsimp only
    rw [u32_of_lt (show s.ofs + unknownNodeSize < 2 ^ 32 by omega)]
    by_cases hroom : sectorEnd < s.ofs + unknownNodeSize
    · rw [if_pos hroom]
      exact .done hroom rfl
    · have hroom' := Nat.le_of_not_lt hroom
      have hstart : Buffered flash part sectorEnd { s with prevofs := s.ofs } :=
        hready.buffered.moved (Nat.le_refl _) hready.buffered.aligned s.ofs
      have hfetch := header_fetch hstart hsector hend hroom'
      dsimp only at hfetch
      rw [u32_of_lt (show s.ofs + unknownNodeSize < 2 ^ 32 by omega)] at hfetch
      rw [if_neg hroom]
      generalize (if u32 (s.bufOfs + s.bufLen) < s.ofs + unknownNodeSize then
        Scan.fetch flash part { s with prevofs := s.ofs }
          (min bufSize (u32Sub sectorEnd s.ofs)) else { s with prevofs := s.ofs }) = t
        at hfetch ⊢
      rcases hfetch with ⟨hbuf, hofs, hprev, hlists, hreach⟩
      rw [← hofs] at hwrap hregular hroom'
      rw [← hofs, ← hlists]
      exact scanHeader_round hbuf (hprev.trans hofs.symm) hend hroom' hreach (hwrap hroom')
        (hregular hroom')
  · rw [if_pos hinside]
    exact .done (by omega) rfl

theorem Nodes.noWrap {ofs : Nat} {found : List Nat}
    (h : Nodes flash part sectorEnd ofs found) (hend : sectorEnd < 2 ^ 32)
    (hroom : ofs + unknownNodeSize ≤ sectorEnd) : NoWrap (nodeAt flash part ofs) ofs := by
  cases h with
  | stop hstop => exact absurd hroom (Nat.not_le_of_lt hstop)
  | skip _ _ hwrap _ => exact hwrap
  | node _ hheader _ _ => exact fun _ _ => Nat.lt_of_le_of_lt hheader.fits hend

/-- What a run of the scan through a sector comes to. -/
def Lists.reached (flash : Memory) (part : PartInfo) (sectorEnd : Nat) (s : Scan)
    (lists : Lists) : Prop :=
  exists t, t.lists = lists ∧ exists least, forall fuel, least ≤ fuel ->
    scanMore flash part sectorEnd fuel s = some t

theorem reached_of_more {t : Scan} {lists : Lists}
    (hstep : scanStep flash part sectorEnd s = .more t)
    (h : lists.reached flash part sectorEnd t) : lists.reached flash part sectorEnd s := by
  rcases h with ⟨u, hlists, least, hrun⟩
  refine ⟨u, hlists, least + 1, fun fuel hfuel => ?_⟩
  rcases Nat.exists_eq_add_of_le' hfuel with ⟨extra, rfl⟩
  show scanMore flash part sectorEnd ((extra + least) + 1) s = some u
  unfold scanMore
  rw [hstep]
  exact hrun (extra + least) (Nat.le_add_left _ _)

theorem reached_of_done {t : Scan} (hstep : scanStep flash part sectorEnd s = .done t) :
    t.lists.reached flash part sectorEnd s := by
  refine ⟨t, rfl, 1, fun fuel hfuel => ?_⟩
  rcases Nat.exists_eq_add_of_le' hfuel with ⟨extra, rfl⟩
  unfold scanMore
  rw [hstep]

theorem reached_of_empty {scanEnd budget : Nat} {t u : Scan} {r : Bool × Scan} {lists : Lists}
    (hstep : scanStep flash part sectorEnd s = .empty scanEnd t)
    (hrun : forall fuel, budget ≤ fuel ->
      moreEmpty flash part sectorEnd fuel scanEnd t = some r)
    (hr : r = (true, u)) (h : lists.reached flash part sectorEnd u) :
    lists.reached flash part sectorEnd s := by
  rcases h with ⟨v, hlists, least, hmore⟩
  refine ⟨v, hlists, max budget least + 1, fun fuel hfuel => ?_⟩
  rcases Nat.exists_eq_add_of_le' hfuel with ⟨extra, rfl⟩
  show scanMore flash part sectorEnd ((extra + max budget least) + 1) s = some v
  unfold scanMore
  rw [hstep]
  dsimp only
  rw [hrun _ (by omega), hr]
  exact hmore _ (by omega)

theorem reached_of_emptyEnd {scanEnd budget : Nat} {t u : Scan} {r : Bool × Scan}
    (hstep : scanStep flash part sectorEnd s = .empty scanEnd t)
    (hrun : forall fuel, budget ≤ fuel ->
      moreEmpty flash part sectorEnd fuel scanEnd t = some r)
    (hr : r = (false, u)) : u.lists.reached flash part sectorEnd s := by
  refine ⟨u, rfl, budget + 1, fun fuel hfuel => ?_⟩
  rcases Nat.exists_eq_add_of_le' hfuel with ⟨extra, rfl⟩
  show scanMore flash part sectorEnd ((extra + budget) + 1) s = some u
  unfold scanMore
  rw [hstep]
  dsimp only
  rw [hrun _ (by omega), hr]

theorem Passed.nodes {t : Scan} {r : Bool × Scan} (h : Passed flash part sectorEnd t r)
    {ofs : Nat} {found : List Nat} (hnodes : Nodes flash part sectorEnd ofs found)
    (hword : (nodeAt flash part ofs).word 0 = erasedWord) (haligned : ofs % 4 = 0)
    (hofs : t.ofs = ofs + 4) : Nodes flash part sectorEnd r.2.ofs found := by
  have hlater := h.later
  have hmod := h.aligned
  have heq : ofs + 4 * ((r.2.ofs - ofs) / 4) = r.2.ofs := by omega
  have herased := erasedWords_cons hword haligned (hofs ▸ h.erased)
  rw [← heq] at herased ⊢
  exact hnodes.behindErased _ haligned herased

theorem scanMore_nodes (hsector : sectorEnd % 4 = 0) {stop : Nat}
    (hstop : Stop flash part sectorEnd stop) (budget : Nat) :
    forall (s : Scan) (found : List Nat), Nodes flash part sectorEnd s.ofs found ->
      (s.ofs < sectorEnd -> Ready flash part sectorEnd s) -> sectorEnd - s.ofs < budget ->
      (found.foldl (listNode flash part) s.lists).reached flash part sectorEnd s := by
  have hnode : unknownNodeSize = 12 := rfl
  have hsize : bufSize = 4096 := rfl
  have hbehind := hstop.behind
  have hlow := hstop.low
  induction budget with
  | zero =>
      intro s found _ _ hbudget
      exact absurd hbudget (Nat.not_lt_zero _)
  | succ budget ih =>
      intro s found hnodes hready hbudget
      by_cases hinside : s.ofs < sectorEnd
      · have hround := scanStep_round (hready hinside) hsector (by omega)
          (hnodes.noWrap (by omega)) (fun hroom hheader => by
            rcases hnodes.listed hroom hheader with ⟨_, _, hregular, _⟩
            exact hregular)
        generalize hstep : scanStep flash part sectorEnd s = next at hround
        cases hround with
        | done hend hlists =>
            rw [hnodes.beyond hend]
            show s.lists.reached flash part sectorEnd s
            rw [← hlists]
            exact reached_of_done hstep
        | skipped hroom hno hready' hofs hlists =>
            rw [← hlists]
            refine reached_of_more hstep (ih _ found ?_ (fun _ => hready') (by omega))
            rw [hofs]
            exact hnodes.skipped hno
        | listed hroom hheader hready' hofs hlists =>
            rcases hnodes.listed hroom hheader with ⟨rest, rfl, hregular, hrest⟩
            have hlong := hregular.header
            have hfits := hheader.fits
            have hlength := nodeLength_eq
              (show (nodeAt flash part s.ofs).totlen + 3 < 2 ^ 32 by omega)
            rw [List.foldl_cons, ← hlists]
            refine reached_of_more hstep (ih _ rest ?_ (fun _ => hready') (by omega))
            rw [hofs]
            exact hrest
        | @erased scanEnd t herased hbuf hscan hofs hprev hlists =>
            have haligned := (hready hinside).buffered.aligned
            have haligned' := hstop.aligned
            rcases moreEmpty_passed hsector hstop
              (2 * (stop - t.ofs) + 2) scanEnd t hbuf hscan (by omega) (by
                split <;> omega) with ⟨r, hpassed, hrle, hrun⟩
            have hlater := hpassed.later
            have hnext := hpassed.nodes hnodes herased haligned hofs
            cases hgo : r.1 with
            | true =>
                have hready' : Ready flash part sectorEnd r.2 :=
                  ⟨hpassed.buffered hgo, by
                    rw [hpassed.prevofs, hprev]
                    omega⟩
                have hrest := ih r.2 found hnext (fun _ => hready') (by omega)
                rw [hpassed.lists, hlists] at hrest
                exact reached_of_empty hstep hrun (Prod.ext hgo rfl) hrest
            | false =>
                rw [hnext.beyond (by rw [hpassed.end_of_sector hgo]; omega)]
                show s.lists.reached flash part sectorEnd s
                rw [← hlists, ← hpassed.lists]
                exact reached_of_emptyEnd hstep hrun (Prod.ext hgo rfl)
      · have hstep : scanStep flash part sectorEnd s = .done s := if_pos hinside
        rw [hnodes.beyond (by omega)]
        exact reached_of_done hstep

end

end Jffs2
end Bab750
