import Bab750.Network.Defrag

/-!
# The hole list

The descriptors of the holes are cells of a list that is linked both ways, at every multiple of
eight bytes of the packet. What the operations on the list leave of it, and which bytes they do
not write.
-/

namespace Bab750
namespace Network

open Foundation

/-!
# The packet buffer as an array of cells
-/

def cellOf (h : Hole) : ListCell Nat := ⟨h.lastByte.toNat, h.nextHole.toNat, h.prevHole.toNat⟩

def cellsOf (buf : Buffer) (i : Nat) : ListCell Nat := cellOf (holeAt buf i)

def CellFits (i : Nat) : Prop := payloadAt i + 8 ≤ ipPktsize

/-- `payload[i] = h` -/
def Defrag.put (s : Defrag) (i : Nat) (h : Hole) : Defrag := s.fill (payloadAt i) h.bytes

def OnlyCells (cells : Nat -> Prop) (buf buf' : Buffer) : Prop :=
  forall j, (forall i, cells i -> j < payloadAt i ∨ payloadAt i + 8 ≤ j) -> buf' j = buf j

variable {s s' : Defrag} {i j k : Nat} {h : Hole} {cells : Nat -> Prop}
  {buf buf' buf'' : Buffer}

theorem hole_length (h : Hole) : h.bytes.length = 8 := rfl

theorem copyTo_at (buf : Buffer) (i : Nat) {m : Nat} {bytes : List Byte} {b : Byte}
    (hb : bytes[m]? = some b) : copyTo buf i bytes (i + m) = b := by
  unfold copyTo
  rw [if_pos (Nat.le_add_right i m), Nat.add_sub_cancel_left, List.getD_eq_getElem?_getD, hb]
  rfl

theorem shortAt_copyTo (buf : Buffer) (i : Nat) {m : Nat} {bytes : List Byte} {x : BitVec 16}
    (hhigh : bytes[m]? = some (x.extractLsb' 8 8))
    (hlow : bytes[m + 1]? = some (x.extractLsb' 0 8)) :
    shortAt (copyTo buf i bytes) (i + m) = x := by
  unfold shortAt
  rw [copyTo_at buf i hhigh, Nat.add_assoc, copyTo_at buf i hlow]
  exact shortBytes_append x

theorem shortAt_congr (hhigh : buf' i = buf i) (hlow : buf' (i + 1) = buf (i + 1)) :
    shortAt buf' i = shortAt buf i := by
  unfold shortAt
  rw [hhigh, hlow]

theorem holeAt_put_same (s : Defrag) (i : Nat) (h : Hole) :
    holeAt (s.put i h).pktBuff i = h := by
  have hlast : shortAt (s.put i h).pktBuff (payloadAt i) = h.lastByte :=
    shortAt_copyTo s.pktBuff (payloadAt i) (m := 0) rfl rfl
  have hnext : shortAt (s.put i h).pktBuff (payloadAt i + 2) = h.nextHole :=
    shortAt_copyTo s.pktBuff (payloadAt i) (m := 2) rfl rfl
  have hprev : shortAt (s.put i h).pktBuff (payloadAt i + 4) = h.prevHole :=
    shortAt_copyTo s.pktBuff (payloadAt i) (m := 4) rfl rfl
  have hunused : shortAt (s.put i h).pktBuff (payloadAt i + 6) = h.unused :=
    shortAt_copyTo s.pktBuff (payloadAt i) (m := 6) rfl rfl
  unfold holeAt
  rw [hlast, hnext, hprev, hunused]

theorem holeAt_congr (h : forall m, m < 8 -> buf' (payloadAt i + m) = buf (payloadAt i + m)) :
    holeAt buf' i = holeAt buf i := by
  have hshort : forall m, m + 1 < 8 ->
      shortAt buf' (payloadAt i + m) = shortAt buf (payloadAt i + m) :=
    fun m hm => shortAt_congr (h m (Nat.lt_of_succ_lt hm)) (h (m + 1) hm)
  have hlast := hshort 0 (by decide)
  rw [Nat.add_zero] at hlast
  unfold holeAt
  rw [hlast, hshort 2 (by decide), hshort 4 (by decide), hshort 6 (by decide)]

theorem cellsOf_congr (h : forall m, m < 8 -> buf' (payloadAt i + m) = buf (payloadAt i + m)) :
    cellsOf buf' i = cellsOf buf i := congrArg cellOf (holeAt_congr h)

theorem holeAt_put_other (s : Defrag) (h : Hole) (hij : j ≠ i) :
    holeAt (s.put i h).pktBuff j = holeAt s.pktBuff j := by
  refine holeAt_congr (fun m hm => copyTo_outside s.pktBuff ?_)
  rw [hole_length]
  unfold payloadAt
  omega

theorem cellsOf_put (s : Defrag) (i : Nat) (h : Hole) :
    cellsOf (s.put i h).pktBuff = Function.update (cellsOf s.pktBuff) i (cellOf h) := by
  funext j
  by_cases hij : j = i
  · rw [hij, Function.update_self]
    exact congrArg cellOf (holeAt_put_same s i h)
  · rw [Function.update_of_ne hij]
    exact congrArg cellOf (holeAt_put_other s h hij)

theorem hole_eq (hi : CellFits i) : s.hole i = some (holeAt s.pktBuff i) := if_pos hi

theorem setHole_eq (hi : CellFits i) : s.setHole i h = some (s.put i h) := if_pos hi

theorem change_eq (f : Hole -> Hole) (hi : CellFits i) :
    s.change i f = some (s.put i (f (holeAt s.pktBuff i))) := by
  unfold Defrag.change
  rw [hole_eq hi]
  exact setHole_eq hi

theorem OnlyCells.refl (cells : Nat -> Prop) (buf : Buffer) : OnlyCells cells buf buf :=
  fun _ _ => rfl

theorem OnlyCells.trans (hfirst : OnlyCells cells buf buf')
    (hsecond : OnlyCells cells buf' buf'') : OnlyCells cells buf buf'' :=
  fun j hj => (hsecond j hj).trans (hfirst j hj)

theorem onlyCells_put (s : Defrag) (h : Hole) (hi : cells i) :
    OnlyCells cells s.pktBuff (s.put i h).pktBuff := by
  intro j hj
  refine copyTo_outside s.pktBuff ?_
  rw [hole_length]
  exact hj i hi

/-!
# Holes at their places
-/

def places (holes : List Span) : Places Nat := holes.map (fun h => (h.first / 8, h.limit))

/-- Holes that have a place for their descriptor, and a number that says where they end. -/
structure Placed (holes : List Span) : Prop where
  valid : Holes holes
  aligned : forall h, h ∈ holes -> h.first % 8 = 0
  fits : forall h, h ∈ holes -> CellFits (h.first / 8)
  limit : forall h, h ∈ holes -> h.limit < 65536

structure FrontList (s : Defrag) (holes : List Span) (next : Nat) : Prop where
  linked : Linked (cellsOf s.pktBuff) 0 (places holes) next
  first : s.firstHole.toNat = Places.head (places holes) next

variable {holes before after : List Span} {a : Span}

theorem places_append (first second : List Span) :
    places (first ++ second) = places first ++ places second := List.map_append

theorem frontList_append {first second : List Span} : FrontList s (first ++ second) k <->
    FrontList s first (Places.head (places second) k) ∧
      Linked (cellsOf s.pktBuff) (Places.last 0 (places first)) (places second) k := by
  constructor
  · rintro ⟨hlinked, hfirst⟩
    rw [places_append] at hlinked hfirst
    rw [head_append] at hfirst
    rcases linked_append.mp hlinked with ⟨hfront, hback⟩
    exact ⟨⟨hfront, hfirst⟩, hback⟩
  · rintro ⟨⟨hlinked, hfirst⟩, hback⟩
    constructor
    · rw [places_append]
      exact linked_append.mpr ⟨hlinked, hback⟩
    · rw [places_append, head_append]
      exact hfirst

theorem OnlyCells.mono {cells' : Nat -> Prop} (h : OnlyCells cells buf buf')
    (hcells : forall i, cells i -> cells' i) : OnlyCells cells' buf buf' :=
  fun j hj => h j (fun i hi => hj i (hcells i hi))

theorem OnlyCells.cell (h : OnlyCells cells buf buf') (hi : ¬ cells i) :
    cellsOf buf' i = cellsOf buf i := by
  refine cellsOf_congr (fun m hm => h (payloadAt i + m) (fun j hj => ?_))
  have hne : j ≠ i := fun heq => hi (heq ▸ hj)
  unfold payloadAt
  omega

def At (holes : List Span) (i : Nat) : Prop := exists h, h ∈ holes ∧ h.first / 8 = i

theorem OnlyCells.linked {prev next : Nat} (h : OnlyCells cells buf buf')
    (hlinked : Linked (cellsOf buf) prev (places holes) next)
    (hcells : forall i, At holes i -> ¬ cells i) :
    Linked (cellsOf buf') prev (places holes) next := by
  refine hlinked.congr (fun node hnode => ?_)
  rcases List.mem_map.mp hnode with ⟨a, ha, rfl⟩
  exact h.cell (hcells _ ⟨a, ha, rfl⟩)

theorem FrontList.only (hfront : FrontList s holes k) (h : OnlyCells cells s.pktBuff s'.pktBuff)
    (hcells : forall i, At holes i -> ¬ cells i) (hfirst : s'.firstHole = s.firstHole) :
    FrontList s' holes k :=
  ⟨h.linked hfront.linked hcells, hfirst ▸ hfront.first⟩

theorem placed_append {first second : List Span} (h : Placed (first ++ second)) :
    Placed first ∧ Placed second := by
  rcases holes_append.mp h.valid with ⟨hfirst, hsecond, _⟩
  have hl : forall a, a ∈ first -> a ∈ first ++ second := fun _ => List.mem_append_left _
  have hr : forall a, a ∈ second -> a ∈ first ++ second := fun _ => List.mem_append_right _
  exact ⟨⟨hfirst, fun a ha => h.aligned a (hl a ha), fun a ha => h.fits a (hl a ha),
      fun a ha => h.limit a (hl a ha)⟩,
    ⟨hsecond, fun a ha => h.aligned a (hr a ha), fun a ha => h.fits a (hr a ha),
      fun a ha => h.limit a (hr a ha)⟩⟩

theorem Placed.lt {first second : List Span} (h : Placed (first ++ second)) (hi : At first i)
    (hj : At second j) : i < j := by
  rcases hi with ⟨a, ha, rfl⟩
  rcases hj with ⟨b, hb, rfl⟩
  have hapart := (holes_append.mp h.valid).2.2 a ha b hb
  have hopen := h.valid.each a (List.mem_append_left _ ha)
  have haligned := h.aligned a (List.mem_append_left _ ha)
  have haligned' := h.aligned b (List.mem_append_right _ hb)
  omega

theorem Placed.lt_cons (h : Placed (a :: holes)) (hi : At holes i) : a.first / 8 < i := by
  have happend : Placed ([a] ++ holes) := h
  exact happend.lt ⟨a, List.mem_singleton.mpr rfl, rfl⟩ hi

theorem placed_tail (h : Placed (a :: holes)) : Placed holes := by
  have happend : Placed ([a] ++ holes) := h
  exact (placed_append happend).2

theorem at_last (b : Span) : At (before ++ [b]) (b.first / 8) :=
  ⟨b, List.mem_append_right _ (List.mem_singleton.mpr rfl), rfl⟩

theorem Placed.lt_word (h : Placed holes) (hi : At holes i) : i < 65536 := by
  rcases hi with ⟨a, ha, rfl⟩
  have hfits := h.fits a ha
  unfold CellFits payloadAt ipPktsize at hfits
  omega

theorem last_snoc (b : Span) : Places.last k (places (before ++ [b])) = b.first / 8 := by
  rw [places_append, last_append]
  rfl

/-!
# Other links at the ends of a list
-/

theorem toNat_ne_zero {x : BitVec 16} (h : x.toNat ≠ 0) : x ≠ 0#16 :=
  fun heq => h (by rw [heq]; rfl)

theorem linkFront_spec {prev x : BitVec 16} (hplaced : Placed before)
    (hfront : FrontList s before k) (hprev : prev.toNat = Places.last 0 (places before))
    (hfound : before ≠ [] -> Places.last 0 (places before) ≠ 0) :
    exists s', s.linkFront prev x = some s' ∧ FrontList s' before x.toNat ∧
      OnlyCells (At before) s.pktBuff s'.pktBuff ∧ s'.totalLen = s.totalLen := by
  rcases List.eq_nil_or_concat before with rfl | ⟨front, b, rfl⟩
  · have hzero : prev = 0#16 := BitVec.eq_of_toNat_eq hprev
    refine ⟨{ s with firstHole := x }, if_pos hzero, ⟨trivial, rfl⟩, OnlyCells.refl _ _, rfl⟩
  · have hne := hfound (by simp)
    rw [List.concat_eq_append] at *
    rw [last_snoc] at hprev hne
    have hfits : CellFits (b.first / 8) :=
      hplaced.fits b (List.mem_append_right _ (List.mem_singleton.mpr rfl))
    refine ⟨s.put (b.first / 8) { holeAt s.pktBuff (b.first / 8) with nextHole := x }, ?_, ?_,
      onlyCells_put s _ (at_last b), rfl⟩
    · unfold Defrag.linkFront
      rw [if_neg (toNat_ne_zero (by rw [hprev]; exact hne)), hprev, change_eq _ hfits]
    · have hlinked := hfront.linked
      rw [places_append] at hlinked
      change Linked _ 0 (places front ++ [(b.first / 8, b.limit)]) k at hlinked
      constructor
      · rw [cellsOf_put, places_append]
        refine hlinked.update_last rfl (fun node hnode => ?_)
        rcases List.mem_map.mp hnode with ⟨a, ha, rfl⟩
        exact Nat.ne_of_lt (hplaced.lt ⟨a, ha, rfl⟩ ⟨b, List.mem_singleton.mpr rfl, rfl⟩)
      · have hfirst := hfront.first
        rw [places_append, head_append] at hfirst ⊢
        exact hfirst

theorem linkBack_spec {next x : BitVec 16} (hplaced : Placed (a :: after))
    (hback : Linked (cellsOf s.pktBuff) k (places after) 0)
    (hnext : next.toNat = Places.head (places after) 0) :
    exists s', s.linkBack next x = some s' ∧
      Linked (cellsOf s'.pktBuff) x.toNat (places after) 0 ∧
      OnlyCells (At after) s.pktBuff s'.pktBuff ∧ s'.firstHole = s.firstHole ∧
      s'.totalLen = s.totalLen := by
  cases after with
  | nil =>
      have hzero : next = 0#16 := BitVec.eq_of_toNat_eq hnext
      exact ⟨s, if_pos hzero, trivial, OnlyCells.refl _ _, rfl, rfl⟩
  | cons b after =>
      have hfits : CellFits (b.first / 8) :=
        hplaced.fits b (List.mem_cons_of_mem a List.mem_cons_self)
      have hlt : a.first / 8 < b.first / 8 :=
        hplaced.lt_cons ⟨b, List.mem_cons_self, rfl⟩
      have hnext : next.toNat = b.first / 8 := hnext
      refine ⟨s.put (b.first / 8) { holeAt s.pktBuff (b.first / 8) with prevHole := x }, ?_, ?_,
        onlyCells_put s _ ⟨b, List.mem_cons_self, rfl⟩, rfl, rfl⟩
      · unfold Defrag.linkBack
        rw [if_neg (toNat_ne_zero (by rw [hnext]; exact Nat.ne_of_gt (Nat.zero_lt_of_lt hlt))),
          hnext, change_eq _ hfits]
      · rw [cellsOf_put]
        have hback : Linked (cellsOf s.pktBuff) k ((b.first / 8, b.limit) :: places after) 0 :=
          hback
        refine hback.update_head rfl (fun node hnode => ?_)
        rcases List.mem_map.mp hnode with ⟨c, hc, rfl⟩
        exact Nat.ne_of_gt ((placed_tail hplaced).lt_cons ⟨c, hc, rfl⟩)

/-!
# The operations on the list
-/

/-- A hole with what is in front of it and behind it. -/
structure InList (s : Defrag) (before : List Span) (a : Span) (after : List Span) (k : Nat) :
    Prop where
  front : FrontList s before k
  cell : cellOf (holeAt s.pktBuff (a.first / 8)) =
    ⟨a.limit, Places.head (places after) 0, Places.last 0 (places before)⟩
  back : Linked (cellsOf s.pktBuff) (a.first / 8) (places after) 0

theorem FrontList.inList (h : FrontList s (before ++ a :: after) 0) :
    InList s before a after (a.first / 8) := by
  rcases frontList_append.mp h with ⟨hfront, hcell, hback⟩
  exact ⟨hfront, hcell, hback⟩

theorem at_append {first second : List Span} :
    At (first ++ second) i <-> At first i ∨ At second i := by
  unfold At
  simp only [List.mem_append, or_and_right, exists_or]

theorem at_cons : At (a :: holes) i <-> a.first / 8 = i ∨ At holes i := by
  unfold At
  simp only [List.mem_cons, or_and_right, exists_or, exists_eq_left]

theorem change_firstHole (s : Defrag) (x : BitVec 16) (i : Nat) (f : Hole -> Hole) :
    { s with firstHole := x }.change i f =
      (s.change i f).map (fun s => { s with firstHole := x }) := by
  unfold Defrag.change Defrag.hole Defrag.setHole
  split
  · rfl
  · rfl

theorem removeHole_eq (s : Defrag) (h : Hole) : s.removeHole h =
    if h.prevHole = 0#16 ∧ h.nextHole = 0#16 then some (s, true)
    else (do
      let s ← s.linkBack h.nextHole h.prevHole
      let s ← s.linkFront h.prevHole h.nextHole
      some (s, false)) := by
  unfold Defrag.removeHole Defrag.linkBack Defrag.linkFront
  by_cases hprev : h.prevHole = 0#16
  · by_cases hnext : h.nextHole = 0#16
    · rw [if_pos ⟨hprev, hnext⟩, if_pos ⟨hprev, hnext⟩]
    · have hnot : ¬ (h.prevHole = 0#16 ∧ h.nextHole = 0#16) := fun hboth => hnext hboth.2
      simp only [if_neg hnext, change_firstHole, hprev]
      cases s.change h.nextHole.toNat (fun next => { next with prevHole := 0#16 }) with
      | none => rfl
      | some s' => rfl
  · have hnot : ¬ (h.prevHole = 0#16 ∧ h.nextHole = 0#16) := fun hboth => hprev hboth.1
    by_cases hnext : h.nextHole = 0#16
    · simp only [if_neg hprev, hnext]
      rfl
    · simp only [if_neg hnot, if_neg hprev, if_neg hnext]

theorem Placed.apart {first second : List Span} (h : Placed (first ++ second)) (hi : At first i) :
    ¬ At second i := fun hsecond => Nat.lt_irrefl i (h.lt hi hsecond)

theorem relink_spec {prev next x y : BitVec 16} {k' : Nat}
    (hplaced : Placed (before ++ a :: after))
    (hfront : FrontList s before k) (hback : Linked (cellsOf s.pktBuff) k' (places after) 0)
    (hprev : prev.toNat = Places.last 0 (places before))
    (hnext : next.toNat = Places.head (places after) 0)
    (hfound : before ≠ [] -> Places.last 0 (places before) ≠ 0) :
    exists s₁ s₂, s.linkBack next y = some s₁ ∧ s₁.linkFront prev x = some s₂ ∧
      FrontList s₂ before x.toNat ∧ Linked (cellsOf s₂.pktBuff) y.toNat (places after) 0 ∧
      OnlyCells (At after) s.pktBuff s₁.pktBuff ∧
      OnlyCells (fun i => At before i ∨ At after i) s.pktBuff s₂.pktBuff ∧
      s₂.totalLen = s.totalLen := by
  have hacross : forall i, At before i -> ¬ At after i := fun i hi hafter =>
    hplaced.apart hi (at_cons.mpr (Or.inr hafter))
  rcases linkBack_spec (x := y) (placed_append hplaced).2 hback hnext with
    ⟨s₁, hs₁, hback₁, hcells₁, hfirst₁, htotal₁⟩
  have hfront₁ : FrontList s₁ before k := hfront.only hcells₁ hacross hfirst₁
  rcases linkFront_spec (x := x) (placed_append hplaced).1 hfront₁ hprev hfound with
    ⟨s₂, hs₂, hfront₂, hcells₂, htotal₂⟩
  exact ⟨s₁, s₂, hs₁, hs₂, hfront₂,
    hcells₂.linked hback₁ (fun i hi hbefore => hacross i hbefore hi), hcells₁,
    (hcells₁.mono (fun i => Or.inr)).trans (hcells₂.mono (fun i => Or.inl)),
    htotal₂.trans htotal₁⟩

theorem last_eq_zero_iff (hfound : before ≠ [] -> Places.last 0 (places before) ≠ 0) :
    Places.last 0 (places before) = 0 <-> before = [] := by
  constructor
  · intro hlast
    exact Classical.byContradiction (fun hne => hfound hne hlast)
  · rintro rfl
    rfl

theorem head_eq_zero_iff (hplaced : Placed (a :: after)) :
    Places.head (places after) 0 = 0 <-> after = [] := by
  constructor
  · intro hhead
    cases after with
    | nil => rfl
    | cons b after =>
        have hlt : a.first / 8 < b.first / 8 :=
          hplaced.lt_cons ⟨b, List.mem_cons_self, rfl⟩
        exact absurd hhead (Nat.ne_of_gt (Nat.zero_lt_of_lt hlt))
  · rintro rfl
    rfl

theorem toNat_eq_zero {x : BitVec 16} : x = 0#16 <-> x.toNat = 0 := by
  constructor
  · rintro rfl
    rfl
  · exact fun h => BitVec.eq_of_toNat_eq h

theorem removeHole_spec (hplaced : Placed (before ++ a :: after))
    (hlist : InList s before a after k)
    (hfound : before ≠ [] -> Places.last 0 (places before) ≠ 0) :
    exists s', s.removeHole (holeAt s.pktBuff (a.first / 8)) =
        some (s', decide (before ++ after = [])) ∧
      OnlyCells (At (before ++ after)) s.pktBuff s'.pktBuff ∧ s'.totalLen = s.totalLen ∧
      (before ++ after ≠ [] -> FrontList s' (before ++ after) 0) := by
  rcases hlist with ⟨hfront, hcell, hback⟩
  generalize holeAt s.pktBuff (a.first / 8) = h at hcell ⊢
  have hnext : h.nextHole.toNat = Places.head (places after) 0 := congrArg ListCell.next hcell
  have hprev : h.prevHole.toNat = Places.last 0 (places before) := congrArg ListCell.prev hcell
  have hdone : h.prevHole = 0#16 ∧ h.nextHole = 0#16 <-> before ++ after = [] := by
    rw [toNat_eq_zero, toNat_eq_zero, hprev, hnext, last_eq_zero_iff hfound,
      head_eq_zero_iff (placed_append hplaced).2, List.append_eq_nil_iff]
  rw [removeHole_eq]
  by_cases hnil : before ++ after = []
  · rw [if_pos (hdone.mpr hnil), decide_eq_true hnil]
    exact ⟨s, rfl, OnlyCells.refl _ _, rfl, fun hne => absurd hnil hne⟩
  · rw [if_neg (fun hboth => hnil (hdone.mp hboth)), decide_eq_false hnil]
    rcases relink_spec (x := h.nextHole) (y := h.prevHole) hplaced hfront hback hprev hnext hfound
      with ⟨s₁, s₂, hs₁, hs₂, hfront₂, hback₂, _, hcells, htotal⟩
    rw [hnext] at hfront₂
    rw [hprev] at hback₂
    refine ⟨s₂, ?_, hcells.mono (fun i => at_append.mpr), htotal,
      fun _ => frontList_append.mpr ⟨hfront₂, hback₂⟩⟩
    rw [hs₁, Option.bind_eq_bind, Option.bind_some, hs₂]
    rfl

theorem toNat_ofNat_place (h : Placed holes) (hi : At holes i) :
    (BitVec.ofNat 16 i).toNat = i := by
  rw [BitVec.toNat_ofNat, Nat.mod_eq_of_lt (h.lt_word hi)]

theorem moveHole_spec {newh : Nat} (hplaced : Placed (before ++ a :: after))
    (hlist : InList s before a after k)
    (hfound : before ≠ [] -> Places.last 0 (places before) ≠ 0)
    (hnewh : Placed (before ++ ⟨8 * newh, a.limit⟩ :: after)) :
    exists s', s.moveHole (holeAt s.pktBuff (a.first / 8)) newh = some s' ∧
      OnlyCells (At (before ++ ⟨8 * newh, a.limit⟩ :: after)) s.pktBuff s'.pktBuff ∧
      s'.totalLen = s.totalLen ∧ FrontList s' (before ++ ⟨8 * newh, a.limit⟩ :: after) 0 := by
  rcases hlist with ⟨hfront, hcell, hback⟩
  generalize holeAt s.pktBuff (a.first / 8) = h at hcell ⊢
  have hnext : h.nextHole.toNat = Places.head (places after) 0 := congrArg ListCell.next hcell
  have hprev : h.prevHole.toNat = Places.last 0 (places before) := congrArg ListCell.prev hcell
  have hplace : 8 * newh / 8 = newh := Nat.mul_div_cancel_left newh (by decide)
  have hself : At (⟨8 * newh, a.limit⟩ :: after) newh := at_cons.mpr (Or.inl hplace)
  have hat : At (before ++ ⟨8 * newh, a.limit⟩ :: after) newh := at_append.mpr (Or.inr hself)
  have hfits : CellFits newh := by
    have hfits := hnewh.fits _ (List.mem_append_right _ List.mem_cons_self)
    rwa [hplace] at hfits
  have hbefore : ¬ At before newh := fun hi => hnewh.apart hi hself
  have hafter : ¬ At after newh := by
    intro hi
    have hlt : 8 * newh / 8 < newh := (placed_append hnewh).2.lt_cons hi
    rw [hplace] at hlt
    exact Nat.lt_irrefl newh hlt
  -- the descriptor is copied before the neighbours get to know of it
  have hput : OnlyCells (fun i => i = newh) s.pktBuff (s.put newh h).pktBuff :=
    onlyCells_put s h rfl
  have hfront₀ : FrontList (s.put newh h) before k :=
    hfront.only hput (fun i hi heq => hbefore (heq ▸ hi)) rfl
  have hback₀ : Linked (cellsOf (s.put newh h).pktBuff) (a.first / 8) (places after) 0 :=
    hput.linked hback (fun i hi heq => hafter (heq ▸ hi))
  rcases relink_spec (x := BitVec.ofNat 16 newh) (y := BitVec.ofNat 16 newh) hplaced hfront₀
    hback₀ hprev hnext hfound with ⟨s₁, s₂, hs₁, hs₂, hfront₂, hback₂, hcells₁, hcells, htotal⟩
  have hcopy : holeAt (s.put newh h).pktBuff newh = h := holeAt_put_same s newh h
  have hprev₁ : (holeAt s₁.pktBuff newh).prevHole = h.prevHole := by
    have hsame : cellsOf s₁.pktBuff newh = cellOf h :=
      (hcells₁.cell hafter).trans (congrArg cellOf hcopy)
    exact BitVec.eq_of_toNat_eq (congrArg ListCell.prev hsame)
  have hcell₂ : cellsOf s₂.pktBuff newh = cellOf h := by
    refine (hcells.cell ?_).trans (congrArg cellOf hcopy)
    rintro (hi | hi)
    · exact hbefore hi
    · exact hafter hi
  rw [toNat_ofNat_place hnewh hat] at hfront₂ hback₂
  refine ⟨s₂, ?_, ?_, htotal, frontList_append.mpr ⟨?_, ?_, ?_⟩⟩
  · unfold Defrag.moveHole
    simp only [setHole_eq hfits, hole_eq hfits, Option.bind_eq_bind, Option.bind_some, hcopy,
      hs₁, hprev₁, hs₂]
  · refine (hput.mono ?_).trans (hcells.mono ?_)
    · rintro i rfl
      exact hat
    · rintro i (hi | hi)
      · exact at_append.mpr (Or.inl hi)
      · exact at_append.mpr (Or.inr (at_cons.mpr (Or.inr hi)))
  · rwa [← hplace] at hfront₂
  · show cellsOf s₂.pktBuff (8 * newh / 8) = _
    rw [hplace, hcell₂, hcell]
    rfl
  · rwa [← hplace] at hback₂

theorem relimit_spec {x : BitVec 16} (hplaced : Placed (before ++ a :: after))
    (hlist : FrontList s (before ++ a :: after) 0) :
    FrontList (s.put (a.first / 8) { holeAt s.pktBuff (a.first / 8) with lastByte := x })
      (before ++ ⟨a.first, x.toNat⟩ :: after) 0 := by
  rcases hlist.inList with ⟨hfront, hcell, hback⟩
  have hself : At (a :: after) (a.first / 8) := at_cons.mpr (Or.inl rfl)
  have hput : OnlyCells (fun i => i = a.first / 8) s.pktBuff
      (s.put (a.first / 8) { holeAt s.pktBuff (a.first / 8) with lastByte := x }).pktBuff :=
    onlyCells_put s _ rfl
  refine frontList_append.mpr ⟨hfront.only hput (fun i hi heq => ?_) rfl, ?_,
    hput.linked hback (fun i hi heq => ?_)⟩
  · exact hplaced.apart (heq ▸ hi) hself
  · show cellsOf _ (a.first / 8) = _
    rw [cellsOf_put, Function.update_self]
    unfold cellOf at hcell ⊢
    rw [ListCell.mk.injEq] at hcell
    rw [hcell.2.1, hcell.2.2]
    rfl
  · have hlt : a.first / 8 < i := (placed_append hplaced).2.lt_cons hi
    exact Nat.lt_irrefl i (heq ▸ hlt)

theorem splitHole_spec {start newh : Nat} (hplaced : Placed (before ++ a :: after))
    (hlist : FrontList s (before ++ a :: after) 0) (hstart : start < 65536)
    (hnewh : Placed (before ++ ⟨a.first, start⟩ :: ⟨8 * newh, a.limit⟩ :: after)) :
    exists s', s.splitHole (a.first / 8) (holeAt s.pktBuff (a.first / 8)) start newh = some s' ∧
      OnlyCells (At (before ++ ⟨a.first, start⟩ :: ⟨8 * newh, a.limit⟩ :: after)) s.pktBuff
        s'.pktBuff ∧ s'.totalLen = s.totalLen ∧
      FrontList s' (before ++ ⟨a.first, start⟩ :: ⟨8 * newh, a.limit⟩ :: after) 0 := by
  rcases hlist.inList with ⟨hfront, hcell, hback⟩
  generalize hi : a.first / 8 = i at hfront hcell hback ⊢
  generalize hh : holeAt s.pktBuff i = h at hcell ⊢
  have hplace : 8 * newh / 8 = newh := Nat.mul_div_cancel_left newh (by decide)
  have hself : At [⟨a.first, start⟩] i := ⟨_, List.mem_singleton.mpr rfl, hi⟩
  have hnew : At (⟨8 * newh, a.limit⟩ :: after) newh := at_cons.mpr (Or.inl hplace)
  have htwo : Placed ([⟨a.first, start⟩] ++ ⟨8 * newh, a.limit⟩ :: after) :=
    (placed_append hnewh).2
  have hlt : i < newh := htwo.lt hself hnew
  have hbefore : forall j, At before j -> j < i := fun j hj =>
    hnewh.lt hj (at_cons.mpr (Or.inl hi))
  have hafter : forall j, At after j -> newh < j := by
    intro j hj
    have hlt : 8 * newh / 8 < j := (placed_append htwo).2.lt_cons hj
    rwa [hplace] at hlt
  have hfitsi : CellFits i := hi ▸ hplaced.fits a (List.mem_append_right _ List.mem_cons_self)
  have hfits : CellFits newh := by
    have hfits := (placed_append htwo).2.fits _ List.mem_cons_self
    rwa [hplace] at hfits
  have hati : At (before ++ ⟨a.first, start⟩ :: ⟨8 * newh, a.limit⟩ :: after) i :=
    at_append.mpr (Or.inr (at_cons.mpr (Or.inl hi)))
  have hat : At (before ++ ⟨a.first, start⟩ :: ⟨8 * newh, a.limit⟩ :: after) newh :=
    at_append.mpr (Or.inr (at_cons.mpr (Or.inr hnew)))
  -- the two descriptors, and then the link of the hole behind them
  let first : Hole :=
    { h with lastByte := BitVec.ofNat 16 start, nextHole := BitVec.ofNat 16 newh }
  let second : Hole := { h with prevHole := BitVec.ofNat 16 i }
  let s₃ := ((s.put newh h).put i first).put newh second
  have hputs : OnlyCells (fun j => j = i ∨ j = newh) s.pktBuff s₃.pktBuff :=
    ((onlyCells_put s h (Or.inr rfl)).trans (onlyCells_put _ first (Or.inl rfl))).trans
      (onlyCells_put _ second (Or.inr rfl))
  have hcell₃ : cellsOf s₃.pktBuff i = cellOf first := by
    have hne : i ≠ newh := Nat.ne_of_lt hlt
    rw [cellsOf_put, Function.update_of_ne hne, cellsOf_put, Function.update_self]
  have hsecond : holeAt s₃.pktBuff newh = second := holeAt_put_same _ newh second
  have hnext : h.nextHole.toNat = Places.head (places after) 0 := congrArg ListCell.next hcell
  have hfront₃ : FrontList s₃ before i := by
    refine hfront.only hputs (fun j hj heq => ?_) rfl
    have hj := hbefore j hj
    omega
  have hback₃ : Linked (cellsOf s₃.pktBuff) i (places after) 0 := by
    refine hputs.linked hback (fun j hj heq => ?_)
    have hj := hafter j hj
    omega
  rcases linkBack_spec (x := BitVec.ofNat 16 newh) (placed_append htwo).2 hback₃ hnext with
    ⟨s₄, hs₄, hback₄, hcells₄, hfirst₄, htotal₄⟩
  rw [toNat_ofNat_place hnewh hat] at hback₄
  have hfirst : cellsOf s₄.pktBuff i = cellOf first := by
    refine (hcells₄.cell (fun hafter' => ?_)).trans hcell₃
    exact Nat.lt_asymm hlt (hafter i hafter')
  have hsecond₄ : cellsOf s₄.pktBuff newh = cellOf second := by
    refine (hcells₄.cell (fun hafter' => ?_)).trans (congrArg cellOf hsecond)
    exact Nat.lt_irrefl newh (hafter newh hafter')
  have hwordi := toNat_ofNat_place hnewh hati
  have hword := toNat_ofNat_place hnewh hat
  have hlimit : (BitVec.ofNat 16 start).toNat = start := by
    rw [BitVec.toNat_ofNat, Nat.mod_eq_of_lt hstart]
  unfold cellOf at hcell
  rw [ListCell.mk.injEq] at hcell
  refine ⟨s₄, ?_, ?_, htotal₄, frontList_append.mpr ⟨?_, ?_, ?_, ?_⟩⟩
  · have hget : holeAt (s.put newh h).pktBuff i = h :=
      (holeAt_put_other s h (Nat.ne_of_lt hlt)).trans hh
    have hget' : holeAt ((s.put newh h).put i first).pktBuff newh = h :=
      (holeAt_put_other _ first (Nat.ne_of_gt hlt)).trans (holeAt_put_same s newh h)
    unfold Defrag.splitHole
    simp only [setHole_eq hfits, change_eq _ hfitsi, change_eq _ hfits, hole_eq hfits,
      Option.bind_eq_bind, Option.bind_some, hget]
    rw [hget', hsecond]
    exact hs₄
  · refine (hputs.mono ?_).trans (hcells₄.mono ?_)
    · rintro j (rfl | rfl)
      · exact hati
      · exact hat
    · exact fun j hj => at_append.mpr (Or.inr (at_cons.mpr (Or.inr (at_cons.mpr (Or.inr hj)))))
  · have hfront₄ : FrontList s₄ before i :=
      hfront₃.only hcells₄ (fun j hj hj' =>
        Nat.lt_irrefl j (((hbefore j hj).trans hlt).trans (hafter j hj'))) hfirst₄
    rwa [← hi] at hfront₄
  · show cellsOf s₄.pktBuff (a.first / 8) = _
    rw [hi, hfirst]
    show (⟨(BitVec.ofNat 16 start).toNat, (BitVec.ofNat 16 newh).toNat, h.prevHole.toNat⟩ :
      ListCell Nat) = ⟨start, 8 * newh / 8, Places.last 0 (places before)⟩
    rw [hlimit, hword, hplace, hcell.2.2]
  · show cellsOf s₄.pktBuff (8 * newh / 8) = _
    rw [hplace, hsecond₄]
    show (⟨h.lastByte.toNat, h.nextHole.toNat, (BitVec.ofNat 16 i).toNat⟩ : ListCell Nat) =
      ⟨a.limit, Places.head (places after) 0, a.first / 8⟩
    rw [hcell.1, hcell.2.1, hwordi, hi]
  · rwa [← hplace] at hback₄

/-!
# The hole that a fragment is put into
-/

theorem findHole_found {start prev fuel : Nat} (hplaced : Placed (before ++ a :: after))
    (hlinked : Linked (cellsOf s.pktBuff) prev (places (before ++ a :: after)) 0)
    (hbefore : forall b, b ∈ before -> b.limit < start) (ha : start ≤ a.limit)
    (hfuel : 65536 ≤ fuel + Places.head (places (before ++ a :: after)) 0) :
    s.findHole start fuel (Places.head (places (before ++ a :: after)) 0) =
      some (some (a.first / 8)) := by
  induction before generalizing prev fuel with
  | nil =>
      have hword := hplaced.lt_word (at_cons.mpr (Or.inl rfl))
      have hfits : CellFits (a.first / 8) := hplaced.fits a List.mem_cons_self
      have hcell : cellOf (holeAt s.pktBuff (a.first / 8)) = _ := hlinked.1
      have hlimit : (holeAt s.pktBuff (a.first / 8)).lastByte.toNat = a.limit :=
        congrArg ListCell.value hcell
      show s.findHole start fuel (a.first / 8) = _
      cases fuel with
      | zero =>
          have hfuel : 65536 ≤ 0 + a.first / 8 := hfuel
          omega
      | succ fuel =>
          unfold Defrag.findHole
          rw [hole_eq hfits, Option.bind_eq_bind, Option.bind_some, hlimit,
            if_neg (Nat.not_lt.mpr ha)]
  | cons b before ih =>
      have hword := hplaced.lt_word (at_cons.mpr (Or.inl rfl))
      have hfits : CellFits (b.first / 8) := hplaced.fits b List.mem_cons_self
      have hcell : cellOf (holeAt s.pktBuff (b.first / 8)) = _ := hlinked.1
      have hlimit : (holeAt s.pktBuff (b.first / 8)).lastByte.toNat = b.limit :=
        congrArg ListCell.value hcell
      have hnext : (holeAt s.pktBuff (b.first / 8)).nextHole.toNat =
          Places.head (places (before ++ a :: after)) 0 := congrArg ListCell.next hcell
      have hlt : b.first / 8 < Places.head (places (before ++ a :: after)) 0 := by
        refine hplaced.lt_cons ?_
        cases before with
        | nil => exact at_cons.mpr (Or.inl rfl)
        | cons c before => exact at_cons.mpr (Or.inl rfl)
      show s.findHole start fuel (b.first / 8) = _
      have hfuel : 65536 ≤ fuel + b.first / 8 := hfuel
      cases fuel with
      | zero => omega
      | succ fuel =>
          unfold Defrag.findHole
          rw [hole_eq hfits, Option.bind_eq_bind, Option.bind_some, hlimit,
            if_pos (hbefore b List.mem_cons_self),
            if_neg (toNat_ne_zero (by omega)), hnext]
          exact ih (placed_tail hplaced) hlinked.2
            (fun c hc => hbefore c (List.mem_cons_of_mem b hc)) (by omega)

theorem findHole_none {start prev fuel : Nat} (hplaced : Placed (a :: holes))
    (hlinked : Linked (cellsOf s.pktBuff) prev (places (a :: holes)) 0)
    (hall : forall b, b ∈ a :: holes -> b.limit < start)
    (hfuel : 65536 ≤ fuel + a.first / 8) :
    s.findHole start fuel (a.first / 8) = some none := by
  induction holes generalizing a prev fuel with
  | nil =>
      have hword := hplaced.lt_word (at_cons.mpr (Or.inl rfl))
      have hfits : CellFits (a.first / 8) := hplaced.fits a List.mem_cons_self
      have hcell : cellOf (holeAt s.pktBuff (a.first / 8)) = _ := hlinked.1
      have hlimit : (holeAt s.pktBuff (a.first / 8)).lastByte.toNat = a.limit :=
        congrArg ListCell.value hcell
      have hnext : (holeAt s.pktBuff (a.first / 8)).nextHole.toNat = 0 :=
        congrArg ListCell.next hcell
      cases fuel with
      | zero => omega
      | succ fuel =>
          unfold Defrag.findHole
          rw [hole_eq hfits, Option.bind_eq_bind, Option.bind_some, hlimit,
            if_pos (hall a List.mem_cons_self), if_pos (toNat_eq_zero.mpr hnext)]
  | cons b holes ih =>
      have hword := hplaced.lt_word (at_cons.mpr (Or.inl rfl))
      have hfits : CellFits (a.first / 8) := hplaced.fits a List.mem_cons_self
      have hcell : cellOf (holeAt s.pktBuff (a.first / 8)) = _ := hlinked.1
      have hlimit : (holeAt s.pktBuff (a.first / 8)).lastByte.toNat = a.limit :=
        congrArg ListCell.value hcell
      have hnext : (holeAt s.pktBuff (a.first / 8)).nextHole.toNat = b.first / 8 :=
        congrArg ListCell.next hcell
      have hlt : a.first / 8 < b.first / 8 :=
        hplaced.lt_cons (at_cons.mpr (Or.inl rfl))
      cases fuel with
      | zero => omega
      | succ fuel =>
          unfold Defrag.findHole
          rw [hole_eq hfits, Option.bind_eq_bind, Option.bind_some, hlimit,
            if_pos (hall a List.mem_cons_self), if_neg (toNat_ne_zero (by omega)), hnext]
          exact ih (placed_tail hplaced) hlinked.2
            (fun c hc => hall c (List.mem_cons_of_mem a hc)) (by omega)

theorem placed_punch {piece : Span} (hplaced : Placed (before ++ a :: after))
    (hinside : piece.Inside a) (hpiece : piece.first < piece.limit)
    (haligned : piece.limit < a.limit -> piece.limit % 8 = 0)
    (hfits : piece.limit < a.limit -> CellFits (piece.limit / 8)) :
    Placed (before ++ (a.without piece ++ after)) := by
  have ha : a ∈ before ++ a :: after := List.mem_append_right _ List.mem_cons_self
  have hrest : forall h, h ∈ before ++ (a.without piece ++ after) ->
      h ∈ before ++ a :: after ∨ h ∈ a.without piece := by
    intro h hh
    rcases List.mem_append.mp hh with hh | hh
    · exact Or.inl (List.mem_append_left _ hh)
    · rcases List.mem_append.mp hh with hh | hh
      · exact Or.inr hh
      · exact Or.inl (List.mem_append_right _ (List.mem_cons_of_mem a hh))
  refine ⟨hplaced.valid.punch hinside hpiece, fun h hh => ?_, fun h hh => ?_, fun h hh => ?_⟩
  · rcases hrest h hh with hh | hh
    · exact hplaced.aligned h hh
    · rcases mem_without hh with ⟨_, rfl⟩ | ⟨hbehind, rfl⟩
      · exact hplaced.aligned a ha
      · exact haligned hbehind
  · rcases hrest h hh with hh | hh
    · exact hplaced.fits h hh
    · rcases mem_without hh with ⟨_, rfl⟩ | ⟨hbehind, rfl⟩
      · exact hplaced.fits a ha
      · exact hfits hbehind
  · have hlimit := hplaced.limit a ha
    rcases hrest h hh with hh | hh
    · exact hplaced.limit h hh
    · unfold Span.Inside at hinside
      rcases mem_without hh with ⟨_, rfl⟩ | ⟨_, rfl⟩
      · exact Nat.lt_of_le_of_lt (Nat.le_of_lt (Nat.lt_of_lt_of_le hpiece hinside.2)) hlimit
      · exact hlimit

theorem fixHoles_spec {offset8 len : Nat} (hplaced : Placed (before ++ a :: after))
    (hlist : FrontList s (before ++ a :: after) 0)
    (hinside : Span.Inside ⟨8 * offset8, 8 * offset8 + len⟩ a) (hlen : 0 < len)
    (hcut : 8 * offset8 + len < a.limit -> len % 8 = 0)
    (hnew : Placed (before ++ (a.without ⟨8 * offset8, 8 * offset8 + len⟩ ++ after)))
    (hfound : a.first = 8 * offset8 -> before ≠ [] -> Places.last 0 (places before) ≠ 0) :
    exists s', s.fixHoles (a.first / 8) offset8 len = some (s',
        decide (before ++ (a.without ⟨8 * offset8, 8 * offset8 + len⟩ ++ after) = [])) ∧
      OnlyCells (fun i => At (before ++ a :: after) i ∨
        At (before ++ (a.without ⟨8 * offset8, 8 * offset8 + len⟩ ++ after)) i) s.pktBuff
          s'.pktBuff ∧
      s'.totalLen = s.totalLen ∧
      (before ++ (a.without ⟨8 * offset8, 8 * offset8 + len⟩ ++ after) ≠ [] ->
        FrontList s' (before ++ (a.without ⟨8 * offset8, 8 * offset8 + len⟩ ++ after)) 0) := by
  have ha : a ∈ before ++ a :: after := List.mem_append_right _ List.mem_cons_self
  have hself : At (before ++ a :: after) (a.first / 8) := ⟨a, ha, rfl⟩
  have hfits : CellFits (a.first / 8) := hplaced.fits a ha
  have haligned := hplaced.aligned a ha
  have hbound := hplaced.limit a ha
  have hlimit : (holeAt s.pktBuff (a.first / 8)).lastByte.toNat = a.limit :=
    congrArg ListCell.value hlist.inList.cell
  have hbegin := hinside.1
  have hend := hinside.2
  dsimp only at hbegin hend
  unfold Span.without at hnew ⊢
  dsimp only at hnew ⊢
  unfold Defrag.fixHoles
  rw [hole_eq hfits, Option.bind_eq_bind, Option.bind_some, hlimit, Nat.mul_comm offset8 8]
  by_cases hfront : a.first < 8 * offset8
  · have hnot : ¬ offset8 ≤ a.first / 8 := by omega
    rw [if_pos hfront] at hnew ⊢
    rw [if_neg (fun hboth => hnot hboth.1)]
    by_cases hbehind : 8 * offset8 + len < a.limit
    · -- the fragment sits in the middle
      have hplace : 8 * offset8 + len = 8 * (offset8 + len / 8) := by
        have hcut := hcut hbehind
        omega
      rw [if_pos hbehind] at hnew ⊢
      rw [if_neg (Nat.not_le.mpr hbehind), if_neg hnot]
      rw [hplace] at hnew ⊢
      rcases splitHole_spec hplaced hlist (by omega) hnew with ⟨s', hs', hcells, htotal, hlist'⟩
      refine ⟨s', ?_, hcells.mono (fun i => Or.inr), htotal, fun _ => hlist'⟩
      rw [hs', decide_eq_false (by simp)]
      rfl
    · -- the last part of the hole
      rw [if_neg hbehind, List.append_nil] at hnew ⊢
      rw [if_pos (Nat.le_of_not_lt hbehind), change_eq _ hfits]
      have hword : (BitVec.ofNat 16 (8 * offset8)).toNat = 8 * offset8 := by
        rw [BitVec.toNat_ofNat, Nat.mod_eq_of_lt (by omega)]
      have hlist' := relimit_spec (x := BitVec.ofNat 16 (8 * offset8)) hplaced hlist
      rw [hword] at hlist'
      refine ⟨_, ?_, (onlyCells_put s _ (Or.inl hself)), rfl, fun _ => hlist'⟩
      rw [decide_eq_false (by simp)]
      rfl
  · have hat : a.first = 8 * offset8 := by omega
    have hle : offset8 ≤ a.first / 8 := by omega
    rw [if_neg hfront, List.nil_append] at hnew ⊢
    by_cases hbehind : 8 * offset8 + len < a.limit
    · -- the first part of the hole
      have hplace : 8 * offset8 + len = 8 * (offset8 + len / 8) := by
        have hcut := hcut hbehind
        omega
      rw [if_pos hbehind] at hnew ⊢
      rw [if_neg (fun hboth => Nat.not_le.mpr hbehind hboth.2),
        if_neg (Nat.not_le.mpr hbehind), if_pos hle]
      rw [hplace] at hnew ⊢
      rcases moveHole_spec hplaced hlist.inList (hfound hat) hnew with
        ⟨s', hs', hcells, htotal, hlist'⟩
      refine ⟨s', ?_, hcells.mono (fun i => Or.inr), htotal, fun _ => hlist'⟩
      rw [hs', decide_eq_false (by simp)]
      rfl
    · -- the whole hole
      rw [if_neg hbehind, List.nil_append] at hnew ⊢
      rw [if_pos ⟨hle, Nat.le_of_not_lt hbehind⟩]
      rcases removeHole_spec hplaced hlist.inList (hfound hat) with
        ⟨s', hs', hcells, htotal, hlist'⟩
      exact ⟨s', hs', hcells.mono (fun i => Or.inr), htotal, hlist'⟩

end Network
end Bab750
