import Bab750.Network.Reassembly

/-!
# A first fragment that is late

The place of the first hole of a packet is zero, and a link that is zero stands for the end of
the list. When all the pieces but the first one come in order, the hole behind them takes itself
for the only one: what it ends with is passed on as a packet, without the first piece.
-/

namespace Bab750
namespace Network

open Foundation

variable {d : CutDatagram} {header ip : Buffer} {s s' : Defrag} {k : Nat}
  {frags : List (Buffer × Nat)}

/-- The hole behind the last piece that came has no neighbours. -/
structure Lost (d : CutDatagram) (k : Nat) (s : Defrag) : Prop where
  hole : cellOf (holeAt s.pktBuff (d.place k / 8)) = ⟨65535, 0, 0⟩
  found : s.findHole (d.place k) (2 ^ 16) s.firstHole.toNat = some (some (d.place k / 8))
  own : For d s

theorem CutDatagram.cell_fits (d : CutDatagram) (hk : k < d.count) :
    CellFits (d.place k / 8) := by
  have hlt := d.place_ascending k hk
  have hlimit := d.place_limit (show k + 1 ≤ d.count from hk)
  have haligned := d.place_aligned hk
  unfold ipMaxudp ipPktsize ipHdrSizeNoUdp at hlimit
  unfold CellFits payloadAt ipPktsize ipHdrSizeNoUdp
  omega

theorem CutDatagram.placed_behind (d : CutDatagram) (hk : k < d.count) :
    Placed [⟨d.place k, 65535⟩] := by
  have hopen : d.place k < 65535 := Nat.lt_of_le_of_lt (d.place_limit (Nat.le_of_lt hk))
    (by decide)
  constructor
  · exact holes_cons.mpr ⟨hopen, fun h hh => absurd hh List.not_mem_nil, holes_nil⟩
  · intro h hh
    rw [List.mem_singleton.mp hh]
    exact d.place_aligned hk
  · intro h hh
    rw [List.mem_singleton.mp hh]
    exact d.cell_fits hk
  · intro h hh
    rw [List.mem_singleton.mp hh]
    exact (by decide : 65535 < 65536)

theorem lost_of_list (hk : k < d.count) (hlist : FrontList s [⟨d.place k, 65535⟩] 0)
    (hown : For d s) : Lost d k s := by
  have hreach : d.place k ≤ 65535 := (d.place_limit (Nat.le_of_lt hk)).trans (by decide)
  have hcell := hlist.linked.1
  refine ⟨hcell, ?_, hown⟩
  have hplaced : Placed ([] ++ ⟨d.place k, 65535⟩ :: []) := d.placed_behind hk
  rw [hlist.first]
  exact findHole_found hplaced hlist.linked (fun b hb => absurd hb List.not_mem_nil) hreach
    (Nat.le_add_right _ _)

/-- The piece behind the first one leaves two holes, and the place of the first one is zero. -/
theorem lost_second (h : Held d header [1] s) (hid : shortAt header 4 = d.id)
    (hthree : 2 < d.count) : Lost d 2 s := by
  have hone : 1 < d.count := d.several
  have hfirst : 0 < d.place 1 := d.place_ascending 0 (Nat.zero_lt_of_lt hone)
  have hsecond : d.place 1 < d.place 2 := d.place_ascending 1 hone
  have hreach : d.place 2 ≤ 65535 := (d.place_limit (Nat.le_of_lt hthree)).trans (by decide)
  have hend : d.place 2 < 65535 := Nat.lt_of_le_of_lt (d.place_limit (Nat.le_of_lt hthree))
    (by decide)
  have hspan : d.span 1 = ⟨d.place 1, d.place 2⟩ := by
    unfold CutDatagram.span
    rw [d.cut_place hone, d.cut_place hthree]
  have htwo : Holes [⟨0, d.place 1⟩, ⟨d.place 2, 65535⟩] := by
    refine holes_cons.mpr ⟨hfirst, fun h hh => ?_, holes_cons.mpr
      ⟨hend, fun h hh => absurd hh List.not_mem_nil, holes_nil⟩⟩
    rw [List.mem_singleton.mp hh]
    exact hsecond
  rcases h.list with ⟨holes, hlists⟩
  have hholes : holes = [⟨0, d.place 1⟩, ⟨d.place 2, 65535⟩] := by
    refine hlists.placed.valid.ext htwo (fun n => ?_)
    rw [hlists.missing, d.missing_cons hone, d.missing_nil, hspan, missing_cons, missing_cons]
    unfold Missing Span.Has
    simp only [List.not_mem_nil, false_and, exists_false, or_false]
    omega
  subst hholes
  have hcell : cellOf (holeAt s.pktBuff (d.place 2 / 8)) = ⟨65535, 0, 0 / 8⟩ :=
    hlists.list.linked.2.1
  rw [Nat.zero_div] at hcell
  refine ⟨hcell, ?_, h.for hid⟩
  have hplaced : Placed ([⟨0, d.place 1⟩] ++ ⟨d.place 2, 65535⟩ :: []) := hlists.placed
  rw [hlists.list.first]
  refine findHole_found hplaced hlists.list.linked (fun b hb => ?_) hreach (Nat.le_add_right _ _)
  rw [List.mem_singleton.mp hb]
  exact hsecond

theorem For.only {cells : Nat -> Prop} (h : For d s)
    (hcells : OnlyCells cells s.pktBuff s'.pktBuff) (htotal : s'.totalLen = s.totalLen) :
    For d s' := by
  have hsame : forall j, j < ipHdrSizeNoUdp -> s'.pktBuff j = s.pktBuff j := fun j hj =>
    hcells j (fun i _ => Or.inl (Nat.lt_of_lt_of_le hj (Nat.le_add_right _ _)))
  exact ⟨htotal ▸ h.1, (shortAt_congr (hsame 4 (by decide)) (hsame 5 (by decide))).trans h.2⟩

theorem For.fill (h : For d s) (i : Nat) (bytes : List Byte) :
    For d (s.fill (payloadAt i) bytes) := by
  have hsame : forall j, j < ipHdrSizeNoUdp ->
      (s.fill (payloadAt i) bytes).pktBuff j = s.pktBuff j := fun j hj =>
    copyTo_outside s.pktBuff (Or.inl (Nat.lt_of_lt_of_le hj (Nat.le_add_right _ _)))
  exact ⟨h.1, (shortAt_congr (hsame 4 (by decide)) (hsame 5 (by decide))).trans h.2⟩

theorem Lost.inList (h : Lost d k s) :
    InList s [] ⟨d.place k, 65535⟩ [] s.firstHole.toNat := ⟨⟨trivial, rfl⟩, h.hole, trivial⟩

theorem Lost.insert (h : Lost d k s) (hfrag : IsFragment d k ip) {s₁ : Defrag} {done : Bool}
    (hfix : ((if shortAt ip 6 &&& ipFlagsMfrag = 0#16 then
          s.truncate (d.place k / 8) (d.place k + (d.piece k).length) else some s).bind
        fun s => s.fixHoles (d.place k / 8) (shortAt ip 6 &&& ipOffs).toNat (d.piece k).length) =
          some (s₁, done)) :
    s.insert ip (shortAt ip 6 &&& ipOffs).toNat (d.piece k).length =
      some ((s₁.fill (payloadAt (shortAt ip 6 &&& ipOffs).toNat)
        (bytesAt ip ipHdrSizeNoUdp (d.piece k).length)).finish done) := by
  have hoff := hfrag.offset
  have hpos := d.piece_pos hfrag.lt
  have hfound := h.found
  rw [← hoff, Nat.mul_comm] at hfound
  rw [← hoff, Nat.mul_comm 8] at hfix
  refine insert_found hfound (by omega) hfix

theorem Lost.next (h : Lost d k s) (hfrag : IsFragment d k ip) (hk : k + 1 < d.count) :
    exists s', s.insert ip (shortAt ip 6 &&& ipOffs).toNat (d.piece k).length = some (s', none) ∧
      Lost d (k + 1) s' := by
  have hoff := hfrag.offset
  have hpos := d.piece_pos hfrag.lt
  have haligned := d.piece_aligned hk
  have hplace := d.place_succ hfrag.lt
  have hlimit := d.place_limit (Nat.le_of_lt hk)
  have hbound : d.place (k + 1) < 65535 := Nat.lt_of_le_of_lt hlimit (by decide)
  have hmore : ¬ shortAt ip 6 &&& ipFlagsMfrag = 0#16 := fun hzero =>
    absurd (hfrag.more.mp hzero) (Nat.ne_of_lt hk)
  have hvalue : (holeAt s.pktBuff (d.place k / 8)).lastByte.toNat = 65535 :=
    congrArg ListCell.value h.hole
  have hnewh : 8 * ((shortAt ip 6 &&& ipOffs).toNat + (d.piece k).length / 8) =
      d.place (k + 1) := by omega
  have hplaced : Placed ([] ++ ⟨d.place k, 65535⟩ :: []) := d.placed_behind hfrag.lt
  have hmoved : Placed ([] ++ ⟨d.place (k + 1), 65535⟩ :: []) := d.placed_behind hk
  rw [← hnewh] at hmoved
  rcases moveHole_spec hplaced h.inList (fun hne => absurd rfl hne) hmoved with
    ⟨s₁, hs₁, hcells, htotal, hlist⟩
  have hfix : ((if shortAt ip 6 &&& ipFlagsMfrag = 0#16 then
        s.truncate (d.place k / 8) (d.place k + (d.piece k).length) else some s).bind
      fun s => s.fixHoles (d.place k / 8) (shortAt ip 6 &&& ipOffs).toNat (d.piece k).length) =
        some (s₁, false) := by
    rw [if_neg hmore, Option.bind_some]
    unfold Defrag.fixHoles
    rw [hole_eq (d.cell_fits hfrag.lt), Option.bind_eq_bind, Option.bind_some, hvalue,
      if_neg (fun hboth => absurd hboth.2 (by omega)), if_neg (by omega), if_pos (by omega), hs₁]
    rfl
  refine ⟨_, h.insert hfrag hfix, lost_of_list hk ?_ ?_⟩
  · rw [List.nil_append, hnewh] at hlist
    have hplaceAt : payloadAt (shortAt ip 6 &&& ipOffs).toNat = ipHdrSizeNoUdp + d.place k := by
      unfold payloadAt
      rw [hoff]
    rw [hplaceAt, hfrag.data]
    refine hlist.fill (d.placed_behind hk) (fun b hb => ?_)
    rw [List.mem_singleton.mp hb, ← hplace]
    exact Or.inr (Nat.le_refl _)
  · exact ((h.own.only hcells htotal).fill _ _)

/-- The hole ends with the last piece, and nothing is left for the first one. -/
theorem Lost.last (h : Lost d k s) (hfrag : IsFragment d k ip) (hk : k + 1 = d.count) :
    exists s' p, s.insert ip (shortAt ip 6 &&& ipOffs).toNat (d.piece k).length =
        some (s', some p) ∧ p.len = d.bytes.length + ipHdrSizeNoUdp := by
  have hoff := hfrag.offset
  have hfits := d.cell_fits hfrag.lt
  have hstop : d.place k + (d.piece k).length = d.bytes.length := by
    rw [← d.place_succ hfrag.lt, hk, d.place_count]
  have hword := d.bytes_toNat
  have hprev : (holeAt s.pktBuff (d.place k / 8)).prevHole = 0#16 :=
    toNat_eq_zero.mpr (congrArg ListCell.prev h.hole)
  have hnext : (holeAt s.pktBuff (d.place k / 8)).nextHole = 0#16 :=
    toNat_eq_zero.mpr (congrArg ListCell.next h.hole)
  have hfix : ((if shortAt ip 6 &&& ipFlagsMfrag = 0#16 then
        s.truncate (d.place k / 8) (d.place k + (d.piece k).length) else some s).bind
      fun s => s.fixHoles (d.place k / 8) (shortAt ip 6 &&& ipOffs).toNat (d.piece k).length) =
        some ({ s.put (d.place k / 8) { holeAt s.pktBuff (d.place k / 8) with
          lastByte := BitVec.ofNat 16 d.bytes.length } with
            totalLen := BitVec.ofNat 16 d.bytes.length }, true) := by
    rw [if_pos (hfrag.more.mpr hk), truncate_eq s hfits, hstop, Option.bind_some]
    unfold Defrag.fixHoles
    rw [hole_eq hfits, Option.bind_eq_bind, Option.bind_some]
    dsimp only
    rw [holeAt_put_same]
    dsimp only
    rw [hword, if_pos (by omega)]
    unfold Defrag.removeHole
    rw [if_pos ⟨hprev, hnext⟩]
  have hinsert := h.insert hfrag hfix
  refine ⟨_, _, hinsert, ?_⟩
  show (BitVec.ofNat 16 d.bytes.length).toNat + ipHdrSizeNoUdp = _
  rw [hword]

theorem lost_run {n : Nat} (h : Lost d k s) (hcount : d.count = k + n + 1)
    (hfrags : AreFragments d (List.range' k (n + 1)) frags) :
    exists s' p, netDefragmentAll s frags = some (s', List.replicate n none ++ [some p]) ∧
      p.len = d.bytes.length + ipHdrSizeNoUdp := by
  induction n generalizing k s frags with
  | zero =>
      rcases hfrags with _ | ⟨hfrag, hrest⟩
      rename_i f rest
      cases hrest
      rcases h.last hfrag hcount.symm with ⟨s', p, hs', hlen⟩
      refine ⟨s', p, ?_, hlen⟩
      rw [netDefragmentAll_cons, netDefragment_for h.own hfrag, hs']
      rfl
  | succ n ih =>
      rcases hfrags with _ | ⟨hfrag, hrest⟩
      rename_i f rest
      rcases h.next hfrag (by omega) with ⟨s₁, hs₁, h₁⟩
      rcases ih h₁ (by omega) hrest with ⟨s', p, hs', hlen⟩
      refine ⟨s', p, ?_, hlen⟩
      rw [netDefragmentAll_cons, netDefragment_for h.own hfrag, hs₁, Option.bind_some, hs']
      rfl

/--
All the pieces but the first one, in order: with the last of them there is a packet of the whole
length, and the first piece has not come.
-/
theorem late_first_fragment (d : CutDatagram) (hthree : 2 < d.count) (s : Defrag)
    (hnew : s.totalLen = 0#16 ∨ shortAt s.pktBuff 4 ≠ d.id)
    (hfrags : AreFragments d (List.range' 1 (d.count - 1)) frags) :
    exists s' p, netDefragmentAll s frags =
        some (s', List.replicate (d.count - 2) none ++ [some p]) ∧
      p.len = d.bytes.length + ipHdrSizeNoUdp := by
  have hsplit : d.count - 1 = (d.count - 3) + 1 + 1 := by omega
  rw [hsplit] at hfrags
  rcases hfrags with _ | ⟨hfrag, hrest⟩
  rename_i f rest
  rcases netDefragment_first hnew hfrag f.2 with ⟨s₀, h₀, hfirst⟩
  have hintime : InTime [] 1 := Or.inr (Or.inr (Or.inr (Or.inl List.not_mem_nil)))
  rcases netDefragment_open h₀ hfrag.id hfrag hintime
    (not_complete_of_missing (m := 0) (Nat.zero_lt_of_lt hthree) (by decide)) f.2 with
    ⟨s₁, hs₁, h₁⟩
  rcases lost_run (lost_second h₁ hfrag.id hthree) (by omega) hrest with ⟨s', p, hs', hlen⟩
  refine ⟨s', p, ?_, hlen⟩
  have hcount : d.count - 2 = (d.count - 3) + 1 := by omega
  rw [netDefragmentAll_cons, hfirst, hs₁, Option.bind_some, hs', hcount]
  rfl

theorem late_first_fragment_sample : exists s' p,
    netDefragmentAll emptyDefrag [sampleFragment 0x20#8 1#8 (List.replicate 8 2#8),
      sampleFragment 0#8 2#8 [3#8, 4#8, 5#8]] = some (s', [none, some p]) ∧ p.len = 39 := by
  rcases sample_fragments with _ | ⟨_, _ | ⟨hlast, _ | ⟨_, _ | ⟨hsecond, _⟩⟩⟩⟩
  exact late_first_fragment sampleCut (by decide) emptyDefrag (Or.inl rfl)
    (.cons hsecond (.cons hlast .nil))

end Network
end Bab750
