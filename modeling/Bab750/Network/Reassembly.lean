import Bab750.Network.HoleList
import Bab750.Network.Pieces

/-!
# Datagrams from fragments

The fragments of a datagram come in some order, and some of them more than once. Until each of
them has come there is no packet, and then there is one with the bytes of the datagram.
-/

namespace Bab750
namespace Network

open Foundation

/-!
# What is held of a datagram
-/

structure Lists (d : CutDatagram) (received : List Nat) (s : Defrag) (holes : List Span) :
    Prop where
  placed : Placed holes
  list : FrontList s holes 0
  missing : forall n, Missing holes n <-> d.Missing received n

/-- The pieces that have come are in the buffer, behind the header of the first one. -/
structure Collected (d : CutDatagram) (header : Buffer) (received : List Nat) (s : Defrag) :
    Prop where
  header : forall j, j < ipHdrSizeNoUdp -> s.pktBuff j = header j
  total : s.totalLen = d.total received
  data : forall k, k ∈ received -> k < d.count ->
    bytesAt s.pktBuff (ipHdrSizeNoUdp + d.place k) (d.piece k).length = d.piece k

structure Held (d : CutDatagram) (header : Buffer) (received : List Nat) (s : Defrag) : Prop where
  collected : Collected d header received s
  list : exists holes, Lists d received s holes

/--
The hole at the start is no longer in the list when the hole behind it goes or moves: its place
is taken for the end of the list. A new piece has to come in time for that.
-/
def InTime (received : List Nat) (k : Nat) : Prop :=
  0 ∈ received ∨ k ∈ received ∨ k = 0 ∨ k - 1 ∉ received ∨
    exists i j, i < j ∧ j < k ∧ i ∈ received ∧ j ∉ received

def AllInTime (received : List Nat) : List Nat -> Prop
  | [] => True
  | k :: ks => InTime received k ∧ AllInTime (k :: received) ks

variable {d : CutDatagram} {header ip buf buf' : Buffer} {received : List Nat} {s s' : Defrag}
  {holes before after : List Span} {a : Span} {k n : Nat} {cells : Nat -> Prop}

theorem missing_first (hplaced : Placed holes) (hall : forall n, Missing holes n ->
    d.Missing received n) {h : Span} (hh : h ∈ holes) : d.Missing received h.first :=
  hall h.first ⟨h, hh, Nat.le_refl _, hplaced.valid.each h hh⟩

theorem missing_descriptor (hplaced : Placed holes) (hall : forall n, Missing holes n ->
    d.Missing received n) {i m : Nat} (hi : At holes i) (hm : m < 8) :
    d.Missing received (8 * i + m) := by
  rcases hi with ⟨h, hh, rfl⟩
  have haligned := hplaced.aligned h hh
  have hfits := hplaced.fits h hh
  unfold CellFits payloadAt ipPktsize ipHdrSizeNoUdp at hfits
  have hfirst : 8 * (h.first / 8) = h.first := by omega
  rw [hfirst]
  exact d.missing_block (missing_first hplaced hall hh) haligned (by omega) hm

def OnlyMissing (d : CutDatagram) (received : List Nat) (buf buf' : Buffer) : Prop :=
  forall j, (forall n, j = ipHdrSizeNoUdp + n -> ¬ d.Missing received n) -> buf' j = buf j

theorem OnlyCells.missing (h : OnlyCells cells buf buf')
    (hcells : forall i, cells i -> forall m, m < 8 -> d.Missing received (8 * i + m)) :
    OnlyMissing d received buf buf' := by
  intro j hj
  refine h j (fun i hi => ?_)
  rcases Nat.lt_or_ge j (payloadAt i) with hlt | hge
  · exact Or.inl hlt
  · right
    apply Nat.le_of_not_lt
    intro hlt
    unfold payloadAt at hge hlt
    refine hj (8 * i + (j - ipHdrSizeNoUdp - 8 * i)) (by omega) (hcells i hi _ (by omega))

theorem FrontList.fill {start : Nat} {bytes : List Byte} (hplaced : Placed holes)
    (hlist : FrontList s holes n) (hclear : forall h, h ∈ holes ->
      h.first + 8 ≤ start ∨ start + bytes.length ≤ h.first) :
    FrontList (s.fill (ipHdrSizeNoUdp + start) bytes) holes n := by
  refine ⟨hlist.linked.congr (fun node hnode => ?_), hlist.first⟩
  rcases List.mem_map.mp hnode with ⟨h, hh, rfl⟩
  have hclear := hclear h hh
  have haligned := hplaced.aligned h hh
  refine cellsOf_congr (fun m hm => copyTo_outside s.pktBuff ?_)
  show payloadAt (h.first / 8) + m < _ ∨ _ ≤ payloadAt (h.first / 8) + m
  unfold payloadAt
  omega

theorem inTime_link (hplaced : Placed (before ++ a :: after))
    (hall : forall n, Missing (before ++ a :: after) n <-> d.Missing received n)
    (hintime : InTime received k) (hk : k < d.count) (hnew : k ∉ received)
    (ha : a.first = d.place k) (hne : before ≠ []) : Places.last 0 (places before) ≠ 0 := by
  rcases List.eq_nil_or_concat before with rfl | ⟨front, b, rfl⟩
  · exact absurd rfl hne
  rw [List.concat_eq_append] at *
  have hb : b ∈ (front ++ [b]) ++ a :: after :=
    List.mem_append_left _ (List.mem_append_right _ (List.mem_singleton.mpr rfl))
  have haligned := hplaced.aligned b hb
  rw [last_snoc]
  intro hzero
  have hfirst : b.first = 0 := by omega
  rcases holes_append.mp hplaced.valid with ⟨hbefore, _, hacross⟩
  have hba : b.limit < a.first :=
    hacross b (List.mem_append_right _ (List.mem_singleton.mpr rfl)) a List.mem_cons_self
  have hplace : forall i, i < d.count -> (d.span i).Has (d.place i) := by
    intro i hi
    have hopen := d.span_open hi
    have hcut : (d.span i).first = d.place i := d.cut_place hi
    exact ⟨Nat.le_of_eq hcut, hcut ▸ hopen⟩
  have hmissing : forall i, i < d.count -> d.Missing received (d.place i) -> i ∉ received := by
    rintro i hi ⟨l, hl, hnot, hhas⟩
    exact d.span_unique hl hi hhas (hplace i hi) ▸ hnot
  -- what is in front of the piece and missing is in the hole at the start
  have hin : forall n, n < a.first -> d.Missing received n -> n < b.limit := by
    intro n hn hmiss
    rcases missing_append.mp ((hall n).mpr hmiss) with ⟨c, hc, hhas⟩ | hback
    · rcases List.mem_append.mp hc with hc | hc
      · have hlt := (holes_append.mp hbefore).2.2 c hc b (List.mem_singleton.mpr rfl)
        omega
      · exact List.mem_singleton.mp hc ▸ hhas.2
    · rcases missing_cons.mp hback with hhas | ⟨c, hc, hhas⟩
      · exact absurd hn (Nat.not_lt.mpr hhas.1)
      · have hbehind := (holes_cons.mp (holes_append.mp hplaced.valid).2.1).2.1 c hc
        have hopen := hplaced.valid.each a (List.mem_append_right _ List.mem_cons_self)
        have hfar := hhas.1
        omega
  have hout : forall n, n < b.limit -> d.Missing received n := fun n hn =>
    (hall n).mp ⟨b, hb, by unfold Span.Has; omega⟩
  have hzero : 0 ∉ received := by
    refine hmissing 0 (Nat.zero_lt_of_lt hk) ?_
    rw [d.place_zero]
    exact hout 0 (hfirst ▸ hplaced.valid.each b hb)
  rcases hintime with hheld | hheld | hstart | hprev | ⟨i, j, hij, hjk, hi, hj⟩
  · exact hzero hheld
  · exact hnew hheld
  · rw [hstart, d.place_zero] at ha
    omega
  · cases k with
    | zero =>
        rw [d.place_zero] at ha
        omega
    | succ k =>
        have hk' : k < d.count := Nat.lt_of_succ_lt hk
        have hlt := d.place_ascending k hk'
        refine hplaced.valid.front (n := d.place (k + 1) - 1) (by omega) ((hall _).mpr
          ⟨k, hk', hprev, ?_⟩)
        have hcut : (d.span k).first = d.place k := d.cut_place hk'
        have hcut' : (d.span k).limit = d.place (k + 1) := d.cut_place hk
        unfold Span.Has
        omega
  · have hik : i < d.count := (hij.trans hjk).trans hk
    have hjk' : j < d.count := hjk.trans hk
    have hplaces : d.place i < d.place j := by
      have hstep := d.place_ascending i hik
      have hle := d.place_ascending.le (Nat.succ_le_of_lt hij) (Nat.le_of_lt hjk')
      exact Nat.lt_of_lt_of_le hstep hle
    have hplaces' : d.place j < d.place k := by
      have hstep := d.place_ascending j hjk'
      have hle := d.place_ascending.le (Nat.succ_le_of_lt hjk) (Nat.le_of_lt hk)
      exact Nat.lt_of_lt_of_le hstep hle
    have hlimit := hin (d.place j) (ha ▸ hplaces') ⟨j, hjk', hj, hplace j hjk'⟩
    exact hmissing i hik (hout _ (hplaces.trans hlimit)) hi

theorem truncate_eq (s : Defrag) {i stop : Nat} (hi : CellFits i) : s.truncate i stop =
    some { s.put i { holeAt s.pktBuff i with lastByte := BitVec.ofNat 16 stop } with
      totalLen := BitVec.ofNat 16 stop } := change_eq _ hi

theorem placed_relimit {x : Nat} (hplaced : Placed (before ++ [a])) (hfirst : a.first < x)
    (hx : x < 65536) : Placed (before ++ [⟨a.first, x⟩]) := by
  rcases holes_append.mp hplaced.valid with ⟨hbefore, _, hacross⟩
  have ha : a ∈ before ++ [a] := List.mem_append_right _ (List.mem_singleton.mpr rfl)
  refine ⟨holes_append.mpr ⟨hbefore, holes_cons.mpr ⟨hfirst, fun k hk => absurd hk
    List.not_mem_nil, holes_nil⟩, fun h hh k hk => ?_⟩, fun h hh => ?_, fun h hh => ?_,
    fun h hh => ?_⟩
  · rw [List.mem_singleton.mp hk]
    exact hacross h hh a (List.mem_singleton.mpr rfl)
  · rcases List.mem_append.mp hh with hh | hh
    · exact hplaced.aligned h (List.mem_append_left _ hh)
    · rw [List.mem_singleton.mp hh]
      exact hplaced.aligned a ha
  · rcases List.mem_append.mp hh with hh | hh
    · exact hplaced.fits h (List.mem_append_left _ hh)
    · rw [List.mem_singleton.mp hh]
      exact hplaced.fits a ha
  · rcases List.mem_append.mp hh with hh | hh
    · exact hplaced.limit h (List.mem_append_left _ hh)
    · rw [List.mem_singleton.mp hh]
      exact hx

theorem Lists.last_hole (h : Lists d received s (before ++ a :: after)) (hk : k + 1 = d.count)
    (hinside : (d.span k).Inside a) : a.limit = 65535 ∧ after = [] := by
  have hbound : forall b, b ∈ before ++ a :: after -> b.limit ≤ 65535 := by
    intro b hb
    have hopen := h.placed.valid.each b hb
    rcases (h.missing (b.limit - 1)).mp ⟨b, hb, by unfold Span.Has; omega⟩ with ⟨l, hl, _, hhas⟩
    have hlimit := d.span_limit hl
    have hlt := hhas.2
    omega
  have ha := hbound a (List.mem_append_right _ List.mem_cons_self)
  have hend := hinside.2
  rw [d.span_last hk] at hend
  have heq : a.limit = 65535 := Nat.le_antisymm ha hend
  refine ⟨heq, ?_⟩
  cases after with
  | nil => rfl
  | cons b after =>
      have hb : b ∈ before ++ a :: b :: after :=
        List.mem_append_right _ (List.mem_cons_of_mem a List.mem_cons_self)
      have hbehind := (holes_cons.mp (holes_append.mp h.placed.valid).2.1).2.1 b
        List.mem_cons_self
      have hopen := h.placed.valid.each b hb
      have hlimit := hbound b hb
      omega

theorem Lists.punch (h : Lists d received s (before ++ a :: after)) (hk : k < d.count)
    (hinside : (d.span k).Inside a) :
    Placed (before ++ (a.without (d.span k) ++ after)) ∧
      forall n, Missing (before ++ (a.without (d.span k) ++ after)) n <->
        d.Missing (k :: received) n := by
  have hopen := d.span_open hk
  constructor
  · rcases Nat.lt_or_eq_of_le (Nat.succ_le_of_lt hk) with hinner | hlast
    · have haligned := d.place_aligned hinner
      have hlimit : (d.span k).limit = d.place (k + 1) := d.cut_place hinner
      have hfits : d.place (k + 1) < ipMaxudp := by
        have hlt := d.place_ascending (k + 1) hinner
        exact Nat.lt_of_lt_of_le hlt (d.place_limit (Nat.succ_le_of_lt hinner))
      refine placed_punch h.placed hinside hopen (fun _ => by rw [hlimit]; exact haligned)
        (fun _ => ?_)
      rw [hlimit]
      unfold ipMaxudp ipPktsize ipHdrSizeNoUdp at hfits
      unfold CellFits payloadAt ipPktsize ipHdrSizeNoUdp
      have hsucc : k.succ = k + 1 := rfl
      omega
    · have hend := (h.last_hole hlast hinside).1
      have hlimit : (d.span k).limit = 65535 := by rw [d.span_last hlast]
      exact placed_punch h.placed hinside hopen (fun hlt => by omega) (fun hlt => by omega)
  · intro n
    rw [missing_punch h.placed.valid hinside hopen, h.missing, d.missing_cons hk]

theorem Lists.onlyMissing {new : List Span} (h : Lists d received s holes)
    (hplaced : Placed new) (hnew : forall n, Missing new n <-> d.Missing (k :: received) n)
    (hk : k < d.count)
    (hcells : OnlyCells (fun i => At holes i ∨ At new i) buf buf') :
    OnlyMissing d received buf buf' := by
  refine hcells.missing (fun i hi m hm => ?_)
  rcases hi with hi | hi
  · exact missing_descriptor h.placed (fun n => (h.missing n).mp) hi hm
  · exact missing_descriptor hplaced
      (fun n hn => ((d.missing_cons hk).mp ((hnew n).mp hn)).1) hi hm

theorem at_relimit {x i : Nat} (hi : At (before ++ [⟨a.first, x⟩]) i) : At (before ++ [a]) i := by
  rcases at_append.mp hi with hi | hi
  · exact at_append.mpr (Or.inl hi)
  · rcases at_cons.mp hi with hi | ⟨b, hb, _⟩
    · exact at_append.mpr (Or.inr (at_cons.mpr (Or.inl hi)))
    · exact absurd hb List.not_mem_nil

/-- The last piece says where the last hole ends, and is a piece of it. -/
theorem truncate_last (h : Lists d received s (before ++ [a])) (hfrag : IsFragment d k ip)
    (hlast : k + 1 = d.count) (hfirst : a.first ≤ d.place k) :
    exists s', s.truncate (a.first / 8) (d.place k + (d.piece k).length) = some s' ∧
      Placed (before ++ [⟨a.first, d.bytes.length⟩]) ∧
      FrontList s' (before ++ [⟨a.first, d.bytes.length⟩]) 0 ∧
      OnlyCells (At (before ++ [a])) s.pktBuff s'.pktBuff ∧
      s'.totalLen = BitVec.ofNat 16 d.bytes.length ∧
      8 * (shortAt ip 6 &&& ipOffs).toNat = d.place k ∧
      d.place k + (d.piece k).length = d.bytes.length := by
  have hpos := d.piece_pos hfrag.lt
  have hself : a ∈ before ++ [a] := List.mem_append_right _ (List.mem_singleton.mpr rfl)
  have hstop : d.place k + (d.piece k).length = d.bytes.length := by
    rw [← d.place_succ hfrag.lt, hlast, d.place_count]
  have hlist := relimit_spec (x := BitVec.ofNat 16 d.bytes.length) h.placed h.list
  rw [d.bytes_toNat] at hlist
  refine ⟨{ s.put (a.first / 8) { holeAt s.pktBuff (a.first / 8) with
      lastByte := BitVec.ofNat 16 d.bytes.length } with
        totalLen := BitVec.ofNat 16 d.bytes.length }, ?_,
    placed_relimit h.placed (by omega) d.bytes_lt, ⟨hlist.linked, hlist.first⟩,
    onlyCells_put s _ ⟨a, hself, rfl⟩, rfl, hfrag.offset, hstop⟩
  rw [hstop, truncate_eq s (h.placed.fits a hself)]

theorem fix_new (h : Lists d received s (before ++ a :: after)) (hfrag : IsFragment d k ip)
    (hnew : k ∉ received) (hintime : InTime received k) (hinside : (d.span k).Inside a) :
    exists s' new, ((if shortAt ip 6 &&& ipFlagsMfrag = 0#16 then
          s.truncate (a.first / 8) (d.place k + (d.piece k).length) else some s).bind
        fun s => s.fixHoles (a.first / 8) (shortAt ip 6 &&& ipOffs).toNat (d.piece k).length) =
          some (s', decide (new = [])) ∧
      Placed new ∧ (forall n, Missing new n <-> d.Missing (k :: received) n) ∧
      OnlyMissing d received s.pktBuff s'.pktBuff ∧
      s'.totalLen = (if k + 1 = d.count then BitVec.ofNat 16 d.bytes.length else s.totalLen) ∧
      (new ≠ [] -> FrontList s' new 0) := by
  have hk := hfrag.lt
  have hopen := d.span_open hk
  have hpos := d.piece_pos hk
  have haround := h.punch hk hinside
  have hcutk : (d.span k).first = d.place k := d.cut_place hk
  have hlink : a.first = 8 * (shortAt ip 6 &&& ipOffs).toNat -> before ≠ [] ->
      Places.last 0 (places before) ≠ 0 := fun ha hne =>
    inTime_link h.placed h.missing hintime hk hnew (ha.trans hfrag.offset) hne
  rcases Nat.lt_or_eq_of_le (Nat.succ_le_of_lt hk) with hinner | hlast
  · have hspan : d.span k = ⟨8 * (shortAt ip 6 &&& ipOffs).toNat,
        8 * (shortAt ip 6 &&& ipOffs).toNat + (d.piece k).length⟩ := by
      rw [hfrag.offset, d.span_inner hinner]
    have hmore : ¬ shortAt ip 6 &&& ipFlagsMfrag = 0#16 := fun hzero =>
      absurd (hfrag.more.mp hzero) (Nat.ne_of_lt hinner)
    rw [hspan] at hinside haround
    rcases fixHoles_spec h.placed h.list hinside hpos (fun _ => d.piece_aligned hinner)
      haround.1 hlink with ⟨s', hs', hcells, htotal, hlist⟩
    refine ⟨s', _, ?_, haround.1, haround.2, h.onlyMissing haround.1 haround.2 hk hcells, ?_,
      hlist⟩
    · rw [if_neg hmore, Option.bind_some]
      exact hs'
    · rw [if_neg (Nat.ne_of_lt hinner)]
      exact htotal
  · have hlast : k + 1 = d.count := hlast
    rcases h.last_hole hlast hinside with ⟨hlimit, rfl⟩
    rcases truncate_last h hfrag hlast (hcutk ▸ hinside.1) with
      ⟨s₀, hs₀, hplaced, hlist₀, hcells₀, htotal₀, hoff, hstop⟩
    -- the hole that is cut off leaves the same as the one without an end
    have hwithout : Span.without ⟨a.first, d.bytes.length⟩
        ⟨8 * (shortAt ip 6 &&& ipOffs).toNat,
          8 * (shortAt ip 6 &&& ipOffs).toNat + (d.piece k).length⟩ = a.without (d.span k) := by
      unfold Span.without
      rw [hoff, hstop, d.span_last hlast, hlimit, if_neg (Nat.lt_irrefl _),
        if_neg (Nat.lt_irrefl _)]
    have hpiece : Span.Inside ⟨8 * (shortAt ip 6 &&& ipOffs).toNat,
        8 * (shortAt ip 6 &&& ipOffs).toNat + (d.piece k).length⟩ ⟨a.first, d.bytes.length⟩ := by
      rw [hoff, hstop]
      exact ⟨hcutk ▸ hinside.1, Nat.le_refl _⟩
    rcases fixHoles_spec hplaced hlist₀ hpiece hpos (fun hlt => absurd hlt (by
        rw [hoff, hstop]; exact Nat.lt_irrefl _)) (by rw [hwithout]; exact haround.1) hlink with
      ⟨s', hs', hcells, htotal, hlist'⟩
    rw [hwithout] at hs' hcells hlist'
    refine ⟨s', _, ?_, haround.1, haround.2, h.onlyMissing haround.1 haround.2 hk ?_, ?_, hlist'⟩
    · rw [if_pos (hfrag.more.mpr hlast), hs₀, Option.bind_some]
      exact hs'
    · refine (hcells₀.mono (fun i => Or.inl)).trans (hcells.mono (fun i => ?_))
      exact Or.imp at_relimit (fun hi => hi)
    · rw [if_pos hlast, htotal, htotal₀]

theorem bytesAt_copyTo (buf : Buffer) (i : Nat) (bytes : List Byte) :
    bytesAt (copyTo buf i bytes) i bytes.length = bytes := by
  unfold bytesAt
  refine List.ext_getElem (by rw [List.length_map, List.length_range]) (fun m hm hm' => ?_)
  rw [List.getElem_map, List.getElem_range]
  exact copyTo_at buf i (List.getElem?_eq_getElem hm')

theorem Collected.fill (h : Collected d header received s)
    (hfrag : IsFragment d k ip) (hsame : OnlyMissing d received s.pktBuff s'.pktBuff)
    (htotal : s'.totalLen = d.total (k :: received)) :
    Collected d header (k :: received)
      (s'.fill (payloadAt (shortAt ip 6 &&& ipOffs).toNat)
        (bytesAt ip ipHdrSizeNoUdp (d.piece k).length)) := by
  have hplace : payloadAt (shortAt ip 6 &&& ipOffs).toNat = ipHdrSizeNoUdp + d.place k := by
    unfold payloadAt
    rw [hfrag.offset]
  rw [hplace, hfrag.data]
  refine ⟨fun j hj => ?_, htotal, fun j hj hlt => ?_⟩
  · have hout : (s'.fill (ipHdrSizeNoUdp + d.place k) (d.piece k)).pktBuff j = s'.pktBuff j :=
      copyTo_outside s'.pktBuff (Or.inl (by omega))
    rw [hout, hsame j (fun n hn => by omega), h.header j hj]
  · by_cases hjk : j = k
    · rw [hjk]
      exact bytesAt_copyTo s'.pktBuff _ (d.piece k)
    · have hmem : j ∈ received := (List.mem_cons.mp hj).resolve_left hjk
      refine (bytesAt_congr (fun m hm => ?_)).trans (h.data j hmem hlt)
      have hout : (s'.fill (ipHdrSizeNoUdp + d.place k) (d.piece k)).pktBuff
          (ipHdrSizeNoUdp + d.place j + m) = s'.pktBuff (ipHdrSizeNoUdp + d.place j + m) := by
        refine copyTo_outside s'.pktBuff ?_
        rcases Nat.lt_or_gt_of_ne hjk with hbefore | hbehind
        · have hle := d.place_le_place hbefore (Nat.le_of_lt hfrag.lt)
          omega
        · have hle := d.place_le_place hbehind (Nat.le_of_lt hlt)
          omega
      rw [hout, hsame]
      intro n hn
      have heq : n = d.place j + m := by omega
      exact heq ▸ d.not_missing hlt hmem hm

theorem insert_found {s₁ : Defrag} {offset8 len i : Nat} {done : Bool}
    (hfind : s.findHole (offset8 * 8) (2 ^ 16) s.firstHole.toNat = some (some i))
    (hoverlap : ¬ offset8 + (len + 7) / 8 ≤ i)
    (hfix : ((if shortAt ip 6 &&& ipFlagsMfrag = 0#16 then s.truncate i (offset8 * 8 + len)
      else some s).bind fun s => s.fixHoles i offset8 len) = some (s₁, done)) :
    s.insert ip offset8 len =
      some ((s₁.fill (payloadAt offset8) (bytesAt ip ipHdrSizeNoUdp len)).finish done) := by
  unfold Defrag.insert
  rw [hfind]
  simp only [Option.bind_eq_bind, Option.bind_some]
  rw [if_neg hoverlap, ← Option.bind_assoc, hfix, Option.bind_some]

theorem Lists.fill {holes : List Span} (hplaced : Placed holes) (hlist : FrontList s holes 0)
    (hmissing : forall n, Missing holes n <-> d.Missing received n)
    (hfrag : IsFragment d k ip) (hmem : k ∈ received) :
    Lists d received (s.fill (payloadAt (shortAt ip 6 &&& ipOffs).toNat)
      (bytesAt ip ipHdrSizeNoUdp (d.piece k).length)) holes := by
  have hplace : payloadAt (shortAt ip 6 &&& ipOffs).toNat = ipHdrSizeNoUdp + d.place k := by
    unfold payloadAt
    rw [hfrag.offset]
  refine ⟨hplaced, ?_, hmissing⟩
  rw [hplace, hfrag.data]
  refine hlist.fill hplaced (fun h hh => ?_)
  apply Classical.byContradiction
  intro hnot
  -- a byte in both of them would be missing and not missing
  have haligned := hplaced.aligned h hh
  rcases Nat.le_total h.first (d.place k) with hle | hle
  · have hmiss := missing_descriptor hplaced (fun n => (hmissing n).mp) ⟨h, hh, rfl⟩
      (m := d.place k - h.first) (by omega)
    have heq : 8 * (h.first / 8) + (d.place k - h.first) = d.place k + 0 := by omega
    rw [heq] at hmiss
    exact d.not_missing hfrag.lt hmem (d.piece_pos hfrag.lt) hmiss
  · have hmiss := missing_first hplaced (fun n => (hmissing n).mp) hh
    have heq : h.first = d.place k + (h.first - d.place k) := by omega
    rw [heq] at hmiss
    exact d.not_missing hfrag.lt hmem (by omega) hmiss

theorem insert_new (h : Held d header received s) (hfrag : IsFragment d k ip)
    (hnew : k ∉ received) (hintime : InTime received k) :
    exists s' new, s.insert ip (shortAt ip 6 &&& ipOffs).toNat (d.piece k).length =
        some (s'.finish (decide (new = []))) ∧
      Collected d header (k :: received) s' ∧
      (forall n, Missing new n <-> d.Missing (k :: received) n) ∧
      (new ≠ [] -> Lists d (k :: received) s' new) := by
  rcases h.list with ⟨holes, hlists⟩
  have hk := hfrag.lt
  have hcutk : (d.span k).first = d.place k := d.cut_place hk
  have hpos := d.piece_pos hk
  rcases hlists.placed.valid.around (d.span_open hk) (fun n hn =>
    (hlists.missing n).mpr ⟨k, hk, hnew, hn⟩) with ⟨before, a, after, rfl, hinside, hbefore⟩
  rcases fix_new hlists hfrag hnew hintime hinside with
    ⟨s₁, new, hfix, hplaced, hmissing, hsame, htotal, hlist⟩
  have hbegin : a.first ≤ 8 * (shortAt ip 6 &&& ipOffs).toNat := by
    rw [hfrag.offset, ← hcutk]
    exact hinside.1
  have hreach : 8 * (shortAt ip 6 &&& ipOffs).toNat ≤ a.limit := by
    rw [hfrag.offset, ← hcutk]
    exact Nat.le_of_lt (Nat.lt_of_lt_of_le (d.span_open hk) hinside.2)
  have hfind : s.findHole ((shortAt ip 6 &&& ipOffs).toNat * 8) (2 ^ 16) s.firstHole.toNat =
      some (some (a.first / 8)) := by
    rw [hlists.list.first, Nat.mul_comm]
    refine findHole_found hlists.placed hlists.list.linked (fun b hb => ?_) hreach
      (Nat.le_add_right _ _)
    rw [hfrag.offset, ← hcutk]
    exact hbefore b hb
  refine ⟨_, new, insert_found hfind (by omega) ?_, h.collected.fill hfrag hsame ?_, hmissing,
    fun hne => Lists.fill hplaced (hlist hne) hmissing hfrag List.mem_cons_self⟩
  · rw [Nat.mul_comm, hfrag.offset]
    exact hfix
  · rw [d.total_cons hk, htotal, h.collected.total]

/-- The hole in front of a piece that has come before ends where the piece begins. -/
theorem fix_again (h : Lists d received s (before ++ a :: after)) (hfrag : IsFragment d k ip)
    (hmem : k ∈ received) (hfirst : a.first < d.place k) (hlimit : a.limit = d.place k) :
    exists s', ((if shortAt ip 6 &&& ipFlagsMfrag = 0#16 then
          s.truncate (a.first / 8) (d.place k + (d.piece k).length) else some s).bind
        fun s => s.fixHoles (a.first / 8) (shortAt ip 6 &&& ipOffs).toNat (d.piece k).length) =
          some (s', false) ∧
      OnlyMissing d received s.pktBuff s'.pktBuff ∧
      s'.totalLen = (if k + 1 = d.count then BitVec.ofNat 16 d.bytes.length else s.totalLen) ∧
      FrontList s' (before ++ a :: after) 0 := by
  have hk := hfrag.lt
  have hpos := d.piece_pos hk
  have hself : At (before ++ a :: after) (a.first / 8) :=
    at_append.mpr (Or.inr (at_cons.mpr (Or.inl rfl)))
  have hfits : CellFits (a.first / 8) :=
    h.placed.fits a (List.mem_append_right _ List.mem_cons_self)
  have hoff := hfrag.offset
  by_cases hlast : k + 1 = d.count
  · have hafter : after = [] := by
      cases after with
      | nil => rfl
      | cons b after =>
          have hb : b ∈ before ++ a :: b :: after :=
            List.mem_append_right _ (List.mem_cons_of_mem a List.mem_cons_self)
          have hbehind := (holes_cons.mp (holes_append.mp h.placed.valid).2.1).2.1 b
            List.mem_cons_self
          rcases missing_first h.placed (fun n => (h.missing n).mp) hb with ⟨l, hl, hnot, hhas⟩
          have hthis : (d.span k).Has b.first := by
            rw [d.span_last hlast]
            have hge : d.place k ≤ b.first := by omega
            exact ⟨hge, Nat.lt_of_lt_of_le hhas.2 (d.span_limit hl)⟩
          exact absurd (d.span_unique hl hk hhas hthis ▸ hmem) hnot
    subst hafter
    rcases truncate_last h hfrag hlast (Nat.le_of_lt hfirst) with
      ⟨s₀, hs₀, hplaced, hlist₀, hcells₀, htotal₀, _, hstop⟩
    -- the hole gets the end of the datagram, and then its own end again
    have hwithout : Span.without ⟨a.first, d.bytes.length⟩
        ⟨8 * (shortAt ip 6 &&& ipOffs).toNat,
          8 * (shortAt ip 6 &&& ipOffs).toNat + (d.piece k).length⟩ = [a] := by
      unfold Span.without
      rw [hoff, hstop, if_neg (Nat.lt_irrefl _), if_pos hfirst, ← hlimit]
      rfl
    have hpiece : Span.Inside ⟨8 * (shortAt ip 6 &&& ipOffs).toNat,
        8 * (shortAt ip 6 &&& ipOffs).toNat + (d.piece k).length⟩ ⟨a.first, d.bytes.length⟩ := by
      rw [hoff, hstop]
      exact ⟨Nat.le_of_lt hfirst, Nat.le_refl _⟩
    rcases fixHoles_spec hplaced hlist₀ hpiece hpos (fun hlt => absurd hlt (by
        rw [hoff, hstop]; exact Nat.lt_irrefl _)) (by rw [hwithout]; exact h.placed)
      (fun heq => absurd heq (by rw [hoff]; exact Nat.ne_of_lt hfirst)) with
      ⟨s', hs', hcells, htotal, hlist'⟩
    rw [hwithout] at hs' hcells hlist'
    have hne : before ++ ([a] ++ []) ≠ [] := by simp
    rw [decide_eq_false hne] at hs'
    refine ⟨s', ?_, OnlyCells.missing (hcells₀.trans (hcells.mono (fun i => ?_)))
      (fun i hi m hm => missing_descriptor h.placed (fun n => (h.missing n).mp) hi hm), ?_,
      hlist' hne⟩
    · rw [if_pos (hfrag.more.mpr hlast), hs₀, Option.bind_some]
      exact hs'
    · exact fun hi => hi.elim at_relimit (fun hi => hi)
    · rw [if_pos hlast, htotal, htotal₀]
  · have hmore : ¬ shortAt ip 6 &&& ipFlagsMfrag = 0#16 := fun hzero =>
      hlast (hfrag.more.mp hzero)
    have hbound := h.placed.limit a (List.mem_append_right _ List.mem_cons_self)
    have hword : (BitVec.ofNat 16 ((shortAt ip 6 &&& ipOffs).toNat * 8)).toNat = a.limit := by
      rw [Nat.mul_comm, hoff, BitVec.toNat_ofNat, Nat.mod_eq_of_lt (by omega), hlimit]
    have hvalue : (holeAt s.pktBuff (a.first / 8)).lastByte.toNat = a.limit :=
      congrArg ListCell.value h.list.inList.cell
    have hlist := relimit_spec (x := BitVec.ofNat 16 ((shortAt ip 6 &&& ipOffs).toNat * 8))
      h.placed h.list
    rw [hword] at hlist
    refine ⟨_, ?_, ?_, ?_, hlist⟩
    · rw [if_neg hmore, Option.bind_some]
      unfold Defrag.fixHoles
      rw [hole_eq hfits, Option.bind_eq_bind, Option.bind_some, hvalue,
        if_neg (fun hboth => absurd hboth.1 (by omega)), if_pos (by omega), change_eq _ hfits]
      rfl
    · exact (onlyCells_put s _ hself).missing (fun i hi m hm =>
        missing_descriptor h.placed (fun n => (h.missing n).mp) hi hm)
    · rw [if_neg hlast]
      rfl

theorem Held.again (h : Held d header received s) (hk : k < d.count) (hmem : k ∈ received) :
    Held d header (k :: received) s := by
  rcases h.list with ⟨holes, hlists⟩
  refine ⟨⟨h.collected.header, ?_, fun j hj => ?_⟩, holes, hlists.placed, hlists.list,
    fun n => ?_⟩
  · rw [d.total_cons hk, d.total_again hmem]
    exact h.collected.total
  · have hj' : j ∈ received := (List.mem_cons.mp hj).elim (fun heq => heq ▸ hmem) id
    exact h.collected.data j hj'
  · rw [d.missing_again hmem]
    exact hlists.missing n

theorem insert_again (h : Held d header received s) (hfrag : IsFragment d k ip)
    (hmem : k ∈ received) (hopen : ¬ d.Complete received) :
    exists s', s.insert ip (shortAt ip 6 &&& ipOffs).toNat (d.piece k).length = some (s', none) ∧
      Held d header (k :: received) s' := by
  rcases h.list with ⟨holes, hlists⟩
  have hk := hfrag.lt
  have hoff := hfrag.offset
  have hpos := d.piece_pos hk
  cases hfound : holes.find? (fun b => decide (d.place k ≤ b.limit)) with
  | none =>
      have hall : forall b, b ∈ holes -> b.limit < d.place k := by
        intro b hb
        have hnot := List.find?_eq_none.mp hfound b hb
        exact Nat.lt_of_not_le (fun hle => hnot (decide_eq_true hle))
      cases holes with
      | nil =>
          refine absurd ((d.complete_iff).mpr (fun n hn => ?_)) hopen
          rcases (hlists.missing n).mpr hn with ⟨b, hb, _⟩
          exact absurd hb List.not_mem_nil
      | cons a holes =>
          refine ⟨s, ?_, h.again hk hmem⟩
          have hnone : s.findHole (d.place k) (2 ^ 16) (a.first / 8) = some none :=
            findHole_none hlists.placed hlists.list.linked hall (Nat.le_add_right _ _)
          unfold Defrag.insert
          rw [hlists.list.first, Nat.mul_comm, hoff]
          show (s.findHole (d.place k) (2 ^ 16) (a.first / 8)).bind _ = _
          rw [hnone]
          rfl
  | some a =>
      rcases List.find?_eq_some_iff_append.mp hfound with ⟨hreach, before, after, rfl, hbefore⟩
      have hreach : d.place k ≤ a.limit := of_decide_eq_true hreach
      have ha : a ∈ before ++ a :: after := List.mem_append_right _ List.mem_cons_self
      have haligned := hlists.placed.aligned a ha
      have hfind : s.findHole ((shortAt ip 6 &&& ipOffs).toNat * 8) (2 ^ 16) s.firstHole.toNat =
          some (some (a.first / 8)) := by
        rw [hlists.list.first, Nat.mul_comm, hoff]
        refine findHole_found hlists.placed hlists.list.linked (fun b hb => ?_) hreach
          (Nat.le_add_right _ _)
        have hnot := hbefore b hb
        simpa using hnot
      by_cases hbehind : (shortAt ip 6 &&& ipOffs).toNat + ((d.piece k).length + 7) / 8 ≤
          a.first / 8
      · refine ⟨s, ?_, h.again hk hmem⟩
        unfold Defrag.insert
        rw [hfind]
        exact if_pos hbehind
      · have hmissing : forall n, a.Has n -> d.Missing received n := fun n hn =>
          (hlists.missing n).mp ⟨a, ha, hn⟩
        have hfirst : a.first < d.place k := by
          apply Nat.lt_of_not_le
          intro hle
          have hmiss := hmissing a.first ⟨Nat.le_refl _, hlists.placed.valid.each a ha⟩
          have heq : a.first = d.place k + (a.first - d.place k) := by omega
          rw [heq] at hmiss
          exact d.not_missing hk hmem (by omega) hmiss
        have hlimit : a.limit = d.place k := by
          apply Nat.le_antisymm _ hreach
          apply Nat.le_of_not_lt
          intro hlt
          exact d.not_missing hk hmem hpos
            (hmissing (d.place k + 0) ⟨Nat.le_of_lt hfirst, hlt⟩)
        rcases fix_again hlists hfrag hmem hfirst hlimit with ⟨s₁, hfix, hsame, htotal, hlist⟩
        have hmissing' : forall n, Missing (before ++ a :: after) n <->
            d.Missing (k :: received) n := fun n => by
          rw [d.missing_again hmem]
          exact hlists.missing n
        rw [← hoff, Nat.mul_comm] at hfix
        exact ⟨_, insert_found hfind hbehind hfix, h.collected.fill hfrag hsame
          (by rw [d.total_cons hk, htotal, h.collected.total]), _,
          Lists.fill hlists.placed hlist hmissing' hfrag List.mem_cons_self⟩

/-!
# Runs
-/

theorem reset_held (d : CutDatagram) (s : Defrag) (ip : Buffer) :
    exists s', s.reset ip = some s' ∧ Held d ip [] s' := by
  have hfits : CellFits 0 := (by decide : payloadAt 0 + 8 ≤ ipPktsize)
  have hheader : forall buf : Buffer, forall j, 20 ≤ j ->
      copyTo buf 0 (bytesAt ip 0 ipHdrSizeNoUdp) j = buf j := by
    intro buf j hj
    refine copyTo_outside buf (Or.inr ?_)
    rw [bytesAt_length]
    unfold ipHdrSizeNoUdp
    omega
  refine ⟨{
      pktBuff := copyTo (s.put 0 { holeAt s.pktBuff 0 with
        lastByte := 0xffff#16, nextHole := 0#16, prevHole := 0#16 }).pktBuff 0
          (bytesAt ip 0 ipHdrSizeNoUdp)
      firstHole := 0#16
      totalLen := 0xffff#16 }, ?_,
    ⟨fun j hj => ?_, rfl, fun k hk => absurd hk List.not_mem_nil⟩, [⟨0, 65535⟩],
    ⟨⟨List.pairwise_singleton _ _, ?_⟩, ?_, ?_, ?_⟩, ⟨⟨?_, trivial⟩, rfl⟩, ?_⟩
  · unfold Defrag.reset
    rw [change_eq _ hfits]
    rfl
  · have hget : (bytesAt ip 0 ipHdrSizeNoUdp)[j]? = some (ip j) := by
      unfold bytesAt
      rw [List.getElem?_map, List.getElem?_range hj, Option.map_some, Nat.zero_add]
    have hcopy := copyTo_at (s.put 0 { holeAt s.pktBuff 0 with
      lastByte := 0xffff#16, nextHole := 0#16, prevHole := 0#16 }).pktBuff 0 hget
    rw [Nat.zero_add] at hcopy
    exact hcopy
  · intro h hh
    rw [List.mem_singleton.mp hh]
    decide
  · intro h hh
    rw [List.mem_singleton.mp hh]
    rfl
  · intro h hh
    rw [List.mem_singleton.mp hh]
    exact hfits
  · intro h hh
    rw [List.mem_singleton.mp hh]
    decide
  · show cellsOf _ 0 = _
    refine (cellsOf_congr (fun m _ => hheader _ _ (Nat.le_add_right _ m))).trans ?_
    rw [cellsOf_put, Function.update_self]
    rfl
  · intro n
    rw [d.missing_nil, missing_cons]
    unfold Missing Span.Has
    simp

def For (d : CutDatagram) (s : Defrag) : Prop := s.totalLen ≠ 0#16 ∧ shortAt s.pktBuff 4 = d.id

theorem Held.for (h : Held d header received s) (hid : shortAt header 4 = d.id) : For d s := by
  constructor
  · rw [h.collected.total]
    unfold CutDatagram.total
    split
    · have hpos : 0 < d.bytes.length := by
        have hlast : d.count - 1 < d.count := Nat.sub_lt (Nat.lt_trans Nat.zero_lt_one d.several)
          Nat.zero_lt_one
        have hle := d.place_le_place hlast (Nat.le_refl _)
        have hpiece := d.piece_pos hlast
        rw [d.place_count] at hle
        omega
      refine toNat_ne_zero ?_
      rw [d.bytes_toNat]
      exact Nat.ne_of_gt hpos
    · decide
  · rw [← hid]
    exact shortAt_congr (h.collected.header 4 (by decide)) (h.collected.header 5 (by decide))

theorem netDefragment_fragment (hfrag : IsFragment d k ip) (s : Defrag) (len : Nat) :
    netDefragment s ip len =
      (if s.totalLen = 0#16 ∨ shortAt s.pktBuff 4 ≠ shortAt ip 4 then s.reset ip
        else some s).bind
        fun s => s.insert ip (shortAt ip 6 &&& ipOffs).toNat (d.piece k).length := by
  have hk := hfrag.lt
  have hfrag' : ¬ shortAt ip 6 &&& (ipOffs ||| ipFlagsMfrag) = 0#16 := by
    intro hzero
    rw [BitVec.and_or_distrib_left, BitVec.or_eq_zero_iff] at hzero
    have hlast := hfrag.more.mp hzero.2
    have hplace := hfrag.offset
    rw [hzero.1] at hplace
    have hseveral : 1 < d.count := d.several
    have hle := d.place_le_place (j := 0) (k := k) (by omega) (Nat.le_of_lt hk)
    have hpos := d.piece_pos (k := 0) (Nat.zero_lt_of_lt hk)
    have hzero' : 8 * (0#16).toNat = 0 := rfl
    omega
  have hend := d.place_limit (Nat.succ_le_of_lt hk)
  have hsucc : d.place k.succ = d.place k + (d.piece k).length := d.place_succ hk
  rw [hsucc, ← hfrag.offset] at hend
  unfold netDefragment netDefragmentHoles
  rw [if_neg hfrag']
  dsimp only
  rw [hfrag.length, if_neg (by omega), if_neg (by omega), Nat.add_sub_cancel_left,
    if_neg (by omega)]
  rfl

theorem netDefragment_for (h : For d s) (hfrag : IsFragment d k ip) (len : Nat) :
    netDefragment s ip len =
      s.insert ip (shortAt ip 6 &&& ipOffs).toNat (d.piece k).length := by
  rcases h with ⟨htotal, hsame⟩
  have hnot : ¬ (s.totalLen = 0#16 ∨ shortAt s.pktBuff 4 ≠ shortAt ip 4) := by
    rw [hsame, hfrag.id]
    rintro (hzero | hne)
    · exact htotal hzero
    · exact hne rfl
  rw [netDefragment_fragment hfrag s len, if_neg hnot, Option.bind_some]

theorem netDefragment_first (hnew : s.totalLen = 0#16 ∨ shortAt s.pktBuff 4 ≠ d.id)
    (hfrag : IsFragment d k ip) (len : Nat) :
    exists s₀, Held d ip [] s₀ ∧ netDefragment s ip len = netDefragment s₀ ip len := by
  rcases reset_held d s ip with ⟨s₀, hs₀, h₀⟩
  have hother : s.totalLen = 0#16 ∨ shortAt s.pktBuff 4 ≠ shortAt ip 4 := by
    rw [hfrag.id]
    exact hnew
  refine ⟨s₀, h₀, ?_⟩
  rw [netDefragment_fragment hfrag, if_pos hother, hs₀, Option.bind_some,
    netDefragment_for (h₀.for hfrag.id) hfrag]

theorem netDefragment_open (h : Held d header received s) (hid : shortAt header 4 = d.id)
    (hfrag : IsFragment d k ip) (hintime : InTime received k)
    (hopen : ¬ d.Complete (k :: received)) (len : Nat) :
    exists s', netDefragment s ip len = some (s', none) ∧ Held d header (k :: received) s' := by
  rw [netDefragment_for (h.for hid) hfrag len]
  by_cases hmem : k ∈ received
  · exact insert_again h hfrag hmem (fun hcomplete =>
      hopen (fun l hl => List.mem_cons_of_mem k (hcomplete l hl)))
  · rcases insert_new h hfrag hmem hintime with ⟨s', new, hinsert, hcollected, hmissing, hlist⟩
    have hne : new ≠ [] := by
      rintro rfl
      refine hopen (d.complete_iff.mpr (fun n hn => ?_))
      rcases (hmissing n).mpr hn with ⟨b, hb, _⟩
      exact absurd hb List.not_mem_nil
    rw [decide_eq_false hne] at hinsert
    exact ⟨s', hinsert, hcollected, new, hlist hne⟩

/-- The packet that is passed on: the datagram, behind the header of a fragment of it. -/
structure IsPacket (d : CutDatagram) (header : Buffer) (p : Packet) : Prop where
  len : p.len = d.bytes.length + ipHdrSizeNoUdp
  bytes : bytesAt p.buf ipHdrSizeNoUdp d.bytes.length = d.bytes
  ipLen : shortAt p.buf 2 = BitVec.ofNat 16 d.bytes.length
  header : forall j, j < ipHdrSizeNoUdp -> j ≠ 2 -> j ≠ 3 -> p.buf j = header j

theorem finish_packet (h : Collected d header received s) (hall : d.Complete received) :
    exists s' p, s.finish true = (s', some p) ∧ IsPacket d header p := by
  have hlast : d.count - 1 ∈ received :=
    hall _ (Nat.sub_lt (Nat.lt_trans Nat.zero_lt_one d.several) Nat.zero_lt_one)
  have htotal : s.totalLen = BitVec.ofNat 16 d.bytes.length := by
    rw [h.total]
    exact if_pos hlast
  have hsame : forall j, j ≠ 2 -> j ≠ 3 ->
      (s.fill 2 (shortBytes s.totalLen)).pktBuff j = s.pktBuff j := by
    intro j hsecond hthird
    have hlength : (shortBytes s.totalLen).length = 2 := rfl
    exact copyTo_outside s.pktBuff (by omega)
  refine ⟨_, _, rfl, ?_, ?_, ?_, fun j hj hsecond hthird => ?_⟩
  · show s.totalLen.toNat + ipHdrSizeNoUdp = _
    rw [htotal, d.bytes_toNat]
  · have hbytes := d.bytesAt_place (fun k hk => h.data k (hall k hk) hk) (Nat.le_refl d.count)
    rw [d.place_count] at hbytes
    unfold CutDatagram.count at hbytes
    rw [List.take_length] at hbytes
    refine (bytesAt_congr (fun m _ => ?_)).trans hbytes
    exact hsame _ (by unfold ipHdrSizeNoUdp; omega) (by unfold ipHdrSizeNoUdp; omega)
  · have hcopy : shortAt (s.fill 2 (shortBytes s.totalLen)).pktBuff (2 + 0) = s.totalLen :=
      shortAt_copyTo s.pktBuff 2 rfl rfl
    rw [← htotal]
    exact hcopy
  · exact (hsame j hsecond hthird).trans (h.header j hj)

theorem netDefragment_complete (h : Held d header received s) (hid : shortAt header 4 = d.id)
    (hfrag : IsFragment d k ip) (hintime : InTime received k) (hopen : ¬ d.Complete received)
    (hall : d.Complete (k :: received)) (len : Nat) :
    exists s' p, netDefragment s ip len = some (s', some p) ∧ IsPacket d header p := by
  rw [netDefragment_for (h.for hid) hfrag len]
  have hnew : k ∉ received := by
    intro hmem
    refine hopen (fun l hl => ?_)
    exact (List.mem_cons.mp (hall l hl)).elim (fun heq => heq ▸ hmem) id
  rcases insert_new h hfrag hnew hintime with ⟨s', new, hinsert, hcollected, _, hlist⟩
  have hnil : new = [] := by
    cases new with
    | nil => rfl
    | cons b new =>
        have hlists := hlist (List.cons_ne_nil b new)
        exact absurd (missing_first hlists.placed (fun n => (hlists.missing n).mp)
          List.mem_cons_self) (d.complete_iff.mp hall b.first)
  rcases finish_packet hcollected hall with ⟨s₁, p, hfinish, hpacket⟩
  rw [hinsert, decide_eq_true hnil, hfinish]
  exact ⟨s₁, p, rfl, hpacket⟩

variable {ks : List Nat} {frags : List (Buffer × Nat)}

abbrev AreFragments (d : CutDatagram) (ks : List Nat) (frags : List (Buffer × Nat)) : Prop :=
  List.Forall₂ (fun k f => IsFragment d k f.1) ks frags

theorem netDefragmentAll_cons (s : Defrag) (packet : Buffer × Nat)
    (packets : List (Buffer × Nat)) : netDefragmentAll s (packet :: packets) =
      (netDefragment s packet.1 packet.2).bind fun first =>
        (netDefragmentAll first.1 packets).map fun rest => (rest.1, first.2 :: rest.2) := rfl

theorem not_complete_of_missing {m : Nat} (hm : m < d.count) (hnot : m ∉ received) :
    ¬ d.Complete received := fun hall => hnot (hall m hm)

/-- Some pieces are still to come after all the fragments but the last one. -/
theorem run_held (h : Held d header received s) (hid : shortAt header 4 = d.id)
    (hfrags : AreFragments d (k :: ks) frags) (hintime : AllInTime received (k :: ks))
    {m : Nat} (hm : m < d.count) (hheld : m ∉ received) (hopen : m ∉ (k :: ks).dropLast) :
    exists s' results, netDefragmentAll s frags = some (s', results) ∧
      (¬ d.Complete ((k :: ks) ++ received) -> results = List.replicate (k :: ks).length none) ∧
      (d.Complete ((k :: ks) ++ received) -> exists p, IsPacket d header p ∧
        results = List.replicate ks.length none ++ [some p]) := by
  induction ks generalizing k received s frags with
  | nil =>
      rcases hfrags with _ | ⟨hfrag, hrest⟩
      rename_i f rest
      cases hrest
      by_cases hall : d.Complete (k :: received)
      · rcases netDefragment_complete h hid hfrag hintime.1 (not_complete_of_missing hm hheld)
          hall f.2 with ⟨s', p, hs', hpacket⟩
        refine ⟨s', [some p], ?_, fun hnot => absurd hall hnot, fun _ => ⟨p, hpacket, rfl⟩⟩
        rw [netDefragmentAll_cons, hs']
        rfl
      · rcases netDefragment_open h hid hfrag hintime.1 hall f.2 with ⟨s', hs', _⟩
        refine ⟨s', [none], ?_, fun _ => rfl, fun hcomplete => absurd hcomplete hall⟩
        rw [netDefragmentAll_cons, hs']
        rfl
  | cons l ks ih =>
      rcases hfrags with _ | ⟨hfrag, hrest⟩
      rename_i f rest
      have hopen' : m ≠ k ∧ m ∉ (l :: ks).dropLast := by
        rw [List.dropLast_cons_cons, List.mem_cons, not_or] at hopen
        exact hopen
      have hheld' : m ∉ k :: received := by
        rw [List.mem_cons, not_or]
        exact ⟨hopen'.1, hheld⟩
      rcases netDefragment_open h hid hfrag hintime.1 (not_complete_of_missing hm hheld') f.2 with
        ⟨s₁, hs₁, h₁⟩
      rcases ih h₁ hrest hintime.2 hheld' hopen'.2 with ⟨s', results, hs', hnone, hsome⟩
      have hall : d.Complete ((l :: ks) ++ k :: received) <->
          d.Complete ((k :: l :: ks) ++ received) := by
        have hmem : forall j, j ∈ (l :: ks) ++ k :: received <-> j ∈ (k :: l :: ks) ++ received :=
          fun j => List.perm_middle.mem_iff
        unfold CutDatagram.Complete
        simp only [hmem]
      refine ⟨s', none :: results, ?_, fun hnot => ?_, fun hcomplete => ?_⟩
      · rw [netDefragmentAll_cons, hs₁, Option.bind_some, hs']
        rfl
      · rw [hnone (fun hyes => hnot (hall.mp hyes))]
        rfl
      · rcases hsome (hall.mpr hcomplete) with ⟨p, hpacket, hresults⟩
        exact ⟨p, hpacket, by rw [hresults]; rfl⟩

/--
The fragments of a datagram that is new: no packet before all of them have come, and the datagram
with the last of them.
-/
theorem netDefragment_reassembles (d : CutDatagram) (s : Defrag)
    (hnew : s.totalLen = 0#16 ∨ shortAt s.pktBuff 4 ≠ d.id)
    (hfrags : AreFragments d ks frags) (hintime : AllInTime [] ks)
    (hopen : ¬ d.Complete ks.dropLast) :
    exists s' results, netDefragmentAll s frags = some (s', results) ∧
      (¬ d.Complete ks -> results = List.replicate ks.length none) ∧
      (d.Complete ks -> exists first rest p, frags = first :: rest ∧ IsPacket d first.1 p ∧
        results = List.replicate (ks.length - 1) none ++ [some p]) := by
  cases hfrags with
  | nil =>
      refine ⟨s, [], rfl, fun _ => rfl, fun hall => ?_⟩
      exact absurd (hall 0 (Nat.lt_trans Nat.zero_lt_one d.several)) List.not_mem_nil
  | @cons k f ks rest hfrag hrest =>
      rcases netDefragment_first hnew hfrag f.2 with ⟨s₀, h₀, hfirst⟩
      have hmissing : exists m, m < d.count ∧ m ∉ (k :: ks).dropLast := by
        unfold CutDatagram.Complete at hopen
        push Not at hopen
        exact hopen
      rcases hmissing with ⟨m, hm, hnot⟩
      rcases run_held h₀ hfrag.id (List.Forall₂.cons hfrag hrest) hintime hm List.not_mem_nil hnot
        with ⟨s', results, hs', hnone, hsome⟩
      rw [List.append_nil] at hnone hsome
      refine ⟨s', results, ?_, hnone, fun hall => ?_⟩
      · rw [netDefragmentAll_cons, hfirst]
        exact hs'
      · rcases hsome hall with ⟨p, hpacket, hresults⟩
        exact ⟨f, rest, p, rfl, hpacket, hresults⟩

theorem allInTime_first (hfirst : 0 ∈ received) (ks : List Nat) : AllInTime received ks := by
  induction ks generalizing received with
  | nil => trivial
  | cons k ks ih => exact ⟨Or.inl hfirst, ih (List.mem_cons_of_mem k hfirst)⟩

def sampleCut : CutDatagram where
  id := 5#16
  pieces := [List.replicate 8 1#8, List.replicate 8 2#8, [3#8, 4#8, 5#8]]
  several := by decide
  filled := by decide
  cuts := by decide
  fits := by decide

/-- A fragment of it, from the high and the low byte of `ip_off` and the bytes. -/
def sampleFragment (high low : Byte) (bytes : List Byte) : Buffer × Nat :=
  (fun i => ([0x45#8, 0#8, 0#8, BitVec.ofNat 8 (20 + bytes.length), 0#8, 5#8, high, low] ++
    List.replicate 12 0#8 ++ bytes).getD i 0#8, 20 + bytes.length)

def sampleFragments : List (Buffer × Nat) :=
  [sampleFragment 0x20#8 0#8 (List.replicate 8 1#8), sampleFragment 0#8 2#8 [3#8, 4#8, 5#8],
    sampleFragment 0#8 2#8 [3#8, 4#8, 5#8], sampleFragment 0x20#8 1#8 (List.replicate 8 2#8)]

def emptyDefrag : Defrag := ⟨fun _ => 0#8, 0#16, 0#16⟩

theorem sample_fragments : AreFragments sampleCut [0, 2, 2, 1] sampleFragments := by
  have hfirst : IsFragment sampleCut 0
      (sampleFragment 0x20#8 0#8 (List.replicate 8 1#8)).1 := by
    constructor <;> decide
  have hsecond : IsFragment sampleCut 1
      (sampleFragment 0x20#8 1#8 (List.replicate 8 2#8)).1 := by
    constructor <;> decide
  have hlast : IsFragment sampleCut 2 (sampleFragment 0#8 2#8 [3#8, 4#8, 5#8]).1 := by
    constructor <;> decide
  exact .cons hfirst (.cons hlast (.cons hlast (.cons hsecond .nil)))

theorem netDefragment_reassembles_sample : exists s' p,
    netDefragmentAll emptyDefrag sampleFragments = some (s', [none, none, none, some p]) ∧
      bytesAt p.buf 20 19 = List.replicate 8 1#8 ++ List.replicate 8 2#8 ++ [3#8, 4#8, 5#8] := by
  rcases netDefragment_reassembles sampleCut emptyDefrag (Or.inl rfl) sample_fragments
    ⟨Or.inr (Or.inr (Or.inl rfl)), allInTime_first List.mem_cons_self _⟩
    (fun hall => absurd (hall 1 (by decide)) (by decide)) with ⟨s', results, hs', _, hall⟩
  rcases hall (by unfold CutDatagram.Complete; decide) with ⟨first, rest, p, hfrags, hp, hresults⟩
  rw [hresults] at hs'
  exact ⟨s', p, hs', hp.bytes⟩

end Network
end Bab750
