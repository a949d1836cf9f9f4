import Bab750.Foundation.Cuts
import Bab750.Network.Defrag

/-!
# The pieces of a datagram

A datagram that is cut into fragments at multiples of eight bytes, where its pieces begin and end,
and which bytes are missing when some of them have come.
-/

namespace Bab750
namespace Network

open Foundation

theorem bytesAt_append (buf : Buffer) (i first second : Nat) :
    bytesAt buf i (first + second) = bytesAt buf i first ++ bytesAt buf (i + first) second := by
  unfold bytesAt
  rw [List.range_add, List.map_append, List.map_map]
  simp only [Function.comp_def, Nat.add_assoc]

structure CutDatagram where
  id : BitVec 16
  pieces : List (List Byte)
  several : 1 < pieces.length
  filled : forall p, p ∈ pieces -> p ≠ []
  cuts : forall p, p ∈ pieces.dropLast -> p.length % 8 = 0
  fits : pieces.flatten.length ≤ ipMaxudp

namespace CutDatagram

def count (d : CutDatagram) : Nat := d.pieces.length

def bytes (d : CutDatagram) : List Byte := d.pieces.flatten

def piece (d : CutDatagram) (k : Nat) : List Byte := d.pieces.getD k []

def place (d : CutDatagram) (k : Nat) : Nat := (d.pieces.take k).flatten.length

/-- Where a piece begins; behind the last one there is no other one. -/
def cut (d : CutDatagram) (k : Nat) : Nat := if k < d.count then d.place k else 65535

def span (d : CutDatagram) (k : Nat) : Span := ⟨d.cut k, d.cut (k + 1)⟩

def Missing (d : CutDatagram) (received : List Nat) (n : Nat) : Prop :=
  exists k, k < d.count ∧ k ∉ received ∧ (d.span k).Has n

def Complete (d : CutDatagram) (received : List Nat) : Prop :=
  forall k, k < d.count -> k ∈ received

variable (d : CutDatagram) {k l n : Nat} {received : List Nat}

theorem place_zero : d.place 0 = 0 := rfl

theorem place_count : d.place d.count = d.bytes.length := by
  unfold place count
  rw [List.take_length]
  rfl

theorem place_succ (hk : k < d.count) : d.place (k + 1) = d.place k + (d.piece k).length := by
  have hpiece : d.piece k = d.pieces[k] := by
    unfold piece
    rw [List.getD_eq_getElem?_getD, List.getElem?_eq_getElem hk]
    rfl
  unfold place
  rw [List.take_add_one, List.getElem?_eq_getElem hk, List.flatten_append, List.length_append,
    hpiece]
  simp

theorem piece_mem (hk : k < d.count) : d.piece k ∈ d.pieces := by
  unfold piece
  rw [List.getD_eq_getElem?_getD, List.getElem?_eq_getElem hk]
  exact List.getElem_mem hk

theorem piece_pos (hk : k < d.count) : 0 < (d.piece k).length :=
  List.length_pos_of_ne_nil (d.filled _ (d.piece_mem hk))

theorem piece_aligned (hk : k + 1 < d.count) : (d.piece k).length % 8 = 0 := by
  refine d.cuts _ ?_
  unfold piece
  have hlt : k < d.pieces.dropLast.length := by
    rw [List.length_dropLast]
    unfold count at hk
    omega
  have hk' : k < d.pieces.length := Nat.lt_of_succ_lt hk
  have hget : d.pieces.dropLast[k] = d.pieces[k] := List.getElem_dropLast hlt
  rw [List.getD_eq_getElem?_getD, List.getElem?_eq_getElem hk']
  show d.pieces[k] ∈ d.pieces.dropLast
  rw [← hget]
  exact List.getElem_mem hlt

theorem place_aligned (hk : k < d.count) : d.place k % 8 = 0 := by
  induction k with
  | zero => rfl
  | succ k ih =>
      have hplace := ih (Nat.lt_of_succ_lt hk)
      have hpiece := d.piece_aligned hk
      rw [d.place_succ (Nat.lt_of_succ_lt hk)]
      omega

theorem place_ascending : Ascending d.place d.count := by
  intro k hk
  rw [d.place_succ hk]
  exact Nat.lt_add_of_pos_right (d.piece_pos hk)

theorem place_limit (hk : k ≤ d.count) : d.place k ≤ ipMaxudp := by
  have hle := d.place_ascending.le hk (Nat.le_refl _)
  rw [d.place_count] at hle
  exact hle.trans d.fits

theorem cut_place (hk : k < d.count) : d.cut k = d.place k := if_pos hk

theorem cut_count : d.cut d.count = 65535 := if_neg (Nat.lt_irrefl _)

theorem cut_ascending : Ascending d.cut d.count := by
  intro k hk
  have hlimit := d.place_limit (Nat.le_of_lt hk)
  rw [d.cut_place hk]
  rcases Nat.lt_or_eq_of_le (Nat.succ_le_of_lt hk) with hlt | heq
  · rw [d.cut_place hlt]
    exact d.place_ascending k hk
  · show d.place k < d.cut (k.succ)
    rw [heq, d.cut_count]
    unfold ipMaxudp ipPktsize ipHdrSizeNoUdp at hlimit
    omega

theorem span_unique (hk : k < d.count) (hl : l < d.count) (hkn : (d.span k).Has n)
    (hln : (d.span l).Has n) : k = l := by
  have hkl := d.cut_ascending.index_le (Nat.le_of_lt hk) (Nat.lt_of_le_of_lt hkn.1 hln.2)
  have hlk := d.cut_ascending.index_le (Nat.le_of_lt hl) (Nat.lt_of_le_of_lt hln.1 hkn.2)
  exact Nat.le_antisymm hkl hlk

theorem span_open (hk : k < d.count) : (d.span k).first < (d.span k).limit :=
  d.cut_ascending k hk

theorem span_limit (hk : k < d.count) : (d.span k).limit ≤ 65535 := by
  have hle := d.cut_ascending.le (Nat.succ_le_of_lt hk) (Nat.le_refl _)
  rw [d.cut_count] at hle
  exact hle

theorem missing_nil : d.Missing [] n <-> n < 65535 := by
  constructor
  · rintro ⟨k, hk, _, hhas⟩
    exact Nat.lt_of_lt_of_le hhas.2 (d.span_limit hk)
  · intro hn
    have hfirst : d.cut 0 ≤ n := by
      rw [d.cut_place (Nat.lt_trans Nat.zero_lt_one d.several), d.place_zero]
      exact Nat.zero_le n
    rcases exists_piece hfirst (by rw [d.cut_count]; exact hn) with ⟨k, hk, hhas⟩
    exact ⟨k, hk, List.not_mem_nil, hhas⟩

theorem missing_cons (hk : k < d.count) : d.Missing (k :: received) n <->
    d.Missing received n ∧ ¬ (d.span k).Has n := by
  constructor
  · rintro ⟨l, hl, hnot, hhas⟩
    refine ⟨⟨l, hl, fun hmem => hnot (List.mem_cons_of_mem k hmem), hhas⟩, fun hkn => ?_⟩
    exact hnot (d.span_unique hk hl hkn hhas ▸ List.mem_cons_self)
  · rintro ⟨⟨l, hl, hnot, hhas⟩, hkn⟩
    refine ⟨l, hl, fun hmem => ?_, hhas⟩
    rcases List.mem_cons.mp hmem with rfl | hmem
    · exact hkn hhas
    · exact hnot hmem

theorem missing_block (hmissing : d.Missing received n) (hn : n % 8 = 0) (hend : n + 8 ≤ 65535)
    {m : Nat} (hm : m < 8) : d.Missing received (n + m) := by
  rcases hmissing with ⟨k, hk, hnot, hhas⟩
  refine ⟨k, hk, hnot, Nat.le_trans hhas.1 (Nat.le_add_right n m), ?_⟩
  show n + m < d.cut (k + 1)
  have hlt : n < d.cut (k + 1) := hhas.2
  rcases Nat.lt_or_eq_of_le (Nat.succ_le_of_lt hk) with hnext | hlast
  · have haligned := d.place_aligned hnext
    rw [d.cut_place hnext] at hlt ⊢
    have hsucc : k.succ = k + 1 := rfl
    omega
  · have hcut : d.cut (k + 1) = 65535 := by
      show d.cut k.succ = 65535
      rw [hlast, d.cut_count]
    omega

theorem complete_iff : d.Complete received <-> forall n, ¬ d.Missing received n := by
  constructor
  · rintro hcomplete n ⟨k, hk, hnot, _⟩
    exact hnot (hcomplete k hk)
  · intro hnone k hk
    exact Classical.byContradiction (fun hnot =>
      hnone (d.span k).first ⟨k, hk, hnot, Nat.le_refl _, d.span_open hk⟩)

theorem bytesAt_place {buf : Buffer} {i : Nat}
    (h : forall k, k < d.count -> bytesAt buf (i + d.place k) (d.piece k).length = d.piece k)
    (hk : k ≤ d.count) : bytesAt buf i (d.place k) = (d.pieces.take k).flatten := by
  induction k with
  | zero => rfl
  | succ k ih =>
      have hbefore := ih (Nat.le_of_succ_le hk)
      have hpiece := h k hk
      have hget : d.pieces[k]? = some (d.piece k) := by
        unfold piece
        rw [List.getD_eq_getElem?_getD, List.getElem?_eq_getElem hk]
        rfl
      rw [d.place_succ hk, bytesAt_append, hbefore, hpiece, List.take_add_one, hget,
        List.flatten_append]
      simp

/-- `total_len`, which is known from the last piece. -/
def total (received : List Nat) : BitVec 16 :=
  if d.count - 1 ∈ received then BitVec.ofNat 16 d.bytes.length else 0xffff#16

theorem bytes_lt : d.bytes.length < 65536 := Nat.lt_of_le_of_lt d.fits (by decide)

theorem bytes_toNat : (BitVec.ofNat 16 d.bytes.length).toNat = d.bytes.length := by
  rw [BitVec.toNat_ofNat, Nat.mod_eq_of_lt d.bytes_lt]

theorem span_last (hk : k + 1 = d.count) :
    d.span k = ⟨d.place k, 65535⟩ := by
  have hcut : d.cut (k + 1) = 65535 := by rw [hk, d.cut_count]
  unfold span
  rw [d.cut_place (hk ▸ Nat.lt_succ_self k), hcut]

theorem span_inner (hk : k + 1 < d.count) :
    d.span k = ⟨d.place k, d.place k + (d.piece k).length⟩ := by
  unfold span
  rw [d.cut_place (Nat.lt_of_succ_lt hk), d.cut_place hk, d.place_succ (Nat.lt_of_succ_lt hk)]

theorem place_le_place {j : Nat} (hj : j < k) (hk : k ≤ d.count) :
    d.place j + (d.piece j).length ≤ d.place k := by
  rw [← d.place_succ (Nat.lt_of_lt_of_le hj hk)]
  exact d.place_ascending.le (Nat.succ_le_of_lt hj) hk

theorem span_piece (hk : k < d.count) {m : Nat}
    (hm : m < (d.piece k).length) : (d.span k).Has (d.place k + m) := by
  have hfirst : (d.span k).first = d.place k := d.cut_place hk
  refine ⟨by rw [hfirst]; exact Nat.le_add_right _ _, ?_⟩
  rcases Nat.lt_or_eq_of_le (Nat.succ_le_of_lt hk) with hinner | hlast
  · rw [d.span_inner hinner]
    exact Nat.add_lt_add_left hm _
  · have hend := d.place_limit (Nat.succ_le_of_lt hk)
    have hsucc : d.place k.succ = d.place k + (d.piece k).length := d.place_succ hk
    rw [d.span_last hlast]
    unfold ipMaxudp ipPktsize ipHdrSizeNoUdp at hend
    show d.place k + m < 65535
    omega

theorem not_missing (hk : k < d.count) (hmem : k ∈ received) {m : Nat}
    (hm : m < (d.piece k).length) : ¬ d.Missing received (d.place k + m) := by
  rintro ⟨l, hl, hnot, hhas⟩
  exact hnot (d.span_unique hl hk hhas (d.span_piece hk hm) ▸ hmem)

theorem total_cons (hk : k < d.count) : d.total (k :: received) =
    if k + 1 = d.count then BitVec.ofNat 16 d.bytes.length else d.total received := by
  have hmem : d.count - 1 ∈ k :: received <-> k + 1 = d.count ∨ d.count - 1 ∈ received := by
    rw [List.mem_cons]
    have hiff : d.count - 1 = k <-> k + 1 = d.count := by omega
    rw [hiff]
  unfold total
  by_cases hlast : k + 1 = d.count
  · rw [if_pos hlast, if_pos (hmem.mpr (Or.inl hlast))]
  · rw [if_neg hlast]
    by_cases hheld : d.count - 1 ∈ received
    · rw [if_pos hheld, if_pos (hmem.mpr (Or.inr hheld))]
    · rw [if_neg hheld, if_neg (fun hboth => hheld ((hmem.mp hboth).resolve_left hlast))]

theorem missing_again (hmem : k ∈ received) :
    d.Missing (k :: received) n <-> d.Missing received n := by
  have hmem' : forall l, l ∈ k :: received <-> l ∈ received := by
    intro l
    rw [List.mem_cons]
    exact ⟨fun hl => hl.elim (fun heq => heq ▸ hmem) (fun hl => hl), Or.inr⟩
  unfold Missing
  simp only [hmem']

theorem total_again (hmem : k ∈ received) :
    (if k + 1 = d.count then BitVec.ofNat 16 d.bytes.length else d.total received) =
      d.total received := by
  by_cases hlast : k + 1 = d.count
  · have heq : d.count - 1 = k := by omega
    unfold total
    rw [if_pos hlast, heq, if_pos hmem]
  · exact if_neg hlast

end CutDatagram

structure IsFragment (d : CutDatagram) (k : Nat) (ip : Buffer) : Prop where
  lt : k < d.count
  length : (shortAt ip 2).toNat = ipHdrSizeNoUdp + (d.piece k).length
  id : shortAt ip 4 = d.id
  offset : 8 * (shortAt ip 6 &&& ipOffs).toNat = d.place k
  more : shortAt ip 6 &&& ipFlagsMfrag = 0#16 <-> k + 1 = d.count
  data : bytesAt ip ipHdrSizeNoUdp (d.piece k).length = d.piece k

end Network
end Bab750
