import Bab750.Load.Xyzmodem

/-!
# Blocks on the line

What `xyzModem_get_hdr` makes of a block that is read as a whole, and of what is not one.
-/

namespace Bab750
namespace Load
namespace Xyzmodem

open Foundation

/-- The size of a block follows from its first byte. -/
def startOf (data : List Byte) : Byte := if data.length = 128 then soh else stx

def IsSize (n : Nat) : Prop := n = 128 ∨ n = 1024

def blockBytes (blk cblk crc1 crc2 : Byte) (data : List Byte) : List Byte :=
  [startOf data, blk, cblk] ++ data ++ [crc1, crc2]

def taken (pkt : List Byte) (blk cblk crc1 crc2 : Byte) (data : List Byte) : Packet where
  pkt := data ++ pkt.drop data.length
  bufp := 0
  blk := blk
  cblk := cblk
  crc1 := crc1
  crc2 := crc2
  len := data.length

variable {x : Xyz} {p : Packet} {rest : Line} {data : List Byte}

theorem startOf_small (h : data.length = 128) : startOf data = soh := if_pos h

theorem startOf_large (h : data.length = 1024) : startOf data = stx :=
  if_neg (fun heq => absurd (h.symm.trans heq) (by decide))

theorem startOf_is (data : List Byte) : startOf data = soh ∨ startOf data = stx := by
  unfold startOf
  split
  · exact Or.inl rfl
  · exact Or.inr rfl

theorem IsSize.le (h : IsSize data.length) : data.length ≤ 1024 := by
  rcases h with heq | heq <;> omega

theorem IsSize.least (h : IsSize data.length) : 128 ≤ data.length := by
  rcases h with heq | heq <;> omega

theorem IsSize.pos (h : IsSize data.length) : 0 < data.length := by
  rcases h with heq | heq <;> omega

theorem IsSize.fromStart (h : IsSize data.length) :
    (if startOf data = soh then 128 else 1024) = data.length := by
  rcases h with heq | heq
  · rw [startOf_small heq, if_pos rfl, heq]
  · rw [startOf_large heq, if_neg (by decide), heq]

/-!
# Reading a block
-/

theorem set_between (pkt : List Byte) {i : Nat} (hi : i < pkt.length) (c : Byte)
    (data : List Byte) :
    (pkt.set i c).take (i + 1) ++ data ++ (pkt.set i c).drop (i + 1 + data.length) =
      pkt.take i ++ c :: data ++ pkt.drop (i + (data.length + 1)) := by
  have hfront : (pkt.take i).length = i := List.length_take_of_le (Nat.le_of_lt hi)
  have hset : pkt.set i c = (pkt.take i ++ [c]) ++ pkt.drop (i + 1) := by
    rw [List.set_eq_take_append_cons_drop, if_pos hi, List.append_assoc]
    rfl
  have hlength : (pkt.take i ++ [c]).length = i + 1 := by
    rw [List.length_append, hfront]
    rfl
  have htake : (pkt.set i c).take (i + 1) = pkt.take i ++ [c] := by
    rw [hset]
    exact List.take_left' hlength
  have hdrop : (pkt.set i c).drop (i + 1 + data.length) = pkt.drop (i + (data.length + 1)) := by
    have hsum : i + 1 + data.length = i + (data.length + 1) := by omega
    rw [hset, ← hlength, List.drop_append, List.drop_drop, hlength,
      List.drop_eq_nil_of_le (by rw [hlength]; exact Nat.le_add_right _ _), List.nil_append,
      Nat.add_sub_cancel_left, hsum]
  rw [htake, hdrop, List.append_assoc (pkt.take i) [c] data]
  rfl

theorem readData_all (rest : Line) (next : Packet -> Line -> Stat × Packet × Line)
    (data : List Byte) :
    forall (p : Packet) (i : Nat), i + data.length ≤ p.pkt.length ->
      readData next data.length i p (data.map some ++ rest) =
        next { p with pkt := p.pkt.take i ++ data ++ p.pkt.drop (i + data.length) } rest := by
  induction data with
  | nil =>
      intro p i hroom
      have hpkt : p.pkt.take i ++ [] ++ p.pkt.drop (i + 0) = p.pkt := by
        rw [List.append_nil, Nat.add_zero, List.take_append_drop]
      show next p rest = next { p with pkt := p.pkt.take i ++ [] ++ p.pkt.drop (i + 0) } rest
      rw [hpkt]
  | cons c data ih =>
      intro p i hroom
      have hlength : (c :: data).length = data.length + 1 := rfl
      rw [hlength] at hroom ⊢
      have hnext := ih { p with pkt := p.pkt.set i c } (i + 1) (by
        show i + 1 + data.length ≤ (p.pkt.set i c).length
        rw [List.length_set]
        omega)
      show readData next data.length (i + 1) { p with pkt := p.pkt.set i c }
        (data.map some ++ rest) = _
      rw [hnext]
      dsimp only
      rw [set_between p.pkt (by omega) c data]

theorem readBlock_all (hroom : p.pkt.length = 1024) (hsize : IsSize data.length)
    (blk cblk crc1 crc2 : Byte) :
    readBlock true (startOf data) p
        (some blk :: some cblk :: (data.map some ++ some crc1 :: some crc2 :: rest)) =
      validate true (taken p.pkt blk cblk crc1 crc2 data) rest := by
  have hle : 0 + data.length ≤ p.pkt.length := by
    rw [hroom, Nat.zero_add]
    exact hsize.le
  let q : Packet := { p with blk := blk, cblk := cblk, len := (data.length : Int), bufp := 0 }
  have hread := readData_all (some crc1 :: some crc2 :: rest) (readCheck true) data q 0 hle
  rw [List.take_zero, List.nil_append, Nat.zero_add] at hread
  show readData (readCheck true) (if startOf data = soh then 128 else 1024) 0
    { p with
      blk := blk, cblk := cblk, len := ((if startOf data = soh then 128 else 1024 : Nat) : Int),
      bufp := 0 } (data.map some ++ some crc1 :: some crc2 :: rest) = _
  rw [hsize.fromStart]
  exact hread

theorem acked_packet (x : Xyz) : x.acked.packet = x.packet := by
  unfold Xyz.acked
  split <;> rfl

theorem acked_crcMode (x : Xyz) : x.acked.crcMode = x.crcMode := by
  unfold Xyz.acked
  split <;> rfl

theorem findHeader_start {c : Byte} (h : c = soh ∨ c = stx) (counts : Counts) (i j : Nat) :
    exists counts', findHeader counts i j (some c :: rest) = (.start c, counts', rest) := by
  rcases h with rfl | rfl
  · exact ⟨_, rfl⟩
  · exact ⟨_, rfl⟩

/-- What a header begins is read into the packet, with the acknowledgement sent before. -/
theorem getHdr_start {c : Byte} (h : c = soh ∨ c = stx) (hinput : x.input = some c :: rest) :
    exists counts, getHdr x = ((readBlock x.crcMode c x.packet rest).1,
      { x.acked with
        counts := counts
        packet := (readBlock x.crcMode c x.packet rest).2.1
        input := (readBlock x.crcMode c x.packet rest).2.2 }) := by
  rcases findHeader_start h x.counts 0 0 with ⟨counts, hfound⟩
  refine ⟨counts, ?_⟩
  unfold getHdr
  rw [hinput, hfound, ← acked_crcMode x, ← acked_packet x]

theorem getHdr_block (hroom : x.packet.pkt.length = 1024) (hcrc : x.crcMode = true)
    (hsize : IsSize data.length) (blk cblk crc1 crc2 : Byte)
    (hinput : x.input = (blockBytes blk cblk crc1 crc2 data).map some ++ rest) :
    exists counts, getHdr x =
      ((validate true (taken x.packet.pkt blk cblk crc1 crc2 data) rest).1,
        { x.acked with
          counts := counts
          packet := (validate true (taken x.packet.pkt blk cblk crc1 crc2 data) rest).2.1
          input := (validate true (taken x.packet.pkt blk cblk crc1 crc2 data) rest).2.2 }) := by
  have hline : x.input = some (startOf data) :: some blk :: some cblk ::
      (data.map some ++ some crc1 :: some crc2 :: rest) := by
    rw [hinput]
    unfold blockBytes
    simp
  rcases getHdr_start (startOf_is data) hline with ⟨counts, hget⟩
  rw [hcrc, readBlock_all hroom hsize blk cblk crc1 crc2] at hget
  exact ⟨counts, hget⟩

/-!
# The checks
-/

theorem taken_data (pkt : List Byte) (blk cblk crc1 crc2 : Byte) (data : List Byte) :
    (taken pkt blk cblk crc1 crc2 data).pkt.take
      (taken pkt blk cblk crc1 crc2 data).len.toNat = data :=
  List.take_left' rfl

theorem taken_length {pkt : List Byte} (hroom : pkt.length = 1024) (hsize : IsSize data.length)
    (blk cblk crc1 crc2 : Byte) : (taken pkt blk cblk crc1 crc2 data).pkt.length = 1024 := by
  have hle := hsize.le
  show (data ++ pkt.drop data.length).length = 1024
  rw [List.length_append, List.length_drop, hroom]
  omega

theorem complement_xor (blk : Byte) : blk ^^^ ~~~ blk = 0xff#8 := by
  rw [← BitVec.not_xor_right, BitVec.xor_self]
  rfl

theorem validate_numbered (pkt : List Byte) (blk crc1 crc2 : Byte) (data : List Byte) :
    validate true (taken pkt blk (~~~ blk) crc1 crc2 data) rest =
      (if cygCrc16 data = crc1 ++ crc2 then Stat.ok else Stat.cksum,
        taken pkt blk (~~~ blk) crc1 crc2 data, rest) := by
  have hnumber : ¬ (taken pkt blk (~~~ blk) crc1 crc2 data).blk ^^^
      (taken pkt blk (~~~ blk) crc1 crc2 data).cblk ≠ 0xff#8 := not_not.mpr (complement_xor blk)
  unfold validate
  rw [if_neg hnumber, if_pos rfl, taken_data]
  by_cases h : cygCrc16 data = crc1 ++ crc2
  · rw [if_pos h]
    exact if_neg (not_not.mpr h)
  · rw [if_neg h]
    exact if_pos h

theorem validate_misframed {pkt : List Byte} {blk cblk crc1 crc2 : Byte}
    (h : blk ^^^ cblk ≠ 0xff#8) (data : List Byte) :
    validate true (taken pkt blk cblk crc1 crc2 data) rest =
      (.frame, taken pkt blk cblk crc1 crc2 data, flush rest) := if_pos h

/-!
# Good blocks
-/

def goodBlock (blk : Byte) (data : List Byte) : List Byte :=
  blockBytes blk (~~~ blk) ((cygCrc16 data).extractLsb' 8 8) ((cygCrc16 data).extractLsb' 0 8)
    data

def goodPacket (pkt : List Byte) (blk : Byte) (data : List Byte) : Packet :=
  taken pkt blk (~~~ blk) ((cygCrc16 data).extractLsb' 8 8) ((cygCrc16 data).extractLsb' 0 8)
    data

theorem goodPacket_length {pkt : List Byte} (hroom : pkt.length = 1024)
    (hsize : IsSize data.length) (blk : Byte) :
    (goodPacket pkt blk data).pkt.length = 1024 := taken_length hroom hsize _ _ _ _

theorem halves (c : BitVec 16) : (c.extractLsb' 8 8 ++ c.extractLsb' 0 8 : BitVec 16) = c := by
  apply BitVec.eq_of_getLsbD_eq
  intro i hi
  rw [BitVec.getLsbD_append, BitVec.getLsbD_extractLsb', BitVec.getLsbD_extractLsb']
  by_cases hlow : i < 8
  · simp [hlow]
  · have hhigh : i - 8 < 8 := by omega
    have hindex : 8 + (i - 8) = i := by omega
    simp [hlow, hhigh, hindex]

theorem getHdr_good (hroom : x.packet.pkt.length = 1024) (hcrc : x.crcMode = true)
    (hsize : IsSize data.length) (blk : Byte)
    (hinput : x.input = (goodBlock blk data).map some ++ rest) :
    exists counts, getHdr x = (.ok, { x.acked with
      counts := counts, packet := goodPacket x.packet.pkt blk data, input := rest }) := by
  rcases getHdr_block hroom hcrc hsize _ _ _ _ hinput with ⟨counts, hget⟩
  refine ⟨counts, ?_⟩
  rw [hget, validate_numbered, if_pos (halves (cygCrc16 data)).symm]
  rfl

/-!
# What is not a block
-/

/-- Bytes in which no block begins, and no end of the file or of the transfer. -/
def Harmless (junk : List Byte) : Prop :=
  soh ∉ junk ∧ stx ∉ junk ∧ junk.head? ≠ some eot ∧ junk.count can < canCount

/-- What the line brings instead of a block, up to where the next one may begin. -/
inductive Noise : Line -> Prop where
  /-- Nothing that is a header, and then silence, twice. -/
  | silence (junk tail : List Byte) (hjunk : Harmless junk) :
      Noise (junk.map some ++ none :: (tail.map some ++ [none]))
  /-- A block of which the end is missing. -/
  | cut (start : Byte) (bytes : List Byte) (hstart : start = soh ∨ start = stx)
      (hshort : bytes.length < (if start = soh then 128 else 1024) + 4) :
      Noise (some start :: (bytes.map some ++ [none]))
  /-- A block with a wrong checksum. -/
  | damaged (blk crc1 crc2 : Byte) (data : List Byte) (hsize : IsSize data.length)
      (hcrc : cygCrc16 data ≠ crc1 ++ crc2) :
      Noise ((blockBytes blk (~~~ blk) crc1 crc2 data).map some)
  /-- A block with a wrong complement of its number, and what comes behind it up to a silence. -/
  | misframed (blk cblk crc1 crc2 : Byte) (data tail : List Byte) (hsize : IsSize data.length)
      (hnumber : blk ^^^ cblk ≠ 0xff#8) :
      Noise ((blockBytes blk cblk crc1 crc2 data).map some ++ (tail.map some ++ [none]))

/-- The errors after which a block is asked for again. -/
def Stat.Passing (stat : Stat) : Prop := stat = .timeout ∨ stat = .frame ∨ stat = .cksum

theorem flush_silence (tail : List Byte) : flush (tail.map some ++ none :: rest) = rest := by
  induction tail with
  | nil => rfl
  | cons c tail ih => exact ih

theorem findHeader_junk (rest : Line) (junk : List Byte) :
    forall (counts : Counts) (i j : Nat), soh ∉ junk -> stx ∉ junk ->
      (j = 0 -> junk.head? ≠ some eot) -> i + junk.count can < canCount ->
      exists counts', findHeader counts i j (junk.map some ++ none :: rest) =
        (.timeout, counts', flush rest) := by
  induction junk with
  | nil =>
      intro counts i j _ _ _ _
      exact ⟨counts, rfl⟩
  | cons c junk ih =>
      intro counts i j hsoh hstx hhead hcan
      have hne : c ≠ soh := fun heq => hsoh (heq ▸ List.mem_cons_self)
      have hne' : c ≠ stx := fun heq => hstx (heq ▸ List.mem_cons_self)
      have hsoh' : soh ∉ junk := fun hmem => hsoh (List.mem_cons_of_mem c hmem)
      have hstx' : stx ∉ junk := fun hmem => hstx (List.mem_cons_of_mem c hmem)
      have hlater : j + 1 = 0 -> junk.head? ≠ some eot :=
        fun heq => absurd heq (Nat.succ_ne_zero j)
      show exists counts', findHeader counts i j (some c :: (junk.map some ++ none :: rest)) = _
      unfold findHeader
      rw [if_neg hne, if_neg hne']
      by_cases hc : c = can
      · rw [hc, List.count_cons_self] at hcan
        have hnot : ¬ i + 1 = canCount := by omega
        rw [if_pos hc, if_neg hnot]
        exact ih _ _ _ hsoh' hstx' hlater (by omega)
      · have heot : ¬ (c = eot ∧ j = 0) := by
          rintro ⟨heq, hj⟩
          exact hhead hj (congrArg some heq)
        rw [List.count_cons_of_ne hc] at hcan
        rw [if_neg hc, if_neg heot]
        exact ih _ _ _ hsoh' hstx' hlater hcan

theorem readData_cut (next : Packet -> Line -> Stat × Packet × Line) (n : Nat) :
    forall (data : List Byte) (i : Nat) (p : Packet), data.length < n ->
      exists p', readData next n i p (data.map some ++ none :: rest) = (.timeout, p', rest) ∧
        p'.pkt.length = p.pkt.length := by
  induction n with
  | zero =>
      intro data i p hlt
      exact absurd hlt (Nat.not_lt_zero _)
  | succ n ih =>
      intro data i p hlt
      cases data with
      | nil => exact ⟨p, rfl, rfl⟩
      | cons c data =>
          rcases ih data (i + 1) { p with pkt := p.pkt.set i c } (Nat.lt_of_succ_lt_succ hlt) with
            ⟨p', hread, hlength⟩
          exact ⟨p', hread, hlength.trans List.length_set⟩

theorem readData_length (rest : Line) (next : Packet -> Line -> Stat × Packet × Line)
    (data : List Byte) :
    forall (p : Packet) (i : Nat), exists p', p'.pkt.length = p.pkt.length ∧
      readData next data.length i p (data.map some ++ rest) = next p' rest := by
  induction data with
  | nil =>
      intro p i
      exact ⟨p, rfl, rfl⟩
  | cons c data ih =>
      intro p i
      rcases ih { p with pkt := p.pkt.set i c } (i + 1) with ⟨p', hlength, hread⟩
      exact ⟨p', hlength.trans List.length_set, hread⟩

theorem readCheck_cut (rest : Line) (tail : List Byte) (htail : tail.length < 2) (p : Packet) :
    exists p', readCheck true p (tail.map some ++ none :: rest) = (.timeout, p', rest) ∧
      p'.pkt.length = p.pkt.length := by
  cases tail with
  | nil => exact ⟨p, rfl, rfl⟩
  | cons c tail =>
      have hnil : tail = [] := List.length_eq_zero_iff.mp (by
        rw [List.length_cons] at htail
        omega)
      rw [hnil]
      exact ⟨_, rfl, rfl⟩

theorem readBlock_cut (rest : Line) (start : Byte) (bytes : List Byte) (p : Packet)
    (hshort : bytes.length < (if start = soh then 128 else 1024) + 4) :
    exists p', readBlock true start p (bytes.map some ++ none :: rest) = (.timeout, p', rest) ∧
      p'.pkt.length = p.pkt.length := by
  cases bytes with
  | nil => exact ⟨p, rfl, rfl⟩
  | cons blk bytes =>
      cases bytes with
      | nil => exact ⟨_, rfl, rfl⟩
      | cons cblk bytes =>
          let n := if start = soh then 128 else 1024
          let q : Packet := { p with blk := blk, cblk := cblk, len := (n : Int), bufp := 0 }
          have hn : bytes.length < n + 2 := by
            rw [List.length_cons, List.length_cons] at hshort
            omega
          show exists p', readData (readCheck true) n 0 q (bytes.map some ++ none :: rest) =
            (.timeout, p', rest) ∧ p'.pkt.length = p.pkt.length
          by_cases hcut : bytes.length < n
          · exact readData_cut (readCheck true) n bytes 0 q hcut
          · have hfront : (bytes.take n).length = n := List.length_take_of_le (by omega)
            have hsplit : bytes.map some ++ none :: rest =
                (bytes.take n).map some ++ ((bytes.drop n).map some ++ none :: rest) := by
              rw [← List.append_assoc, ← List.map_append, List.take_append_drop]
            rcases readData_length ((bytes.drop n).map some ++ none :: rest)
              (readCheck true) (bytes.take n) q 0 with ⟨p', hlength, hread⟩
            rcases readCheck_cut rest (bytes.drop n)
              (by rw [List.length_drop]; omega) p' with ⟨p'', hcheck, hlength'⟩
            rw [hfront, ← hsplit] at hread
            exact ⟨p'', hread.trans hcheck, hlength'.trans hlength⟩

theorem getHdr_noise {line : Line} (hnoise : Noise line) (hroom : x.packet.pkt.length = 1024)
    (hcrc : x.crcMode = true) (hinput : x.input = line ++ rest) :
    exists stat counts p, getHdr x =
        (stat, { x.acked with counts := counts, packet := p, input := rest }) ∧
      stat.Passing ∧ p.pkt.length = 1024 := by
  cases hnoise with
  | silence junk tail hjunk =>
      rcases hjunk with ⟨hsoh, hstx, hhead, hcan⟩
      rcases findHeader_junk (tail.map some ++ none :: rest) junk x.counts 0 0 hsoh hstx
        (fun _ => hhead) (by omega) with ⟨counts, hfind⟩
      have hline : x.input = junk.map some ++ none :: (tail.map some ++ none :: rest) := by
        rw [hinput]
        simp
      rw [flush_silence] at hfind
      refine ⟨.timeout, counts, x.packet, ?_, Or.inl rfl, hroom⟩
      unfold getHdr
      rw [hline, hfind, ← acked_packet x]
  | cut start bytes hstart hshort =>
      have hline : x.input = some start :: (bytes.map some ++ none :: rest) := by
        rw [hinput]
        simp
      rcases getHdr_start hstart hline with ⟨counts, hget⟩
      rcases readBlock_cut rest start bytes x.packet hshort with ⟨p, hread, hlength⟩
      rw [hcrc, hread] at hget
      exact ⟨.timeout, counts, p, hget, Or.inl rfl, hlength.trans hroom⟩
  | damaged blk crc1 crc2 data hsize hbad =>
      rcases getHdr_block hroom hcrc hsize _ _ _ _ hinput with ⟨counts, hget⟩
      rw [validate_numbered, if_neg hbad] at hget
      exact ⟨.cksum, counts, _, hget, Or.inr (Or.inr rfl), taken_length hroom hsize _ _ _ _⟩
  | misframed blk cblk crc1 crc2 data tail hsize hnumber =>
      have hline : x.input = (blockBytes blk cblk crc1 crc2 data).map some ++
          (tail.map some ++ none :: rest) := by
        rw [hinput]
        simp
      rcases getHdr_block hroom hcrc hsize _ _ _ _ hline with ⟨counts, hget⟩
      rw [validate_misframed hnumber, flush_silence] at hget
      exact ⟨.frame, counts, _, hget, Or.inr (Or.inl rfl), taken_length hroom hsize _ _ _ _⟩

end Xyzmodem
end Load
end Bab750
