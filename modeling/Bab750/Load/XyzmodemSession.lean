import Bab750.Load.XyzmodemFrames

/-!
# A transfer on the line

The blocks of a file, each one behind whatever the line brings in its place, and what
`xyzModem_stream_read` hands out of them.
-/

namespace Bab750
namespace Load
namespace Xyzmodem

open Foundation

/-- What a block that is refused leaves as it was. -/
structure Core where
  mode : Mode
  crcMode : Bool
  atEof : Bool
  nextBlk : Byte
  fileLength : BitVec 32
  readLength : BitVec 32

def Xyz.core (x : Xyz) : Core :=
  ⟨x.mode, x.crcMode, x.atEof, x.nextBlk, x.fileLength, x.readLength⟩

/-- What the line brings when block `k` was the last one, in place of the next. -/
inductive Idle (k : Nat) : Line -> Prop where
  | noise {line : Line} (h : Noise line) : Idle k line
  | stale (blk : Byte) (data : List Byte) (hsize : IsSize data.length)
      (hblk : blk ≠ BitVec.ofNat 8 (k + 1)) : Idle k ((goodBlock blk data).map some)

/-- The blocks of a file behind block `k`, and `tail`. -/
inductive Rounds (tail : Line) : Nat -> List (List Byte) -> Line -> Prop where
  | last {k : Nat} (items : List Line) (hfew : items.length < maxRetries)
      (hidle : forall line, line ∈ items -> Idle k line) :
      Rounds tail k [] (items.flatten ++ tail)
  | next {k : Nat} (items : List Line) (hfew : items.length < maxRetries)
      (hidle : forall line, line ∈ items -> Idle k line) (data : List Byte)
      (hsize : IsSize data.length) {blocks : List (List Byte)} {line : Line}
      (hline : Rounds tail (k + 1) blocks line) :
      Rounds tail k (data :: blocks)
        (items.flatten ++ ((goodBlock (BitVec.ofNat 8 (k + 1)) data).map some ++ line))

variable {x : Xyz} {rest tail : Line} {k : Nat}

theorem acked_core (x : Xyz) : x.acked.core = x.core := by
  unfold Xyz.acked
  split <;> rfl

/-!
# Until the next block
-/

theorem nextBlock_passing {stat : Stat} {x' : Xyz} (hget : getHdr x = (stat, x'))
    (hpassing : stat.Passing) (n : Nat) (before : Stat) :
    nextBlock (n + 1) before x = nextBlock n stat x'.askAgain := by
  conv_lhs => unfold nextBlock
  rw [hget]
  rcases hpassing with rfl | rfl | rfl <;> rfl

theorem nextBlock_stale {x' : Xyz} (hget : getHdr x = (.ok, x'))
    (hblk : x'.packet.blk ≠ x'.nextBlk) (n : Nat) (before : Stat) :
    exists stat x'', nextBlock (n + 1) before x = nextBlock n stat x'' ∧
      x''.core = x'.core ∧ x''.packet = x'.packet ∧ x''.input = x'.input := by
  by_cases hlast : x'.packet.blk = x'.nextBlk - 1#8
  · refine ⟨.ok, x'.put ack, ?_, rfl, rfl, rfl⟩
    conv_lhs => unfold nextBlock
    rw [hget]
    exact (if_neg hblk).trans (if_pos hlast)
  · refine ⟨.sequence, x'.askAgain, ?_, rfl, rfl, rfl⟩
    conv_lhs => unfold nextBlock
    rw [hget]
    exact (if_neg hblk).trans (if_neg hlast)

theorem nextBlock_idle_one {line : Line} (hidle : Idle k line)
    (hroom : x.packet.pkt.length = 1024) (hcrc : x.crcMode = true)
    (hnext : x.nextBlk = BitVec.ofNat 8 (k + 1)) (hinput : x.input = line ++ rest) (n : Nat)
    (before : Stat) :
    exists stat x', nextBlock (n + 1) before x = nextBlock n stat x' ∧
      x'.core = x.core ∧ x'.packet.pkt.length = 1024 ∧ x'.input = rest := by
  cases hidle with
  | noise hnoise =>
      rcases getHdr_noise hnoise hroom hcrc hinput with
        ⟨stat, counts, p, hget, hpassing, hlength⟩
      exact ⟨stat, _, nextBlock_passing hget hpassing n before, acked_core x, hlength, rfl⟩
  | stale blk data hsize hblk =>
      rcases getHdr_good hroom hcrc hsize blk hinput with ⟨counts, hget⟩
      have hcore := acked_core x
      have hnumber : x.acked.nextBlk = x.nextBlk := congrArg Core.nextBlk hcore
      have hne : blk ≠ x.acked.nextBlk := by
        rw [hnumber, hnext]
        exact hblk
      rcases nextBlock_stale hget hne n before with ⟨stat, x', hstep, hsame, hpacket, hrest⟩
      refine ⟨stat, x', hstep, hsame.trans hcore, ?_, hrest⟩
      rw [hpacket]
      exact goodPacket_length hroom hsize _

theorem nextBlock_idle (items : List Line) :
    forall (x : Xyz) (before : Stat), (forall line, line ∈ items -> Idle k line) ->
      x.packet.pkt.length = 1024 -> x.crcMode = true -> x.nextBlk = BitVec.ofNat 8 (k + 1) ->
      x.input = items.flatten ++ rest -> forall n,
      exists stat x', nextBlock (items.length + n) before x = nextBlock n stat x' ∧
        x'.core = x.core ∧ x'.packet.pkt.length = 1024 ∧ x'.input = rest := by
  induction items with
  | nil =>
      intro x before _ hroom _ _ hinput n
      exact ⟨before, x, by rw [List.length_nil, Nat.zero_add], rfl, hroom, hinput⟩
  | cons line items ih =>
      intro x before hidle hroom hcrc hnext hinput n
      have hinput : x.input = line ++ (items.flatten ++ rest) := by
        rw [hinput, List.flatten_cons, List.append_assoc]
      have htries : (line :: items).length + n = items.length + n + 1 := by
        rw [List.length_cons]
        omega
      rcases nextBlock_idle_one (hidle line List.mem_cons_self) hroom hcrc hnext hinput
        (items.length + n) before with ⟨stat, x', hstep, hcore, hlength, hrest⟩
      rcases ih x' stat (fun l hl => hidle l (List.mem_cons_of_mem line hl)) hlength
        ((congrArg Core.crcMode hcore).trans hcrc) ((congrArg Core.nextBlk hcore).trans hnext)
        hrest n with ⟨stat', x'', hrun, hcore', hlength', hrest'⟩
      exact ⟨stat', x'', by rw [htries, hstep, hrun], hcore'.trans hcore, hlength', hrest'⟩

/-- The next block is taken, whatever comes before it in fewer things than there are tries. -/
theorem nextBlock_next (items : List Line) (hfew : items.length < maxRetries)
    (hidle : forall line, line ∈ items -> Idle k line) {data : List Byte}
    (hsize : IsSize data.length) (hroom : x.packet.pkt.length = 1024) (hcrc : x.crcMode = true)
    (hnext : x.nextBlk = BitVec.ofNat 8 (k + 1))
    (hinput : x.input = items.flatten ++
      ((goodBlock (BitVec.ofNat 8 (k + 1)) data).map some ++ rest)) (before : Stat) :
    exists pkt x', nextBlock maxRetries before x = (.ok, acceptBlock x') ∧ x'.core = x.core ∧
      pkt.length = 1024 ∧ x'.packet = goodPacket pkt (BitVec.ofNat 8 (k + 1)) data ∧
      x'.input = rest := by
  have htries : maxRetries = items.length + (maxRetries - items.length - 1 + 1) := by omega
  rcases nextBlock_idle items x before hidle hroom hcrc hnext hinput
    (maxRetries - items.length - 1 + 1) with ⟨stat, x', hrun, hcore, hlength, hrest⟩
  have hcrc' : x'.crcMode = true := (congrArg Core.crcMode hcore).trans hcrc
  have hnext' : x'.nextBlk = BitVec.ofNat 8 (k + 1) := (congrArg Core.nextBlk hcore).trans hnext
  rcases getHdr_good hlength hcrc' hsize _ hrest with ⟨counts, hget⟩
  have hnumber : x'.acked.nextBlk = BitVec.ofNat 8 (k + 1) :=
    (congrArg Core.nextBlk (acked_core x')).trans hnext'
  refine ⟨x'.packet.pkt, { x'.acked with
    counts := counts
    packet := goodPacket x'.packet.pkt (BitVec.ofNat 8 (k + 1)) data
    input := rest }, ?_, (acked_core x').trans hcore, hlength, rfl, rfl⟩
  rw [htries, hrun]
  unfold nextBlock
  rw [hget]
  exact if_pos hnumber.symm

/-!
# A block is taken
-/

theorem acceptBlock_bounded {fileLength readLength : Nat} {pkt data : List Byte} {blk : Byte}
    (hcore : x.core = ⟨.ymodem, true, false, blk, BitVec.ofNat 32 fileLength,
      BitVec.ofNat 32 readLength⟩)
    (hpacket : x.packet = goodPacket pkt blk data) (hsize : IsSize data.length)
    (hlt : readLength < fileLength) (hfits : readLength + data.length < 2 ^ 32)
    (hlong : fileLength < 2 ^ 31) :
    acceptBlock x = { x with
      packet := { goodPacket pkt blk data with
        len := (min data.length (fileLength - readLength) : Nat) }
      nextBlk := blk + 1#8
      txAck := true
      readLength := BitVec.ofNat 32 (readLength + data.length) } := by
  have hmode : x.mode = .ymodem := congrArg Core.mode hcore
  have hnext : x.nextBlk = blk := congrArg Core.nextBlk hcore
  have hfile : x.fileLength = BitVec.ofNat 32 fileLength := congrArg Core.fileLength hcore
  have hread : x.readLength = BitVec.ofNat 32 readLength := congrArg Core.readLength hcore
  have hle := hsize.le
  have hknown : x.fileLength ≠ 0#32 := by
    intro heq
    have hzero := congrArg BitVec.toNat (hfile.symm.trans heq)
    rw [BitVec.toNat_ofNat, BitVec.toNat_ofNat] at hzero
    omega
  have hlen : x.packet.len = data.length := by
    rw [hpacket]
    rfl
  have htrimmed : x.trimmedLen = data.length := by
    unfold Xyz.trimmedLen
    rw [if_neg (by rw [hmode]; simp [hknown]), hlen]
  have hsum : x.readLength + BitVec.ofInt 32 data.length =
      BitVec.ofNat 32 (readLength + data.length) := by
    rw [hread, BitVec.ofInt_natCast, BitVec.ofNat_add]
  have hbounded : x.boundedLen data.length (BitVec.ofNat 32 (readLength + data.length)) =
      (min data.length (fileLength - readLength) : Nat) := by
    have hcmp : x.fileLength < BitVec.ofNat 32 (readLength + data.length) <->
        fileLength < readLength + data.length := by
      rw [hfile, BitVec.lt_def, BitVec.toNat_ofNat, BitVec.toNat_ofNat,
        Nat.mod_eq_of_lt hfits, Nat.mod_eq_of_lt (by omega)]
    unfold Xyz.boundedLen
    by_cases hover : fileLength < readLength + data.length
    · rw [if_pos (hcmp.mpr hover), hfile, BitVec.ofInt_natCast]
      have hrest : BitVec.ofNat 32 data.length -
          (BitVec.ofNat 32 (readLength + data.length) - BitVec.ofNat 32 fileLength) =
            BitVec.ofNat 32 (fileLength - readLength) := by
        apply BitVec.eq_of_toNat_eq
        simp only [BitVec.toNat_sub, BitVec.toNat_ofNat]
        omega
      rw [hrest, BitVec.toInt_eq_toNat_of_lt (by rw [BitVec.toNat_ofNat]; omega),
        BitVec.toNat_ofNat, Nat.mod_eq_of_lt (by omega), Nat.min_eq_right (by omega)]
    · rw [if_neg (fun h => hover (hcmp.mp h)), Nat.min_eq_left (by omega)]
  unfold acceptBlock
  rw [if_pos ⟨by rw [hmode]; decide, hknown⟩, htrimmed, hsum]
  dsimp only
  rw [hbounded, hnext, hpacket]

/-!
# What is still to come
-/

/-- The bytes of the block at hand that were not handed out. -/
def Xyz.held (x : Xyz) : List Byte := (x.packet.pkt.drop x.packet.bufp).take x.packet.len.toNat

/--
Between two steps of a transfer: `readLength` bytes came in `k` blocks, `held` is what is left of
the last one, and the line brings `input`.
-/
structure AtBlock (fileLength k readLength : Nat) (held : List Byte) (input : Line) (x : Xyz) :
    Prop where
  core : x.core = ⟨.ymodem, true, false, BitVec.ofNat 8 (k + 1), BitVec.ofNat 32 fileLength,
    BitVec.ofNat 32 readLength⟩
  room : x.packet.pkt.length = 1024
  nonneg : 0 ≤ x.packet.len
  inside : x.packet.bufp + x.packet.len.toNat ≤ 1024
  held : x.held = held
  input : x.input = input

section AtBlock

variable {fileLength readLength : Nat} {held : List Byte} {input : Line}

theorem held_length (hroom : x.packet.pkt.length = 1024)
    (hinside : x.packet.bufp + x.packet.len.toNat ≤ 1024) :
    x.held.length = x.packet.len.toNat := by
  unfold Xyz.held
  rw [List.length_take, List.length_drop, hroom]
  omega

theorem held_nil (h : x.packet.len = 0) : x.held = [] := by
  unfold Xyz.held
  rw [h]
  rfl

theorem AtBlock.copy (h : AtBlock fileLength k readLength held input x) (size : Nat) :
    exists x', copyOut x size = some (held.take size, x') ∧
      AtBlock fileLength k readLength (held.drop size) input x' := by
  rcases h with ⟨hcore, hroom, hnonneg, hinside, rfl, hinput⟩
  let n := min size x.packet.len.toNat
  have hlen : (if (size : Int) < x.packet.len then (size : Int) else x.packet.len) =
      (n : Int) := by
    split <;> omega
  have hbytes : (x.packet.pkt.drop x.packet.bufp).take n = x.held.take size := by
    unfold Xyz.held
    rw [List.take_take]
  let x' : Xyz := { x with
    packet := { x.packet with len := x.packet.len - n, bufp := x.packet.bufp + n } }
  have hleft : x'.packet.len.toNat = x.packet.len.toNat - n := by
    show (x.packet.len - n).toNat = _
    omega
  refine ⟨x', ?_, ⟨hcore, hroom, ?_, ?_, ?_, hinput⟩⟩
  · unfold copyOut
    dsimp only
    rw [hlen, if_neg (by omega), Int.toNat_natCast, hbytes]
  · show 0 ≤ x.packet.len - n
    omega
  · rw [hleft]
    show x.packet.bufp + n + _ ≤ 1024
    omega
  · show (x.packet.pkt.drop (x.packet.bufp + n)).take x'.packet.len.toNat = _
    unfold Xyz.held
    rw [hleft, List.drop_take, List.drop_drop]
    by_cases hsize : size ≤ x.packet.len.toNat
    · rw [show n = size from Nat.min_eq_left hsize]
    · rw [Nat.sub_eq_zero_of_le (by omega), Nat.sub_eq_zero_of_le (by omega), List.take_zero,
        List.take_zero]

/-- The next block is read, whatever comes before it in fewer things than there are tries. -/
theorem AtBlock.next {items : List Line} {data : List Byte}
    (h : AtBlock fileLength k readLength held (items.flatten ++
      ((goodBlock (BitVec.ofNat 8 (k + 1)) data).map some ++ rest)) x)
    (hfew : items.length < maxRetries) (hidle : forall line, line ∈ items -> Idle k line)
    (hsize : IsSize data.length) (hlt : readLength < fileLength) (hlong : fileLength < 2 ^ 31)
    (before : Stat) :
    exists x', nextBlock maxRetries before x = (.ok, x') ∧
      AtBlock fileLength (k + 1) (readLength + data.length)
        (data.take (fileLength - readLength)) rest x' := by
  have hle := hsize.le
  rcases nextBlock_next items hfew hidle hsize h.room (congrArg Core.crcMode h.core)
    (congrArg Core.nextBlk h.core) h.input before with
    ⟨pkt, x', hnext, hsame, hlength, hpacket, hline⟩
  have hcore' := hsame.trans h.core
  rw [acceptBlock_bounded hcore' hpacket hsize hlt (by omega) hlong] at hnext
  have hheld : ((goodPacket pkt (BitVec.ofNat 8 (k + 1)) data).pkt.drop 0).take
      ((min data.length (fileLength - readLength) : Nat) : Int).toNat =
        data.take (fileLength - readLength) := by
    show ((data ++ pkt.drop data.length).drop 0).take
      (min data.length (fileLength - readLength)) = _
    rw [List.drop_zero, List.take_append_of_le_length (Nat.min_le_left _ _),
      List.take_eq_take_iff]
    omega
  have hnumber : BitVec.ofNat 8 (k + 1) + 1#8 = BitVec.ofNat 8 (k + 1 + 1) := by
    rw [BitVec.ofNat_add (k + 1) 1]
  have hroom' := goodPacket_length hlength hsize (BitVec.ofNat 8 (k + 1))
  refine ⟨_, hnext, ⟨?_, hroom', Int.natCast_nonneg _, ?_, hheld, hline⟩⟩
  · unfold Xyz.core at hcore' ⊢
    rw [Core.mk.injEq] at hcore' ⊢
    exact ⟨hcore'.1, hcore'.2.1, hcore'.2.2.1, hnumber, hcore'.2.2.2.2.1, rfl⟩
  · show 0 + ((min data.length (fileLength - readLength) : Nat) : Int).toNat ≤ 1024
    rw [Int.toNat_natCast]
    omega

theorem AtBlock.going (h : AtBlock fileLength k readLength held input x) {size : Nat}
    (hsize : size ≠ 0) : ¬ (x.atEof ∨ size = 0) := by
  have heof : x.atEof = false := congrArg Core.atEof h.core
  rw [heof]
  rintro (hend | hend)
  · cases hend
  · exact hsize hend

theorem AtBlock.readLoop_copy (h : AtBlock fileLength k readLength held input x)
    (hheld : held ≠ []) {size : Nat} (hsize : size ≠ 0) (fuel : Nat) (data : List Byte) :
    exists x', readLoop (fuel + 1) x size data =
        readLoop fuel x' (size - (held.take size).length) (data ++ held.take size) ∧
      AtBlock fileLength k readLength (held.drop size) input x' := by
  have heof : x.atEof = false := congrArg Core.atEof h.core
  have hne : x.packet.len ≠ 0 := by
    intro hempty
    rw [← h.held] at hheld
    exact hheld (held_nil hempty)
  rcases h.copy size with ⟨x', hcopy, h'⟩
  refine ⟨x', ?_, h'⟩
  conv_lhs => unfold readLoop
  rw [if_neg (h.going hsize), if_neg hne]
  dsimp only
  rw [if_neg (not_not.mpr rfl), heof, if_neg Bool.false_ne_true, hcopy]
  rfl

/-- The loop of `xyzModem_stream_read` gets a block first, when there is none at hand. -/
theorem readLoop_filled {x' : Xyz} {size : Nat} (hgoing : ¬ (x.atEof ∨ size = 0))
    (hempty : x.packet.len = 0) (hnext : nextBlock maxRetries .cancel x = (.ok, x'))
    (hgoing' : ¬ (x'.atEof ∨ size = 0)) (hheld : x'.held ≠ []) (fuel : Nat) (data : List Byte) :
    readLoop (fuel + 1) x size data = readLoop (fuel + 1) x' size data := by
  unfold readLoop
  rw [if_neg hgoing, if_neg hgoing', if_pos hempty,
    if_neg (fun hempty' => hheld (held_nil hempty')), hnext]

theorem readLoop_done (fuel : Nat) (x : Xyz) (data : List Byte) :
    readLoop (fuel + 1) x 0 data = some ⟨data, none, x⟩ := by
  unfold readLoop
  rw [if_pos (Or.inr rfl)]

end AtBlock

/-- Between two steps of the stream of a file, `readLength` bytes of which came in `k` blocks. -/
structure Stream (fileLength : Nat) (tail : Line) (k readLength : Nat)
    (blocks : List (List Byte)) (x : Xyz) : Prop where
  core : x.core = ⟨.ymodem, true, false, BitVec.ofNat 8 (k + 1), BitVec.ofNat 32 fileLength,
    BitVec.ofNat 32 readLength⟩
  room : x.packet.pkt.length = 1024
  nonneg : 0 ≤ x.packet.len
  inside : x.packet.bufp + x.packet.len.toNat ≤ 1024
  line : Rounds tail k blocks x.input
  long : fileLength < 2 ^ 31
  tight : blocks ≠ [] -> readLength + blocks.dropLast.flatten.length < fileLength

/-- A stream that still hands out `todo`. -/
def Hands (fileLength : Nat) (tail : Line) (x : Xyz) (todo : List Byte) : Prop :=
  exists k readLength blocks, Stream fileLength tail k readLength blocks x ∧
    todo = x.held ++ blocks.flatten.take (fileLength - readLength)

variable {fileLength readLength : Nat} {blocks : List (List Byte)} {todo : List Byte}

theorem Rounds.sizes {line : Line} (h : Rounds tail k blocks line) :
    forall data, data ∈ blocks -> IsSize data.length := by
  induction h with
  | last => exact fun data hmem => absurd hmem List.not_mem_nil
  | next items hfew hidle data hsize hline ih =>
      intro other hmem
      rcases List.mem_cons.mp hmem with heq | hmem
      · rw [heq]
        exact hsize
      · exact ih other hmem

theorem Stream.atBlock (h : Stream fileLength tail k readLength blocks x) :
    AtBlock fileLength k readLength x.held x.input x :=
  ⟨h.core, h.room, h.nonneg, h.inside, rfl, rfl⟩

/-- The next block is read, when there is nothing left of the one before. -/
theorem Stream.refill {data : List Byte}
    (h : Stream fileLength tail k readLength (data :: blocks) x) (before : Stat) :
    exists x', nextBlock maxRetries before x = (.ok, x') ∧
      Stream fileLength tail (k + 1) (readLength + data.length) blocks x' ∧
      x'.held = data.take (fileLength - readLength) ∧ x'.held ≠ [] := by
  have hlt : readLength < fileLength :=
    Nat.lt_of_le_of_lt (Nat.le_add_right _ _) (h.tight (List.cons_ne_nil data blocks))
  have hat := h.atBlock
  have hline := h.line
  generalize x.input = line at hat hline
  cases hline with
  | next items hfew hidle _ hsize hrest =>
      have hpos := hsize.pos
      rcases hat.next hfew hidle hsize hlt h.long before with ⟨x', hnext, h'⟩
      refine ⟨x', hnext, ⟨h'.core, h'.room, h'.nonneg, h'.inside, ?_, h.long, ?_⟩, h'.held, ?_⟩
      · rw [h'.input]
        exact hrest
      · intro hblocks
        have hfits := h.tight (List.cons_ne_nil data blocks)
        rw [List.dropLast_cons_of_ne_nil hblocks, List.flatten_cons, List.length_append] at hfits
        omega
      · refine ne_of_eq_of_ne h'.held (List.ne_nil_of_length_pos ?_)
        rw [List.length_take]
        omega

theorem Hands.nil (h : Hands fileLength tail x []) :
    x.packet.len = 0 ∧ exists k readLength, Stream fileLength tail k readLength [] x := by
  rcases h with ⟨k, readLength, blocks, hstream, htodo⟩
  rcases List.append_eq_nil_iff.mp htodo.symm with ⟨hheld, hblocks⟩
  have hlen := held_length hstream.room hstream.inside
  rw [hheld, List.length_nil] at hlen
  refine ⟨by have hnonneg := hstream.nonneg; omega, k, readLength, ?_⟩
  cases blocks with
  | nil => exact hstream
  | cons data blocks =>
      have hsize := hstream.line.sizes data List.mem_cons_self
      have hpos := hsize.pos
      have htight := hstream.tight (List.cons_ne_nil data blocks)
      have hlength := congrArg List.length hblocks
      rw [List.length_take, List.flatten_cons, List.length_append, List.length_nil] at hlength
      omega

theorem Stream.going (h : Stream fileLength tail k readLength blocks x) {size : Nat}
    (hsize : size ≠ 0) : ¬ (x.atEof ∨ size = 0) := h.atBlock.going hsize

/-- The loop of `xyzModem_stream_read` with a block of the stream at hand. -/
theorem readLoop_copy (h : Stream fileLength tail k readLength blocks x) (hheld : x.held ≠ [])
    {size : Nat} (hsize : size ≠ 0) (fuel : Nat) (data : List Byte) :
    exists x', readLoop (fuel + 1) x size data =
        readLoop fuel x' (size - (x.held.take size).length) (data ++ x.held.take size) ∧
      Stream fileLength tail k readLength blocks x' ∧ x'.held = x.held.drop size := by
  rcases h.atBlock.readLoop_copy hheld hsize fuel data with ⟨x', hrun, h'⟩
  have hline := h.line
  rw [← h'.input] at hline
  exact ⟨x', hrun, ⟨h'.core, h'.room, h'.nonneg, h'.inside, hline, h.long, h.tight⟩, h'.held⟩

theorem readLoop_refill {block : List Byte}
    (h : Stream fileLength tail k readLength (block :: blocks) x) (hempty : x.packet.len = 0)
    {size : Nat} (hsize : size ≠ 0) (fuel : Nat) (data : List Byte) :
    exists x', readLoop (fuel + 1) x size data = readLoop (fuel + 1) x' size data ∧
      Stream fileLength tail (k + 1) (readLength + block.length) blocks x' ∧
      x'.held = block.take (fileLength - readLength) ∧ x'.held ≠ [] := by
  rcases h.refill .cancel with ⟨x', hnext, h', hheld, hne⟩
  exact ⟨x', readLoop_filled (h.going hsize) hempty hnext (h'.going hsize) hne fuel data, h',
    hheld, hne⟩

theorem readLoop_step (h : Hands fileLength tail x todo) (htodo : todo ≠ []) {size : Nat}
    (hsize : size ≠ 0) (fuel : Nat) (data : List Byte) :
    exists n x', 0 < n ∧ n ≤ size ∧ n ≤ todo.length ∧
      readLoop (fuel + 1) x size data = readLoop fuel x' (size - n) (data ++ todo.take n) ∧
      Hands fileLength tail x' (todo.drop n) := by
  have hstocked : exists k readLength blocks x₁,
      readLoop (fuel + 1) x size data = readLoop (fuel + 1) x₁ size data ∧
        Stream fileLength tail k readLength blocks x₁ ∧ x₁.held ≠ [] ∧
        todo = x₁.held ++ blocks.flatten.take (fileLength - readLength) := by
    rcases h with ⟨k, readLength, blocks, hstream, rfl⟩
    by_cases hempty : x.packet.len = 0
    · rw [held_nil hempty, List.nil_append] at htodo ⊢
      cases blocks with
      | nil => exact absurd List.take_nil htodo
      | cons block blocks =>
          rcases readLoop_refill hstream hempty hsize fuel data with ⟨x₁, hrun, h₁, hheld, hne⟩
          refine ⟨_, _, _, x₁, hrun, h₁, hne, ?_⟩
          rw [hheld, List.flatten_cons, List.take_append, Nat.sub_sub]
    · have hlen := held_length hstream.room hstream.inside
      have hnonneg := hstream.nonneg
      have hne : x.held ≠ [] := List.ne_nil_of_length_pos (by omega)
      exact ⟨k, readLength, blocks, x, rfl, hstream, hne, rfl⟩
  rcases hstocked with ⟨k, readLength, blocks, x₁, hrun, h₁, hne, rfl⟩
  rcases readLoop_copy h₁ hne hsize fuel data with ⟨x₂, hcopy, h₂, hrest⟩
  have hpos := List.length_pos_of_ne_nil hne
  have hlength : (x₁.held.take size).length = min size x₁.held.length := List.length_take
  refine ⟨min size x₁.held.length, x₂, by omega, Nat.min_le_left _ _, ?_, ?_, ?_⟩
  · rw [List.length_append]
    omega
  · rw [hrun, hcopy, hlength, List.take_append_of_le_length (Nat.min_le_right _ _),
      ← List.take_take, List.take_of_length_le (Nat.le_refl x₁.held.length)]
  · refine ⟨k, readLength, blocks, h₂, ?_⟩
    rw [hrest, List.drop_append_of_le_length (Nat.min_le_right _ _)]
    congr 1
    by_cases hle : size ≤ x₁.held.length
    · rw [Nat.min_eq_left hle]
    · rw [Nat.min_eq_right (by omega), List.drop_length, List.drop_eq_nil_of_le (by omega)]

/-- The loop of `xyzModem_stream_read` hands out as much as there is, and as was asked for. -/
theorem readLoop_hands (fuel : Nat) :
    forall (x : Xyz) (size : Nat) (todo data : List Byte), Hands fileLength tail x todo ->
      min size todo.length < fuel ->
      exists fuel' x', fuel ≤ fuel' + min size todo.length ∧
        readLoop fuel x size data =
          readLoop fuel' x' (size - todo.length) (data ++ todo.take size) ∧
        Hands fileLength tail x' (todo.drop size) := by
  induction fuel with
  | zero =>
      intro x size todo data _ hfuel
      exact absurd hfuel (Nat.not_lt_zero _)
  | succ fuel ih =>
      intro x size todo data h hfuel
      by_cases hsize : size = 0
      · rw [hsize, List.take_zero, List.append_nil, Nat.zero_sub, List.drop_zero]
        exact ⟨fuel + 1, x, Nat.le_add_right _ _, rfl, h⟩
      · by_cases htodo : todo = []
        · subst htodo
          rw [List.take_nil, List.append_nil, List.drop_nil, List.length_nil, Nat.sub_zero]
          exact ⟨fuel + 1, x, Nat.le_add_right _ _, rfl, h⟩
        · rcases readLoop_step h htodo hsize fuel data with ⟨n, x', hpos, hn, hn', hrun, h'⟩
          have hlength : (todo.drop n).length = todo.length - n := List.length_drop
          rcases ih x' (size - n) (todo.drop n) (data ++ todo.take n) h'
            (by rw [hlength]; omega) with ⟨fuel', x'', hfuel', hrun', h''⟩
          rw [hlength] at hfuel' hrun'
          refine ⟨fuel', x'', by omega, ?_, ?_⟩
          · have hleft : size - n - (todo.length - n) = size - todo.length := by omega
            have htake : todo.take n ++ (todo.drop n).take (size - n) = todo.take size := by
              rw [← List.take_add]
              congr 1
              omega
            rw [hrun, hrun', hleft, List.append_assoc, htake]
          · rw [List.drop_drop, show n + (size - n) = size by omega] at h''
            exact h''

theorem streamRead_full (h : Hands fileLength tail x todo) {size fuel : Nat}
    (hsize : size ≤ todo.length) (hfuel : size < fuel) :
    exists x', streamRead fuel x size = some ⟨todo.take size, none, x'⟩ ∧
      Hands fileLength tail x' (todo.drop size) := by
  rcases readLoop_hands fuel x size todo [] h (by omega) with ⟨fuel', x', hleft, hrun, h'⟩
  refine ⟨x', ?_, h'⟩
  cases fuel' with
  | zero => omega
  | succ fuel' =>
      unfold streamRead
      rw [hrun, Nat.sub_eq_zero_of_le hsize, List.nil_append]
      exact readLoop_done fuel' x' _

end Xyzmodem
end Load
end Bab750
