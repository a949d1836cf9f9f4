import Bab750.Load.YmodemLoad

/-!
# Transfers that go wrong

Damage that the checksum shows, a block that comes more often than there are tries, and a transfer
that breaks off.
-/

namespace Bab750
namespace Load
namespace Xyzmodem

open Foundation
open Flash (errOk)

variable {x : Xyz} {rest tail : Line}

/-!
# Damage
-/

/--
A block as it is sent is taken. With other data or another checksum, which differ within 16
consecutive bits, it is refused, and the next one is asked for with the same number.
-/
theorem getHdr_burst (hroom : x.packet.pkt.length = 1024) (hcrc : x.crcMode = true)
    {data damaged : List Byte} (hsize : IsSize data.length)
    (hlength : damaged.length = data.length) (blk : Byte) {crc1 crc2 : Byte}
    (hne : damaged ++ [crc1, crc2] ≠
      data ++ [(cygCrc16 data).extractLsb' 8 8, (cygCrc16 data).extractLsb' 0 8])
    (hburst : BurstApart (damaged ++ [crc1, crc2])
      (data ++ [(cygCrc16 data).extractLsb' 8 8, (cygCrc16 data).extractLsb' 0 8])) :
    (x.input = (goodBlock blk data).map some ++ rest -> (getHdr x).1 = .ok) ∧
      (x.input = (blockBytes blk (~~~ blk) crc1 crc2 damaged).map some ++ rest ->
        (getHdr x).1 = .cksum ∧ (getHdr x).2.core = x.core ∧ (getHdr x).2.input = rest) := by
  have hsize' : IsSize damaged.length := by
    rw [hlength]
    exact hsize
  have hbad : cygCrc16 damaged ≠ crc1 ++ crc2 := by
    intro heq
    refine cygCrc16_burst ?_ hne hburst ?_
    · rw [List.length_append, List.length_append, hlength]
      rfl
    · rw [(cygCrc16_checked damaged crc1 crc2).mpr heq,
        (cygCrc16_checked data _ _).mpr (halves (cygCrc16 data)).symm]
  constructor
  · intro hinput
    rcases getHdr_good hroom hcrc hsize blk hinput with ⟨counts, hget⟩
    rw [hget]
  · intro hinput
    rcases getHdr_block hroom hcrc hsize' _ _ _ _ hinput with ⟨counts, hget⟩
    rw [validate_numbered, if_neg hbad] at hget
    rw [hget]
    exact ⟨rfl, acked_core x, rfl⟩

theorem burstApart_first (first second : Byte) (s : List Byte) :
    BurstApart (first :: s) (second :: s) := by
  refine ⟨0, fun i hi => ?_⟩
  have hfirst : textBits (first :: s) = msbFirst first ++ textBits s := rfl
  have hsecond : textBits (second :: s) = msbFirst second ++ textBits s := rfl
  have hlength := msbFirst_length first
  have hlength' := msbFirst_length second
  rw [hfirst, hsecond, List.getElem?_append_right (by omega),
    List.getElem?_append_right (by omega), hlength, hlength']

theorem getHdr_burst_sample :
    (getHdr (sampleXyz ((blockBytes 1#8 (~~~ 1#8) ((cygCrc16 sampleBlock).extractLsb' 8 8)
      ((cygCrc16 sampleBlock).extractLsb' 0 8) (0#8 :: sampleBlock.tail)).map some ++ []))).1 =
        .cksum := by
  have hne : (0#8 :: sampleBlock.tail) ++ [(cygCrc16 sampleBlock).extractLsb' 8 8,
      (cygCrc16 sampleBlock).extractLsb' 0 8] ≠
        sampleBlock ++ [(cygCrc16 sampleBlock).extractLsb' 8 8,
          (cygCrc16 sampleBlock).extractLsb' 0 8] := by
    intro heq
    exact absurd (List.cons.inj heq).1 (by decide)
  have hsize : IsSize sampleBlock.length := Or.inl rfl
  have hlength : (0#8 :: sampleBlock.tail).length = sampleBlock.length := rfl
  exact ((getHdr_burst (sampleXyz_room _) rfl hsize hlength 1#8 hne
    (burstApart_first 0#8 1#8 _)).2 rfl).1

/-!
# A block that comes again and again
-/

theorem number_before (k : Nat) :
    BitVec.ofNat 8 k = BitVec.ofNat 8 (k + 1) - 1#8 ∧
      BitVec.ofNat 8 k ≠ BitVec.ofNat 8 (k + 1) := by
  have hsucc : BitVec.ofNat 8 (k + 1) = BitVec.ofNat 8 k + 1#8 := BitVec.ofNat_add k 1
  constructor
  · rw [hsucc, BitVec.add_sub_cancel]
  · rw [hsucc]
    intro heq
    have hone : BitVec.ofNat 8 k + 0#8 = BitVec.ofNat 8 k + 1#8 := by
      rw [BitVec.add_zero]
      exact heq
    exact absurd (add_left_cancel hone) (by decide)

/-- The last block again: its data is at hand once more, and it is acknowledged once more. -/
theorem nextBlock_again {k : Nat} {data : List Byte} (hsize : IsSize data.length)
    (hroom : x.packet.pkt.length = 1024) (hcrc : x.crcMode = true)
    (hnext : x.nextBlk = BitVec.ofNat 8 (k + 1))
    (hinput : x.input = (goodBlock (BitVec.ofNat 8 k) data).map some ++ rest) (n : Nat)
    (before : Stat) :
    exists x', nextBlock (n + 1) before x = nextBlock n .ok x' ∧ x'.core = x.core ∧
      x'.packet = goodPacket x.packet.pkt (BitVec.ofNat 8 k) data ∧ x'.input = rest := by
  rcases getHdr_good hroom hcrc hsize _ hinput with ⟨counts, hget⟩
  let x₁ : Xyz := { x.acked with
    counts := counts, packet := goodPacket x.packet.pkt (BitVec.ofNat 8 k) data, input := rest }
  have hcore : x₁.core = x.core := acked_core x
  have hnumber : x₁.nextBlk = BitVec.ofNat 8 (k + 1) :=
    (congrArg Core.nextBlk hcore).trans hnext
  refine ⟨x₁.put ack, ?_, hcore, rfl, rfl⟩
  conv_lhs => unfold nextBlock
  rw [hget]
  have hne : x₁.packet.blk ≠ x₁.nextBlk := by
    rw [hnumber]
    exact (number_before k).2
  have hlast : x₁.packet.blk = x₁.nextBlk - 1#8 := by
    rw [hnumber]
    exact (number_before k).1
  exact (if_neg hne).trans (if_pos hlast)

theorem nextBlock_repeats {k : Nat} {data : List Byte} (hsize : IsSize data.length) (n : Nat) :
    forall (x : Xyz) (before : Stat), x.packet.pkt.length = 1024 -> x.crcMode = true ->
      x.nextBlk = BitVec.ofNat 8 (k + 1) ->
      x.input = (List.replicate (n + 1)
        ((goodBlock (BitVec.ofNat 8 k) data).map some)).flatten ++ rest ->
      exists pkt x', nextBlock (n + 1) before x = (.ok, x') ∧ x'.core = x.core ∧
        pkt.length = 1024 ∧ x'.packet = goodPacket pkt (BitVec.ofNat 8 k) data ∧
        x'.input = rest := by
  induction n with
  | zero =>
      intro x before hroom hcrc hnext hinput
      have hinput : x.input = (goodBlock (BitVec.ofNat 8 k) data).map some ++ rest := by
        rw [hinput, List.replicate_one, List.flatten_singleton]
      rcases nextBlock_again hsize hroom hcrc hnext hinput 0 before with
        ⟨x', hrun, hcore, hpacket, hrest⟩
      exact ⟨x.packet.pkt, x', hrun, hcore, hroom, hpacket, hrest⟩
  | succ n ih =>
      intro x before hroom hcrc hnext hinput
      rw [List.replicate_succ, List.flatten_cons, List.append_assoc] at hinput
      rcases nextBlock_again hsize hroom hcrc hnext hinput (n + 1) before with
        ⟨x₁, hrun, hcore, hpacket, hinput₁⟩
      have hroom₁ : x₁.packet.pkt.length = 1024 := by
        rw [hpacket]
        exact goodPacket_length hroom hsize _
      rcases ih x₁ .ok hroom₁ ((congrArg Core.crcMode hcore).trans hcrc)
        ((congrArg Core.nextBlk hcore).trans hnext) hinput₁ with
        ⟨pkt, x', hrun', hcore', hlength, hpacket', hrest⟩
      exact ⟨pkt, x', hrun.trans hrun', hcore'.trans hcore, hlength, hpacket', hrest⟩

/-- All tries go to the last block: its bytes are at hand once more. -/
theorem AtBlock.again {fileLength k readLength : Nat} {last : List Byte}
    (h : AtBlock fileLength k readLength [] ((List.replicate maxRetries
      ((goodBlock (BitVec.ofNat 8 k) last).map some)).flatten ++ rest) x)
    (hlast : IsSize last.length) (before : Stat) :
    exists x', nextBlock maxRetries before x = (.ok, x') ∧
      AtBlock fileLength k readLength last rest x' := by
  have hle := hlast.le
  rcases nextBlock_repeats hlast 19 x before h.room (congrArg Core.crcMode h.core)
    (congrArg Core.nextBlk h.core) h.input with
    ⟨pkt, x', hrun, hcore, hlength, hpacket, hrest⟩
  refine ⟨x', hrun, hcore.trans h.core, ?_, ?_, ?_, ?_, hrest⟩
  · rw [hpacket]
    exact goodPacket_length hlength hlast _
  · rw [hpacket]
    exact Int.natCast_nonneg _
  · rw [hpacket]
    show 0 + last.length ≤ 1024
    omega
  · unfold Xyz.held
    rw [hpacket]
    exact taken_data _ _ _ _ _ _

theorem AtBlock.readLoop_next {fileLength k readLength k' readLength' size : Nat}
    {input input' : Line} {block : List Byte}
    (h : AtBlock fileLength k readLength [] input x) {x' : Xyz}
    (hnext : nextBlock maxRetries .cancel x = (.ok, x'))
    (h' : AtBlock fileLength k' readLength' block input' x') (hblock : block ≠ [])
    (hsize : size ≠ 0) (fuel : Nat) (data : List Byte) :
    exists x'', readLoop (fuel + 1) x size data =
        readLoop fuel x'' (size - (block.take size).length) (data ++ block.take size) ∧
      AtBlock fileLength k' readLength' (block.drop size) input' x'' := by
  have hlen := held_length h.room h.inside
  have hnonneg := h.nonneg
  rw [h.held, List.length_nil] at hlen
  have hempty : x.packet.len = 0 := by omega
  have hheld : x'.held ≠ [] := by
    rw [h'.held]
    exact hblock
  rcases h'.readLoop_copy hblock hsize fuel data with ⟨x'', hcopy, h''⟩
  refine ⟨x'', ?_, h''⟩
  rw [readLoop_filled (h.going hsize) hempty hnext (h'.going hsize) hheld, hcopy]

/--
The last block comes `n` times again before the next one. It is left out when there are more tries
than that. Otherwise the tries are used up and it is handed out once more, in place of the next
one, which is still expected; what is left of a call goes on behind the block.
-/
theorem streamRead_repeated {fileLength k readLength n size : Nat} {last next : List Byte}
    (h : AtBlock fileLength k readLength []
      ((List.replicate n ((goodBlock (BitVec.ofNat 8 k) last).map some)).flatten ++
        ((goodBlock (BitVec.ofNat 8 (k + 1)) next).map some ++ rest)) x)
    (hlast : IsSize last.length) (hnext : IsSize next.length) (hmore : readLength < fileLength)
    (hlong : fileLength < 2 ^ 31) (hsize : 0 < size) (fuel : Nat) (data : List Byte) :
    (n < maxRetries -> exists block x', block = next.take (fileLength - readLength) ∧
      readLoop (fuel + 1) x size data =
        readLoop fuel x' (size - (block.take size).length) (data ++ block.take size) ∧
      AtBlock fileLength (k + 1) (readLength + next.length) (block.drop size) rest x') ∧
    (maxRetries ≤ n -> exists x',
      readLoop (fuel + 1) x size data =
        readLoop fuel x' (size - (last.take size).length) (data ++ last.take size) ∧
      AtBlock fileLength k readLength (last.drop size)
        ((List.replicate (n - maxRetries) ((goodBlock (BitVec.ofNat 8 k) last).map some)).flatten
          ++ ((goodBlock (BitVec.ofNat 8 (k + 1)) next).map some ++ rest)) x') := by
  constructor
  · intro hfew
    have hstale : forall line,
        line ∈ List.replicate n ((goodBlock (BitVec.ofNat 8 k) last).map some) ->
          Idle k line := by
      intro line hline
      rw [(List.mem_replicate.mp hline).2]
      exact .stale _ last hlast (number_before k).2
    have hblock : next.take (fileLength - readLength) ≠ [] := by
      have hpos := hnext.pos
      apply List.ne_nil_of_length_pos
      rw [List.length_take]
      omega
    rcases h.next (by rw [List.length_replicate]; exact hfew) hstale hnext hmore hlong .cancel
      with ⟨x₁, hget, h₁⟩
    rcases h.readLoop_next hget h₁ hblock (Nat.ne_of_gt hsize) fuel data with ⟨x', hrun, h'⟩
    exact ⟨_, x', rfl, hrun, h'⟩
  · intro hmany
    have hsplit : n = maxRetries + (n - maxRetries) := by omega
    rw [hsplit, List.replicate_add, List.flatten_append, List.append_assoc] at h
    rcases h.again hlast .cancel with ⟨x₁, hget, h₁⟩
    exact h.readLoop_next hget h₁ (List.ne_nil_of_length_pos hlast.pos) (Nat.ne_of_gt hsize) fuel
      data

def sampleRepeats : Line :=
  (List.replicate 20 ((goodBlock (BitVec.ofNat 8 0) sampleInfo).map some)).flatten ++
    ((goodBlock (BitVec.ofNat 8 (0 + 1)) sampleBlock).map some ++ [])

def sampleOpened : Xyz :=
  { sampleXyz sampleRepeats with nextBlk := BitVec.ofNat 8 (0 + 1), fileLength := 200#32 }

/-- A call for two blocks: the information block once more, and then the first block. -/
theorem streamRead_repeated_sample : exists x',
    streamRead 3 sampleOpened 256 = some ⟨sampleInfo ++ sampleBlock, none, x'⟩ := by
  have hopened : AtBlock 200 0 0 [] sampleRepeats sampleOpened :=
    ⟨rfl, sampleXyz_room sampleRepeats, Int.le_refl 0, Nat.zero_le 1024, rfl, rfl⟩
  have hlength : sampleInfo.length = 128 := rfl
  have hlength' : sampleBlock.length = 128 := rfl
  have hinfo : sampleInfo.take 256 = sampleInfo :=
    List.take_of_length_le (by rw [hlength]; decide)
  have hblock : (sampleBlock.take (200 - 0)).take 128 = sampleBlock := by
    rw [List.take_take]
    exact List.take_of_length_le (by rw [hlength']; decide)
  rcases (streamRead_repeated hopened (Or.inl rfl) (Or.inl rfl) (by decide) (by decide)
    (show 0 < 256 by decide) 2 []).2 (Nat.le_refl 20) with ⟨x₁, hrun₁, h₁⟩
  rcases (streamRead_repeated h₁ (Or.inl rfl) (Or.inl rfl) (by decide) (by decide)
    (show 0 < 128 by decide) 1 sampleInfo).1 (by decide) with ⟨block, x₂, rfl, hrun₂, _⟩
  rw [hinfo, hlength] at hrun₁
  rw [hblock, hlength'] at hrun₂
  exact ⟨x₂, hrun₁.trans (hrun₂.trans (readLoop_done 0 x₂ _))⟩

/-!
# A transfer that breaks off
-/

theorem readLoop_succ (fuel : Nat) :
    forall (x : Xyz) (size : Nat) (data : List Byte) (t : Taken),
      readLoop fuel x size data = some t -> readLoop (fuel + 1) x size data = some t := by
  induction fuel with
  | zero =>
      intro x size data t h
      cases h
  | succ fuel ih =>
      intro x size data t h
      unfold readLoop at h ⊢
      by_cases hend : x.atEof ∨ size = 0
      · rw [if_pos hend] at h ⊢
        exact h
      · rw [if_neg hend] at h ⊢
        generalize (if x.packet.len = 0 then nextBlock maxRetries .cancel x else (.ok, x)) = r
          at h ⊢
        rcases r with ⟨stat, x₁⟩
        dsimp only at h ⊢
        by_cases hstat : stat ≠ .ok
        · rw [if_pos hstat] at h ⊢
          exact h
        · rw [if_neg hstat] at h ⊢
          by_cases heof : x₁.atEof = true
          · rw [if_pos heof] at h ⊢
            exact ih _ _ _ _ h
          · rw [if_neg heof] at h ⊢
            cases hcopy : copyOut x₁ size with
            | none =>
                rw [hcopy] at h
                cases h
            | some copied =>
                rw [hcopy] at h
                exact ih _ _ _ _ h

theorem loadLoop_succ (b : Storage) (offset : BitVec 32) (fuel : Nat) :
    forall (x : Xyz) (memory : Memory) (size : Nat) (l : Loop),
      loadLoop b offset fuel x memory size = some l ->
        loadLoop b offset (fuel + 1) x memory size = some l := by
  induction fuel with
  | zero =>
      intro x memory size l h
      cases h
  | succ fuel ih =>
      intro x memory size l h
      unfold loadLoop at h ⊢
      cases hread : streamRead fuel x 1024 with
      | none =>
          rw [hread] at h
          cases h
      | some t =>
          rw [hread, Option.bind_eq_bind, Option.bind_some] at h
          have hread' : streamRead (fuel + 1) x 1024 = some t :=
            readLoop_succ fuel x 1024 [] t hread
          rw [hread', Option.bind_eq_bind, Option.bind_some]
          dsimp only at h ⊢
          by_cases hdata : t.data = []
          · rw [if_pos hdata] at h ⊢
            exact h
          · rw [if_neg hdata] at h ⊢
            by_cases hrc : (b.store memory (BitVec.ofNat 32 size + offset) t.data).1 ≠ errOk
            · rw [if_pos hrc] at h ⊢
              exact h
            · rw [if_neg hrc] at h ⊢
              exact ih _ _ _ _ h

theorem loadLoop_more {b : Storage} {offset : BitVec 32} {fuel : Nat} {memory : Memory}
    {size : Nat} {l : Loop} (h : loadLoop b offset fuel x memory size = some l) (more : Nat) :
    loadLoop b offset (fuel + more) x memory size = some l := by
  induction more with
  | zero => exact h
  | succ more ih => exact loadLoop_succ b offset (fuel + more) x memory size l ih

theorem loadLoop_broken {b : Storage} {offset : BitVec 32} {fileLength : Nat} {todo : List Byte}
    (h : Hands fileLength tail x todo) (hfailure : Failure tail)
    (hapart : b.Apart offset todo.length) (hlong : todo.length < 2 ^ 32) {fuel : Nat}
    (hfuel : todo.length + 1026 < fuel) (memory : Memory) :
    (todo.length % 1024 = 0 -> exists memory' x',
        loadLoop b offset fuel x memory 0 = some ⟨errOk, memory', todo.length, x'⟩ ∧
          Stored b offset 0 todo memory memory') ∧
      (todo.length % 1024 ≠ 0 -> exists fuel' memory' x',
        loadLoop b offset fuel x memory 0 =
            loadLoop b offset (fuel' + 1) x' memory' todo.length ∧
          0 < fuel' ∧ Stored b offset 0 todo memory memory' ∧ Overrun x') := by
  rcases loadLoop_full fuel x todo memory 0 h hapart (by omega) hlong (by omega) with
    ⟨fuel', x₁, memory₁, left, hfuel', hleft, hsuffix, h₁, hrun, hstored⟩
  have hle := hsuffix.length_le
  have hshort : left.length < 1024 := by omega
  rcases Nat.exists_eq_add_of_lt (show 0 < fuel' by omega) with ⟨fuel₁, hfuel₁⟩
  rw [Nat.zero_add] at hfuel₁ hrun
  subst hfuel₁
  rcases streamRead_failed hfailure h₁ hshort (show left.length < fuel₁ by omega) with
    ⟨err, x₂, hread, hover⟩
  constructor
  · intro hwhole
    have hnil : left = [] := List.length_eq_zero_iff.mp (hleft.trans hwhole)
    rw [hnil, List.length_nil, Nat.sub_zero, List.take_length] at hstored
    rw [hnil, List.length_nil, Nat.sub_zero] at hrun
    exact ⟨memory₁, x₂, hrun.trans (loadLoop_end hread hnil b offset memory₁ todo.length),
      hstored⟩
  · intro hpart
    have hne : left ≠ [] := List.ne_nil_of_length_pos (by omega)
    have hsize : todo.length - left.length + left.length = todo.length := by omega
    rcases loadLoop_store hread hne (Nat.le_of_lt hshort) hapart (Nat.le_of_eq hsize) memory₁ with
      ⟨memory₂, hrun₂, hstored₂⟩
    rcases Nat.exists_eq_add_of_lt (show 1 < fuel₁ by omega) with ⟨fuel₂, hfuel₂⟩
    have hsplit : fuel₁ = fuel₂ + 1 + 1 := by omega
    rw [hsize, hsplit] at hrun₂
    rw [hsplit] at hrun
    exact ⟨fuel₂ + 1, memory₂, x₂, hrun.trans hrun₂, Nat.succ_pos fuel₂,
      hstored.rest hsuffix hstored₂ hapart hlong, hover⟩

theorem loadLoop_overrun (h : Overrun x) (b : Storage) (offset : BitVec 32) (fuel : Nat)
    (memory : Memory) (size : Nat) : loadLoop b offset (fuel + 1) x memory size = none := by
  unfold loadLoop
  rw [h.streamRead (by decide)]
  rfl

/--
A transfer that breaks off between two blocks, because the sender gives up or the line brings
nothing that can be read any more. The command comes to an end only when the bytes of the blocks
fill the buffer a whole number of times; then it goes on as if that were the file. Otherwise it
stores them, and the next call of `xyzModem_stream_read` copies a length of -1.
-/
theorem loadSerialYmodem_broken {b : Storage} {offset : BitVec 32} {n : Nat}
    {blocks : List (List Byte)} (hroom : x.packet.pkt.length = 1024)
    (hsession : Session n blocks tail x.input) (hfailure : Failure tail)
    (hshort : blocks.flatten.length < n) (hlong : n < 2 ^ 31)
    (hapart : b.Apart offset blocks.flatten.length) (memory : Memory) :
    ((exists fuel l, loadSerialYmodem b fuel x memory offset = some l) <->
      blocks.flatten.length % 1024 = 0) ∧
    (blocks.flatten.length % 1024 ≠ 0 ->
      exists x₁, streamOpen x .ymodem = some (true, .ok, x₁) ∧
        forall fuel, blocks.flatten.length + 1026 < fuel -> exists fuel' memory' x',
          loadLoop b offset fuel x₁ memory 0 =
              loadLoop b offset (fuel' + 1) x' memory' blocks.flatten.length ∧
            Stored b offset 0 blocks.flatten memory memory' ∧
            0 < fuel' ∧ Overrun x' ∧ copyOut x' 1024 = none ∧
            streamRead fuel' x' 1024 = none) := by
  have htight : blocks.dropLast.flatten.length < n := by
    rcases List.dropLast_prefix blocks with ⟨last, hblocks⟩
    have hlength := congrArg (fun l => l.flatten.length) hblocks
    rw [List.flatten_append, List.length_append] at hlength
    omega
  rcases streamOpen_session hroom (by omega) hlong (fun _ => htight) hsession with
    ⟨x₁, hopen, hhands⟩
  rw [List.take_of_length_le (Nat.le_of_lt hshort)] at hhands
  have hbroken := fun {fuel : Nat} (hfuel : blocks.flatten.length + 1026 < fuel) =>
    loadLoop_broken hhands hfailure hapart (by omega) hfuel memory
  refine ⟨⟨?_, ?_⟩, ?_⟩
  · rintro ⟨fuel, l, hload⟩
    by_contra hpart
    unfold loadSerialYmodem at hload
    rw [hopen, Option.bind_eq_bind, Option.bind_some] at hload
    dsimp only at hload
    rw [if_pos rfl] at hload
    cases hloop : loadLoop b offset fuel x₁ memory 0 with
    | none =>
        rw [hloop] at hload
        cases hload
    | some looped =>
        have hmore := loadLoop_more hloop (blocks.flatten.length + 1027)
        rcases (hbroken (show blocks.flatten.length + 1026 <
          fuel + (blocks.flatten.length + 1027) by omega)).2 hpart with
          ⟨fuel', memory', x', hrun, _, _, hover⟩
        rw [hrun, loadLoop_overrun hover] at hmore
        cases hmore
  · intro hwhole
    rcases (hbroken (Nat.lt_succ_self _)).1 hwhole with ⟨memory', x', hloop, _⟩
    exact ⟨_, _, loadSerialYmodem_open hopen hloop rfl⟩
  · intro hpart
    refine ⟨x₁, hopen, fun fuel hfuel => ?_⟩
    rcases (hbroken hfuel).2 hpart with ⟨fuel', memory', x', hrun, hpos, hstored, hover⟩
    exact ⟨fuel', memory', x', hrun, hstored, hpos, hover, hover.copy 1024,
      hover.streamRead (by decide) fuel'⟩

def sampleLongInfo : List Byte :=
  [0x66#8, 0#8, 0x31#8, 0x30#8, 0x30#8, 0x30#8, 0#8] ++ List.replicate 121 0#8

/-- A file of 1000 bytes, of which the first block comes, and then nothing. -/
def sampleCutLine : Line :=
  List.flatten [] ++ ((goodBlock 0#8 sampleLongInfo).map some ++
    (List.flatten [] ++ ((goodBlock (BitVec.ofNat 8 (0 + 1)) sampleBlock).map some ++
      (List.flatten [] ++ ((List.replicate 20 [none, none]).flatten ++ [])))))

theorem sampleCutLine_session :
    Session 1000 [sampleBlock] ((List.replicate 20 [none, none]).flatten ++ [])
      sampleCutLine := by
  have hinfo : IsInfo 1000 sampleLongInfo :=
    ⟨[0x66#8], 0#8, List.replicate 121 0#8, by decide, Or.inl rfl, rfl⟩
  refine ⟨[], sampleLongInfo, _, by decide, fun item hitem => absurd hitem List.not_mem_nil,
    Or.inl rfl, hinfo, ?_, rfl⟩
  refine .next [] (by decide) (fun line hline => absurd hline List.not_mem_nil) sampleBlock
    (Or.inl rfl) ?_
  exact .last [] (by decide) (fun line hline => absurd hline List.not_mem_nil)

/-- The command does not end; what came is stored, and then the copy is of a negative length. -/
theorem loadSerialYmodem_broken_sample :
    (¬ exists fuel l, loadSerialYmodem sampleStorage fuel (sampleXyz sampleCutLine)
      (fun _ => 0#8) 0#32 = some l) ∧
    exists fuel x', exists memory' : Memory, memory' 0#32 = 1#8 ∧ Overrun x' ∧
      streamRead fuel x' 1024 = none ∧ 0 < fuel := by
  have hfailure : Failure ((List.replicate 20 [none, none]).flatten ++ []) := by
    refine .exhausted _ [] (by decide) (fun item hitem => ?_)
    rw [(List.mem_replicate.mp hitem).2]
    exact noise_silence
  have hsession : Session 1000 [sampleBlock] ((List.replicate 20 [none, none]).flatten ++ [])
    (sampleXyz sampleCutLine).input := sampleCutLine_session
  have hlength : [sampleBlock].flatten.length = 128 := rfl
  have hshort : [sampleBlock].flatten.length < 1000 := by
    rw [hlength]
    decide
  have hpart : [sampleBlock].flatten.length % 1024 ≠ 0 := by
    rw [hlength]
    decide
  rcases loadSerialYmodem_broken (sampleXyz_room sampleCutLine) hsession hfailure hshort
    (by decide) (sampleStorage_apart (by rw [hlength]; decide)) (fun _ => 0#8) with
    ⟨hends, hover⟩
  refine ⟨fun hload => hpart (hends.mp hload), ?_⟩
  rcases hover hpart with ⟨x₁, _, hruns⟩
  rcases hruns 2000 (by rw [hlength]; decide) with
    ⟨fuel, memory', x', _, hstored, hpos, hnegative, _, hread⟩
  exact ⟨fuel, x', memory', hstored.inside 0 (by rw [hlength]; decide), hnegative, hread, hpos⟩

end Xyzmodem
end Load
end Bab750
