import Bab750.Load.XyzmodemSession

/-!
# The start and the end of a transfer

The information block with which the stream of a file opens, and what `xyzModem_stream_read`
gives when the line brings the end of the file or nothing that can be read.
-/

namespace Bab750
namespace Load
namespace Xyzmodem

open Foundation

/-!
# The length of the file
-/

def decimalBytes (n : Nat) : List Byte :=
  (Nat.toDigits 10 n).map (fun c => BitVec.ofNat 8 c.toNat)

theorem parseDigits_digit (r : BitVec 32) {d : Nat} (hd : d < 10) (s : List Byte) :
    parseDigits 10 r (BitVec.ofNat 8 (Nat.digitChar d).toNat :: s) =
      parseDigits 10 (r * 10#32 + BitVec.ofNat 32 d) s := by
  have hdigit : forall e, e < 10 -> BitVec.ofNat 8 (Nat.digitChar e).toNat ≠ 0#8 ∧
      (fromHex (BitVec.ofNat 8 (Nat.digitChar e).toNat)).filter (fun digit => digit < 10) =
        some e := by
    decide
  rcases hdigit d hd with ⟨hne, hvalue⟩
  conv_lhs => unfold parseDigits
  rw [if_neg hne, hvalue]

theorem parseDigits_decimal (n : Nat) (s : List Byte) :
    parseDigits 10 0#32 (decimalBytes n ++ s) = parseDigits 10 (BitVec.ofNat 32 n) s := by
  induction n using Nat.strongRecOn generalizing s with
  | ind n ih =>
      unfold decimalBytes
      rw [Nat.toDigits_eq_if (by decide)]
      split
      case isTrue hsmall =>
          rw [List.map_singleton, List.singleton_append, parseDigits_digit _ hsmall]
          congr 1
          rw [BitVec.zero_mul, BitVec.zero_add]
      case isFalse hlarge =>
          have hfront := ih (n / 10) (Nat.div_lt_self (by omega) (by decide))
          unfold decimalBytes at hfront
          rw [List.map_append, List.append_assoc, hfront, List.map_singleton,
            List.singleton_append, parseDigits_digit _ (Nat.mod_lt n (by decide))]
          congr 1
          rw [show (10#32 : BitVec 32) = BitVec.ofNat 32 10 from rfl, ← BitVec.ofNat_mul,
            ← BitVec.ofNat_add, Nat.div_add_mod']

theorem decimalBytes_head {n : Nat} (hpos : 0 < n) :
    exists c s, decimalBytes n = c :: s ∧ c ≠ 0x30#8 ∧ c ≠ 0x20#8 := by
  have hdigit : forall d, d < 10 -> 0 < d ->
      BitVec.ofNat 8 (Nat.digitChar d).toNat ≠ 0x30#8 ∧
        BitVec.ofNat 8 (Nat.digitChar d).toNat ≠ 0x20#8 := by
    decide
  induction n using Nat.strongRecOn with
  | ind n ih =>
      unfold decimalBytes
      rw [Nat.toDigits_eq_if (by decide)]
      split
      case isTrue hsmall =>
          exact ⟨_, [], rfl, hdigit n hsmall hpos⟩
      case isFalse hlarge =>
          rcases ih (n / 10) (Nat.div_lt_self hpos (by decide))
            (Nat.div_pos (by omega) (by decide)) with ⟨c, s, hfront, hc⟩
          unfold decimalBytes at hfront
          rw [List.map_append, hfront]
          exact ⟨c, _, rfl, hc⟩

theorem parseNum_decimal {n : Nat} (hpos : 0 < n) {stop : Byte}
    (hstop : stop = 0#8 ∨ stop = 0x20#8) (s : List Byte) :
    parseNum (decimalBytes n ++ stop :: s) = some (some (BitVec.ofNat 32 n)) := by
  have hdigits : parseDigits 10 0#32 (decimalBytes n ++ stop :: s) =
      some (some (BitVec.ofNat 32 n)) := by
    rw [parseDigits_decimal]
    rcases hstop with rfl | rfl <;> rfl
  rcases decimalBytes_head hpos with ⟨c, t, hbytes, hzero, hspace⟩
  rw [hbytes] at hdigits ⊢
  unfold parseNum
  rw [List.cons_append, List.dropWhile_cons_of_neg (by simpa using hspace)]
  dsimp only
  rw [if_neg hzero]
  exact hdigits

theorem skipName_append {name : List Byte} (hname : 0#8 ∉ name) (s : List Byte) :
    skipName (name ++ 0#8 :: s) = some s := by
  induction name with
  | nil => rfl
  | cons c name ih =>
      have hc : c ≠ 0#8 := fun heq => hname (heq ▸ List.mem_cons_self)
      show (if c = 0#8 then some (name ++ 0#8 :: s) else skipName (name ++ 0#8 :: s)) = some s
      rw [if_neg hc]
      exact ih (fun hmem => hname (List.mem_cons_of_mem c hmem))

/-!
# The opening
-/

/-- The block with the name and the length of a file. -/
def IsInfo (n : Nat) (data : List Byte) : Prop :=
  exists name stop filler, 0#8 ∉ name ∧ (stop = 0#8 ∨ stop = 0x20#8) ∧
    data = name ++ 0#8 :: (decimalBytes n ++ stop :: filler)

/-- The information block behind some noise, and the blocks of the file. -/
def Session (n : Nat) (blocks : List (List Byte)) (tail input : Line) : Prop :=
  exists (items : List Line) (info : List Byte) (line : Line),
    items.length < maxRetriesWithCrc ∧ (forall item, item ∈ items -> Noise item) ∧
      IsSize info.length ∧ IsInfo n info ∧ Rounds tail 0 blocks line ∧
      input = items.flatten ++ ((goodBlock 0#8 info).map some ++ line)

variable {x : Xyz} {rest tail : Line} {n : Nat} {blocks : List (List Byte)} {todo : List Byte}

theorem openLoop_noise (items : List Line) :
    forall (x : Xyz) (before : Stat) (crcRetries : Nat),
      (forall item, item ∈ items -> Noise item) -> items.length < crcRetries ->
      x.packet.pkt.length = 1024 -> x.crcMode = true -> x.input = items.flatten ++ rest ->
      forall retries, exists stat x' crcRetries',
        openLoop (items.length + retries) crcRetries before x =
          openLoop retries crcRetries' stat x' ∧
        x'.core = x.core ∧ x'.packet.pkt.length = 1024 ∧ x'.input = rest := by
  induction items with
  | nil =>
      intro x before crcRetries _ _ hroom _ hinput retries
      exact ⟨before, x, crcRetries, by rw [List.length_nil, Nat.zero_add], rfl, hroom, hinput⟩
  | cons item items ih =>
      intro x before crcRetries hnoise hfew hroom hcrc hinput retries
      have hinput : x.input = item ++ (items.flatten ++ rest) := by
        rw [hinput, List.flatten_cons, List.append_assoc]
      have htries : (item :: items).length + retries = items.length + retries + 1 := by
        rw [List.length_cons]
        omega
      rw [List.length_cons] at hfew
      rcases getHdr_noise (hnoise item List.mem_cons_self) hroom hcrc hinput with
        ⟨stat, counts, p, hget, hpassing, hlength⟩
      have hstep : exists x₁ crcRetries₁, items.length < crcRetries₁ ∧
          openLoop (items.length + retries + 1) crcRetries before x =
            openLoop (items.length + retries) crcRetries₁ stat x₁ ∧ x₁.core = x.core ∧
          x₁.packet.pkt.length = 1024 ∧ x₁.input = items.flatten ++ rest := by
        let x₁ : Xyz := { x.acked with
          counts := counts, packet := p, input := items.flatten ++ rest }
        have hcore : x₁.core = x.core := acked_core x
        rcases hpassing with rfl | rfl | rfl
        · refine ⟨x₁.askAgain, crcRetries - 1, by omega, ?_, hcore, hlength, rfl⟩
          conv_lhs => unfold openLoop
          rw [hget]
          dsimp only
          rw [if_neg (by omega)]
        · refine ⟨x₁, crcRetries, by omega, ?_, hcore, hlength, rfl⟩
          conv_lhs => unfold openLoop
          rw [hget]
        · refine ⟨x₁, crcRetries, by omega, ?_, hcore, hlength, rfl⟩
          conv_lhs => unfold openLoop
          rw [hget]
      rcases hstep with ⟨x₁, crcRetries₁, hfew₁, hrun₁, hcore₁, hlength₁, hinput₁⟩
      rcases ih x₁ stat crcRetries₁ (fun l hl => hnoise l (List.mem_cons_of_mem item hl)) hfew₁
        hlength₁ ((congrArg Core.crcMode hcore₁).trans hcrc) hinput₁ retries with
        ⟨stat', x', crcRetries', hrun, hcore, hlength', hinput'⟩
      exact ⟨stat', x', crcRetries', by rw [htries, hrun₁, hrun], hcore.trans hcore₁, hlength',
        hinput'⟩

theorem takeInfo_info {pkt info : List Byte} (hpos : 0 < n) (hinfo : IsInfo n info)
    (hpacket : x.packet = goodPacket pkt 0#8 info) :
    exists bufp, bufp ≤ 1024 ∧ takeInfo x = some { x with
      packet := { x.packet with bufp := bufp, len := 0 }
      fileLength := BitVec.ofNat 32 n
      txAck := true
      nextBlk := 1#8 } := by
  rcases hinfo with ⟨name, stop, filler, hname, hstop, hdata⟩
  have hblk : x.packet.blk = 0#8 := by
    rw [hpacket]
    rfl
  have hpkt : x.packet.pkt = name ++ 0#8 :: (decimalBytes n ++ stop ::
      (filler ++ pkt.drop info.length)) := by
    rw [hpacket]
    show info ++ pkt.drop info.length = _
    rw [hdata, List.append_assoc, List.cons_append, List.append_assoc, List.cons_append]
  refine ⟨1024 - (decimalBytes n ++ stop :: (filler ++ pkt.drop info.length)).length,
    Nat.sub_le _ _, ?_⟩
  unfold takeInfo
  rw [if_pos hblk, hpkt, skipName_append hname, Option.bind_eq_bind, Option.bind_some,
    parseNum_decimal hpos hstop, Option.bind_eq_bind, Option.bind_some]
  rfl

theorem streamOpen_session (hroom : x.packet.pkt.length = 1024) (hpos : 0 < n)
    (hlong : n < 2 ^ 31) (htight : blocks ≠ [] -> blocks.dropLast.flatten.length < n)
    (hsession : Session n blocks tail x.input) :
    exists x', streamOpen x .ymodem = some (true, .ok, x') ∧
      Hands n tail x' (blocks.flatten.take n) := by
  rcases hsession with ⟨items, info, line, hfew, hnoise, hsize, hinfo, hline, hinput⟩
  let x₀ : Xyz := { x with
    packet := { x.packet with len := 0 }
    sent := x.sent ++ [askCrc]
    counts := ⟨0, 0, 0, 0⟩
    mode := .ymodem
    crcMode := true
    atEof := false
    txAck := false
    fileLength := 0#32
    readLength := 0#32 }
  have htries : maxRetries = items.length + (maxRetries - items.length - 1 + 1) := by
    unfold maxRetriesWithCrc at hfew
    unfold maxRetries
    omega
  rcases openLoop_noise items x₀ .ok maxRetriesWithCrc hnoise hfew hroom rfl hinput
    (maxRetries - items.length - 1 + 1) with
    ⟨stat, x₁, crcRetries, hrun, hcore, hlength, hinput₁⟩
  rcases getHdr_good hlength (congrArg Core.crcMode hcore) hsize 0#8 hinput₁ with ⟨counts, hget⟩
  have hcore₂ : x₁.acked.core = x₀.core := (acked_core x₁).trans hcore
  let x₂ : Xyz := { x₁.acked with
    counts := counts, packet := goodPacket x₁.packet.pkt 0#8 info, input := line }
  have hpacket : x₂.packet = goodPacket x₁.packet.pkt 0#8 info := rfl
  rcases takeInfo_info hpos hinfo hpacket with ⟨bufp, hbufp, htake⟩
  let x₃ : Xyz := { x₂ with
    packet := { x₂.packet with bufp := bufp, len := 0 }
    fileLength := BitVec.ofNat 32 n
    txAck := true
    nextBlk := 1#8 }
  refine ⟨x₃, ?_, 0, 0, blocks, ⟨?_, goodPacket_length hlength hsize 0#8, Int.le_refl 0, hbufp,
    hline, hlong, ?_⟩, ?_⟩
  · show openLoop maxRetries maxRetriesWithCrc .ok x₀ = _
    rw [htries, hrun]
    unfold openLoop
    rw [hget]
    exact congrArg (Option.map (fun x => (true, Stat.ok, x))) htake
  · have hmode : x₂.mode = .ymodem := congrArg Core.mode hcore₂
    have hcrc : x₂.crcMode = true := congrArg Core.crcMode hcore₂
    have heof : x₂.atEof = false := congrArg Core.atEof hcore₂
    have hread : x₂.readLength = 0#32 := congrArg Core.readLength hcore₂
    show Core.mk x₂.mode x₂.crcMode x₂.atEof 1#8 (BitVec.ofNat 32 n) x₂.readLength = _
    rw [hmode, hcrc, heof, hread]
  · intro hblocks
    rw [Nat.zero_add]
    exact htight hblocks
  · rw [held_nil rfl, List.nil_append, Nat.sub_zero]

/-!
# The end of the line
-/

/-- Nothing that can be read: the sender gives up, or there is noise for all the tries. -/
inductive Failure : Line -> Prop where
  | cancelled (rest : Line) : Failure (some can :: some can :: some can :: rest)
  | exhausted (items : List Line) (rest : Line) (hmany : maxRetries ≤ items.length)
      (hnoise : forall item, item ∈ items -> Noise item) : Failure (items.flatten ++ rest)

theorem nextBlock_eot (hmode : x.mode = .ymodem) (hinput : x.input = some eot :: rest) (n : Nat)
    (before : Stat) :
    exists stat x', nextBlock (n + 1) before x = (stat, x') ∧ x'.atEof = true := by
  let x₁ : Xyz := Xyz.put { x.acked with counts := x.counts, input := rest } ack
  have hget : getHdr x = (.eof, x₁) := by
    unfold getHdr
    rw [hinput]
    rfl
  have hmode' : (x₁.put ack).mode = .ymodem :=
    (congrArg Core.mode (acked_core x)).trans hmode
  refine ⟨(getHdr (x₁.put ack).askAgain).1,
    { (getHdr (x₁.put ack).askAgain).2.put ack with atEof := true }, ?_, rfl⟩
  unfold nextBlock
  rw [hget]
  show endOfFile x₁ = _
  unfold endOfFile
  dsimp only
  rw [hmode']

theorem nextBlock_exhausted (items : List Line) :
    forall (n : Nat) (x : Xyz) (before : Stat), n ≤ items.length -> (n = 0 -> before ≠ .ok) ->
      (forall item, item ∈ items -> Noise item) -> x.packet.pkt.length = 1024 ->
      x.crcMode = true -> x.input = items.flatten ++ rest ->
      exists stat x', nextBlock n before x = (stat, x') ∧ stat ≠ .ok ∧ x'.atEof = x.atEof := by
  induction items with
  | nil =>
      intro n x before hn hbefore _ _ _ _
      have hzero : n = 0 := Nat.le_zero.mp hn
      rw [hzero]
      exact ⟨before, x, rfl, hbefore hzero, rfl⟩
  | cons item items ih =>
      intro n x before hn hbefore hnoise hroom hcrc hinput
      cases n with
      | zero => exact ⟨before, x, rfl, hbefore rfl, rfl⟩
      | succ n =>
          have hinput : x.input = item ++ (items.flatten ++ rest) := by
            rw [hinput, List.flatten_cons, List.append_assoc]
          rcases getHdr_noise (hnoise item List.mem_cons_self) hroom hcrc hinput with
            ⟨stat, counts, p, hget, hpassing, hlength⟩
          let x₁ : Xyz := { x.acked with
            counts := counts, packet := p, input := items.flatten ++ rest }
          have hcore : x₁.askAgain.core = x.core := acked_core x
          have hstat : stat ≠ .ok := by
            rcases hpassing with rfl | rfl | rfl <;> decide
          rcases ih n x₁.askAgain stat (Nat.le_of_succ_le_succ hn) (fun _ => hstat)
            (fun l hl => hnoise l (List.mem_cons_of_mem item hl)) hlength
            ((congrArg Core.crcMode hcore).trans hcrc) rfl with ⟨stat', x', hrun, hne, heof⟩
          refine ⟨stat', x', ?_, hne, heof.trans (congrArg Core.atEof hcore)⟩
          rw [nextBlock_passing hget hpassing, hrun]

theorem nextBlock_failure {line : Line} (hfailure : Failure line)
    (hroom : x.packet.pkt.length = 1024) (hcrc : x.crcMode = true) (hinput : x.input = line)
    {n : Nat} (hn : n < maxRetries) (before : Stat) :
    exists stat x', nextBlock (n + 1) before x = (stat, x') ∧ stat ≠ .ok ∧
      x'.atEof = x.atEof := by
  cases hfailure with
  | cancelled rest =>
      let x₁ : Xyz := { x.acked with
        counts := { x.counts with totalCan := x.counts.totalCan + 1 + 1 + 1 }, input := rest }
      have hget : getHdr x = (.cancel, x₁) := by
        unfold getHdr
        rw [hinput]
        rfl
      refine ⟨.cancel, x₁, ?_, by decide, congrArg Core.atEof (acked_core x)⟩
      unfold nextBlock
      rw [hget]
  | exhausted items rest hmany hnoise =>
      exact nextBlock_exhausted items (n + 1) x before (by omega)
        (fun heq => absurd heq (Nat.succ_ne_zero n)) hnoise hroom hcrc hinput

/-- All blocks were taken: the tries that are left meet the end of the line. -/
theorem Stream.reach {fileLength k readLength : Nat}
    (h : Stream fileLength tail k readLength [] x) (before : Stat) :
    exists n stat x', n < maxRetries ∧ nextBlock maxRetries before x = nextBlock (n + 1) stat x' ∧
      x'.core = x.core ∧ x'.packet.pkt.length = 1024 ∧ x'.input = tail := by
  rcases h with ⟨hcore, hroom, _, _, hline, _, _⟩
  generalize hinput : x.input = line at hline
  cases hline with
  | last items hfew hidle =>
      have htries : maxRetries = items.length + (maxRetries - items.length - 1 + 1) := by omega
      rcases nextBlock_idle items x before hidle hroom (congrArg Core.crcMode hcore)
        (congrArg Core.nextBlk hcore) hinput (maxRetries - items.length - 1 + 1) with
        ⟨stat, x', hrun, hcore', hlength, hrest⟩
      refine ⟨maxRetries - items.length - 1, stat, x', by omega, ?_, hcore', hlength, hrest⟩
      rw [← htries] at hrun
      exact hrun

theorem streamRead_last {fileLength : Nat} (h : Hands fileLength (some eot :: rest) x todo)
    {size fuel : Nat} (hsize : todo.length < size) (hfuel : todo.length + 1 < fuel) :
    exists err x', streamRead fuel x size = some ⟨todo, err, x'⟩ ∧ x'.atEof = true := by
  rcases readLoop_hands fuel x size todo [] h (by omega) with ⟨fuel', x₁, hleft, hrun, h₁⟩
  rw [List.drop_eq_nil_of_le (Nat.le_of_lt hsize)] at h₁
  rcases h₁.nil with ⟨hempty, k, readLength, hstream⟩
  rcases hstream.reach .cancel with ⟨n, stat, x₂, _, hreach, hcore, _, hinput⟩
  have hmode : x₂.mode = .ymodem := congrArg Core.mode (hcore.trans hstream.core)
  rcases nextBlock_eot hmode hinput n stat with ⟨stat', x₃, hlast, heof⟩
  rw [hlast] at hreach
  have hfuel' : fuel' = fuel' - 2 + 1 + 1 := by omega
  unfold streamRead
  rw [hrun, List.take_of_length_le (Nat.le_of_lt hsize), List.nil_append, hfuel']
  unfold readLoop
  rw [if_neg (hstream.going (by omega)), if_pos hempty, hreach]
  dsimp only
  by_cases hstat : stat' = .ok
  · rw [if_neg (not_not.mpr hstat), if_pos heof]
    unfold readLoop
    rw [if_pos (Or.inl heof)]
    exact ⟨none, x₃, rfl, heof⟩
  · rw [if_pos hstat]
    exact ⟨_, _, rfl, heof⟩

/-- Behind an error that came with data: a copy has a length of -1. -/
structure Overrun (x : Xyz) : Prop where
  going : x.atEof = false
  len : x.packet.len = -1

theorem streamRead_failed {fileLength : Nat} (hfailure : Failure tail)
    (h : Hands fileLength tail x todo) {size fuel : Nat} (hsize : todo.length < size)
    (hfuel : todo.length < fuel) :
    exists err x', streamRead fuel x size = some ⟨todo, some err, x'⟩ ∧ Overrun x' := by
  rcases readLoop_hands fuel x size todo [] h (by omega) with ⟨fuel', x₁, hleft, hrun, h₁⟩
  rw [List.drop_eq_nil_of_le (Nat.le_of_lt hsize)] at h₁
  rcases h₁.nil with ⟨hempty, k, readLength, hstream⟩
  rcases hstream.reach .cancel with ⟨n, stat, x₂, hn, hreach, hcore, hlength, hinput⟩
  have hcore' := hcore.trans hstream.core
  rcases nextBlock_failure hfailure hlength (congrArg Core.crcMode hcore') hinput hn stat with
    ⟨stat', x₃, hlast, hstat, heof⟩
  rw [hlast] at hreach
  have hfuel' : fuel' = fuel' - 1 + 1 := by omega
  unfold streamRead
  rw [hrun, List.take_of_length_le (Nat.le_of_lt hsize), List.nil_append, hfuel']
  unfold readLoop
  rw [if_neg (hstream.going (by omega)), if_pos hempty, hreach]
  dsimp only
  rw [if_pos hstat]
  exact ⟨_, _, rfl, heof.trans (congrArg Core.atEof hcore'), rfl⟩

theorem streamRead_atEof (heof : x.atEof = true) {fuel : Nat} (hfuel : 0 < fuel) (size : Nat) :
    streamRead fuel x size = some ⟨[], none, x⟩ := by
  cases fuel with
  | zero => cases hfuel
  | succ fuel =>
      unfold streamRead readLoop
      rw [if_pos (Or.inl heof)]

theorem Overrun.copy (h : Overrun x) (size : Nat) : copyOut x size = none := by
  have hmore : ¬ (size : Int) < -1 := by omega
  unfold copyOut
  dsimp only
  rw [h.len, if_neg hmore]
  exact if_pos (Or.inl (by decide))

theorem Overrun.streamRead (h : Overrun x) {size : Nat} (hsize : size ≠ 0) (fuel : Nat) :
    streamRead fuel x size = none := by
  have hgoing : ¬ (x.atEof ∨ size = 0) := by
    rw [h.going]
    simpa using hsize
  have hheld : ¬ x.packet.len = 0 := by
    rw [h.len]
    decide
  cases fuel with
  | zero => rfl
  | succ fuel =>
      unfold Xyzmodem.streamRead readLoop
      rw [if_neg hgoing, if_neg hheld]
      dsimp only
      rw [if_neg (not_not.mpr rfl), h.going, if_neg Bool.false_ne_true, h.copy]
      rfl

end Xyzmodem
end Load
end Bab750
