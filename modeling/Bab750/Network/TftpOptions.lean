import Bab750.Foundation.Run
import Bab750.Network.Tftp

/-!
# The block size of a transfer

A client that runs from `TftpStart` gets datagrams of any content, and its timer
may fire.  The block size it asks for, the one a server acknowledges, and the
default of 512 bytes are three numbers; the blocks are stored with one of them.
-/

namespace Bab750
namespace Network

open Foundation
open Support

/-!
# Steps of the client
-/

/-- A datagram as `NetReceive` hands it on. -/
structure Datagram where
  pkt : Buffer
  dest : BitVec 32
  src : BitVec 32
  len : BitVec 32

inductive ClientEvent where
  | packet (d : Datagram)
  | timeout

def clientStep (s : TftpClient) : ClientEvent -> TftpClient
  | .packet d => tftpHandler s d.pkt d.dest d.src d.len
  | .timeout => tftpTimeout s

/-- A step of a transfer that is neither finished nor started again. -/
def ClientStep (s : TftpClient) (event : ClientEvent) (u : TftpClient) : Prop :=
  s.netState = .continue ∧ s.startedAgain = 0 ∧ u = clientStep s event

def Datagram.Accepted (d : Datagram) (s : TftpClient) : Prop :=
  d.dest = s.tftpOurPort ∧ (s.tftpState = .rrq ∨ d.src = s.tftpServerPort) ∧
    2 <= d.len.toNat

instance (d : Datagram) (s : TftpClient) : Decidable (d.Accepted s) :=
  inferInstanceAs (Decidable (_ ∧ _ ∧ _))

def Datagram.behind (d : Datagram) : Buffer :=
  fun i => d.pkt (i + 2)

/-- The block size that an option loop acknowledges, if it finds one. -/
def acknowledgedFrom (pkt : Buffer) (len : Nat) : Nat -> Nat -> Option (BitVec 16)
  | 0, _ => none
  | fuel + 1, i =>
      if i + 8 < len then
        (acknowledgedFrom pkt len fuel (i + 1)).or
          (if blksizeAt pkt i then
            some ((simpleStrtoul (bytesAt pkt (i + 8) pktsizeAlign) 10).1.setWidth 16)
          else none)
      else none

def acknowledged (s : TftpClient) : ClientEvent -> Option (BitVec 16)
  | .packet d =>
      if d.Accepted s ∧ shortAt d.pkt 0 = 6#16 then
        acknowledgedFrom d.behind (d.len.toNat - 2) (d.len.toNat - 2) 0
      else none
  | .timeout => none

/-- The first block has number one; after it, a block is not the last one again. -/
def FreshBlock (s : TftpClient) (block : BitVec 16) : Prop :=
  (s.tftpState = .rrq ∨ s.tftpState = .oack -> block = 1#16) ∧
    (s.tftpState = .data -> block.setWidth 32 ≠ s.tftpLastBlock)

instance (s : TftpClient) (block : BitVec 16) : Decidable (FreshBlock s block) :=
  inferInstanceAs (Decidable (_ ∧ _))

/-- The block number and the bytes that a datagram makes the client store. -/
def storedBlock (s : TftpClient) : ClientEvent -> Option (BitVec 16 × List Byte)
  | .packet d =>
      if (d.Accepted s ∧ shortAt d.pkt 0 = 3#16 ∧ 4 <= d.len.toNat) ∧
          FreshBlock s (shortAt d.behind 0) then
        some (shortAt d.behind 0, bytesAt d.behind 2 (d.len.toNat - 4))
      else none
  | .timeout => none

/-- A block is stored, and the end of the file is found, with the given block size. -/
structure StoredWith (size : BitVec 16) (s u : TftpClient) (block : BitVec 16)
    (payload : List Byte) : Prop where
  memory : u.memory = copyMemory s.memory
    (s.loadAddr + ((block.setWidth 32 - 1#32) * size.setWidth 32 +
      u.tftpBlockWrapOffset)) payload
  done : u.netState = .success <-> payload.length < size.toNat

/--
An OACK comes in front of the first block, and acknowledges a block size between
one and the one that was asked for, or none.
-/
def Negotiated (s : TftpClient) : ClientEvent -> Prop
  | .packet d => d.Accepted s -> shortAt d.pkt 0 = 6#16 ->
      s.tftpState ≠ .data ∧
        forall size, acknowledged s (.packet d) = some size ->
          1 <= size.toNat ∧ size.toNat <= s.tftpBlkSizeOption.toNat
  | .timeout => True

def NegotiatedStep (s : TftpClient) (event : ClientEvent) (u : TftpClient) : Prop :=
  Negotiated s event ∧ ClientStep s event u

def SilentStep (s : TftpClient) (event : ClientEvent) (u : TftpClient) : Prop :=
  acknowledged s event = none ∧ ClientStep s event u

/-!
# The branches of the handler
-/

inductive HandlerBranch (s : TftpClient) (d : Datagram) (u : TftpClient) : Prop where
  | ignored (result : u = s)
      (notOack : ¬ (d.Accepted s ∧ shortAt d.pkt 0 = 6#16))
      (notData : ¬ (d.Accepted s ∧ shortAt d.pkt 0 = 3#16 ∧ 4 <= d.len.toNat))
  | oack (accepted : d.Accepted s) (code : shortAt d.pkt 0 = 6#16)
      (result : u = tftpOack s d.src d.behind (d.len.toNat - 2))
  | data (accepted : d.Accepted s) (code : shortAt d.pkt 0 = 3#16)
      (long : 4 <= d.len.toNat)
      (result : u = tftpData s d.src (shortAt d.behind 0)
        (bytesAt d.behind 2 (d.len.toNat - 4)))
  | error (code : shortAt d.pkt 0 = 5#16) (result : u = tftpError s d.behind)

theorem tftpHandler_branch (s : TftpClient) (d : Datagram) :
    HandlerBranch s d (tftpHandler s d.pkt d.dest d.src d.len) := by
  unfold tftpHandler
  split
  case isTrue hdest =>
      refine .ignored rfl ?_ ?_
      · exact fun h => hdest h.left.left
      · exact fun h => hdest h.left.left
  case isFalse hdest =>
      have hdest' : d.dest = s.tftpOurPort := Decidable.not_not.mp hdest
      split
      case isTrue hsrc =>
          have hrefused : ¬ d.Accepted s := by
            rintro ⟨_, hrrq | hsame, _⟩
            · exact hsrc.left hrrq
            · exact hsrc.right hsame
          exact .ignored rfl (fun h => hrefused h.left) (fun h => hrefused h.left)
      case isFalse hsrc =>
          split
          case isTrue hshort =>
              refine .ignored rfl ?_ ?_
              · exact fun h => absurd h.left.right.right (by omega)
              · exact fun h => absurd h.left.right.right (by omega)
          case isFalse hshort =>
              have haccepted : d.Accepted s := by
                refine ⟨hdest', ?_, by omega⟩
                by_cases hrrq : s.tftpState = .rrq
                · exact Or.inl hrrq
                · exact Or.inr (Decidable.not_not.mp (fun h => hsrc ⟨hrrq, h⟩))
              dsimp only
              split
              case isTrue hoack =>
                  exact .oack haccepted hoack rfl
              case isFalse hoack =>
                  split
                  case isTrue hdata =>
                      split
                      case isTrue hempty =>
                          refine .ignored rfl (fun h => hoack h.right) ?_
                          exact fun h => absurd h.right.right (by omega)
                      case isFalse hlong =>
                          exact .data haccepted hdata (by omega) rfl
                  case isFalse hdata =>
                      split
                      case isTrue herror =>
                          exact .error herror rfl
                      case isFalse herror =>
                          exact .ignored rfl (fun h => hoack h.right)
                            (fun h => hdata h.right.left)

theorem oackBlkSize_eq (pkt : Buffer) (len : Nat) (size : BitVec 16) (fuel i : Nat) :
    oackBlkSize pkt len size fuel i =
      (acknowledgedFrom pkt len fuel i).getD size := by
  induction fuel generalizing size i with
  | zero =>
      rfl
  | succ fuel ih =>
      unfold oackBlkSize acknowledgedFrom
      split
      case isTrue hmore =>
          rw [ih]
          cases acknowledgedFrom pkt len fuel (i + 1) with
          | some later =>
              rfl
          | none =>
              split
              · rfl
              · rfl
      case isFalse hdone =>
          rfl

/-!
# Single steps
-/

def Transferring (s : TftpClient) : Prop :=
  s.tftpState = .rrq ∨ s.tftpState = .oack ∨ s.tftpState = .data

/-- A step that leaves the block size and the memory alone. -/
structure Unstored (s u : TftpClient) : Prop where
  size : u.tftpBlkSize = s.tftpBlkSize
  option : u.tftpBlkSizeOption = s.tftpBlkSizeOption
  memory : u.memory = s.memory
  netState : s.netState = .continue -> u.netState ≠ .success
  transferring : Transferring u
  phase : s.tftpState = .data -> u.tftpState = .data

/-- The client that `tftpStore` gets for a block. -/
structure Prepared (s v : TftpClient) (block : BitVec 16) : Prop where
  size : v.tftpBlkSize = s.tftpBlkSize
  option : v.tftpBlkSizeOption = s.tftpBlkSizeOption
  load : v.loadAddr = s.loadAddr
  memory : v.memory = s.memory
  netState : v.netState = s.netState
  phase : v.tftpState = .data
  block : v.tftpBlock = block.setWidth 32

theorem continue_ne_success {s : TftpClient} (h : s.netState = .continue) :
    s.netState ≠ .success := by
  rw [h]
  decide

theorem setWidth_eq_one {block : BitVec 16} :
    block.setWidth 32 = 1#32 <-> block = 1#16 := by
  constructor
  · intro h
    apply BitVec.eq_of_toNat_eq
    have hnat := congrArg BitVec.toNat h
    rw [BitVec.toNat_setWidth] at hnat
    have hlt := block.isLt
    simp only [BitVec.toNat_ofNat] at hnat ⊢
    omega
  · rintro rfl
    rfl

theorem tftpData_fresh (s : TftpClient) (src : BitVec 32) (block : BitVec 16)
    (payload : List Byte) (hphase : Transferring s) :
    (FreshBlock s block ∧ exists v, Prepared s v block ∧
      tftpData s src block payload = tftpStore v payload) ∨
    (¬ FreshBlock s block ∧ Unstored s (tftpData s src block payload)) := by
  have hprogress := tftpProgress_progressFrom { s with tftpBlock := block.setWidth 32 }
  unfold tftpData FreshBlock
  generalize tftpProgress { s with tftpBlock := block.setWidth 32 } = p at hprogress
  have hblock : p.tftpBlock = block.setWidth 32 := hprogress.block
  have hsame : p.tftpState = s.tftpState := hprogress.phase
  have hgoing : s.netState = .continue -> p.netState ≠ .success := by
    intro h
    rw [hprogress.netState]
    exact continue_ne_success h
  dsimp only
  rw [hsame]
  split
  case isTrue hopen =>
      have hnotData : s.tftpState ≠ .data := by
        rcases hopen with hrrq | hoack
        · rw [hrrq]
          decide
        · rw [hoack]
          decide
      by_cases hone : block = 1#16
      · left
        refine ⟨⟨fun _ => hone, fun h => absurd h hnotData⟩, ?_⟩
        have hfirst : p.tftpBlock = 1#32 := hblock.trans (setWidth_eq_one.mpr hone)
        rw [if_neg (fun h => h hfirst), if_neg (by rw [hfirst]; decide)]
        refine ⟨_, ?_, rfl⟩
        exact ⟨hprogress.size, hprogress.option, hprogress.load, hprogress.memory,
          hprogress.netState, rfl, hblock⟩
      · right
        refine ⟨fun h => hone (h.left hopen), ?_⟩
        have hother : p.tftpBlock ≠ 1#32 :=
          fun h => hone (setWidth_eq_one.mp (hblock.symm.trans h))
        rw [if_pos hother]
        exact ⟨hprogress.size, hprogress.option, hprogress.memory, hgoing,
          Or.inr (Or.inr rfl), fun _ => rfl⟩
  case isFalse hclosed =>
      have hdata : s.tftpState = .data := by
        rcases hphase with hrrq | hoack | hdata
        · exact absurd (Or.inl hrrq) hclosed
        · exact absurd (Or.inr hoack) hclosed
        · exact hdata
      have hlast : p.tftpLastBlock = s.tftpLastBlock := hprogress.last
      rw [hblock, hlast]
      by_cases hrepeat : block.setWidth 32 = s.tftpLastBlock
      · right
        rw [if_pos hrepeat]
        refine ⟨fun h => h.right hdata hrepeat, hprogress.size, hprogress.option,
          hprogress.memory, hgoing, ?_, fun h => hsame.trans h⟩
        exact Or.inr (Or.inr (hsame.trans hdata))
      · left
        rw [if_neg hrepeat]
        exact ⟨⟨fun h => absurd h hclosed, fun _ => hrepeat⟩, p,
          ⟨hprogress.size, hprogress.option, hprogress.load, hprogress.memory,
            hprogress.netState, hsame.trans hdata, hblock⟩, rfl⟩

theorem tftpError_unstored {s : TftpClient} (hphase : Transferring s) (pkt : Buffer) :
    Unstored s (tftpError s pkt) := by
  unfold tftpError
  dsimp only
  split
  · exact ⟨rfl, rfl, rfl, fun _ => by simp, hphase, fun h => h⟩
  · exact ⟨rfl, rfl, rfl, continue_ne_success, hphase, fun h => h⟩

theorem tftpTimeout_unstored {s : TftpClient} (hphase : Transferring s) :
    Unstored s (tftpTimeout s) := by
  unfold tftpTimeout
  dsimp only
  split
  · exact ⟨rfl, rfl, rfl, continue_ne_success, hphase, fun h => h⟩
  · exact ⟨rfl, rfl, rfl, continue_ne_success, hphase, fun h => h⟩

inductive StepKind (s : TftpClient) (event : ClientEvent) (u : TftpClient) : Prop where
  | stored (v : TftpClient) (block : BitVec 16) (payload : List Byte)
      (found : storedBlock s event = some (block, payload))
      (silent : acknowledged s event = none)
      (prepared : Prepared s v block) (result : u = tftpStore v payload)
  | unstored (found : storedBlock s event = none)
      (silent : acknowledged s event = none) (result : Unstored s u)
  | options (d : Datagram) (isPacket : event = .packet d)
      (accepted : d.Accepted s) (code : shortAt d.pkt 0 = 6#16)
      (found : storedBlock s event = none)
      (size : u.tftpBlkSize = (acknowledged s event).getD s.tftpBlkSize)
      (option : u.tftpBlkSizeOption = s.tftpBlkSizeOption)
      (phase : u.tftpState = .oack)

theorem clientStep_kind {s : TftpClient} (hphase : Transferring s)
    (event : ClientEvent) : StepKind s event (clientStep s event) := by
  cases event with
  | timeout =>
      exact .unstored rfl rfl (tftpTimeout_unstored hphase)
  | packet d =>
      cases tftpHandler_branch s d with
      | ignored result notOack notData =>
          refine .unstored (if_neg (fun h => notData h.left)) (if_neg notOack) ?_
          show Unstored s (tftpHandler s d.pkt d.dest d.src d.len)
          rw [result]
          exact ⟨rfl, rfl, rfl, continue_ne_success, hphase, fun h => h⟩
      | oack accepted code result =>
          have hnone : storedBlock s (.packet d) = none := by
            refine if_neg ?_
            rintro ⟨⟨_, hdata, _⟩, _⟩
            rw [code] at hdata
            exact absurd hdata (by decide)
          have hack : acknowledged s (.packet d) = acknowledgedFrom d.behind
              (d.len.toNat - 2) (d.len.toNat - 2) 0 := if_pos ⟨accepted, code⟩
          have hstep : clientStep s (.packet d) = _ := result
          refine .options d rfl accepted code hnone ?_ ?_ ?_
          · rw [hstep, hack, ← oackBlkSize_eq]
            rfl
          · rw [hstep]
            rfl
          · rw [hstep]
            rfl
      | data accepted code long result =>
          have hsilent : acknowledged s (.packet d) = none := by
            refine if_neg ?_
            rintro ⟨_, hoack⟩
            rw [code] at hoack
            exact absurd hoack (by decide)
          have hstep : clientStep s (.packet d) = _ := result
          rcases tftpData_fresh s d.src (shortAt d.behind 0)
            (bytesAt d.behind 2 (d.len.toNat - 4)) hphase with
            ⟨hfresh, v, hprepared, hstore⟩ | ⟨hstale, hunstored⟩
          · exact .stored v _ _ (if_pos ⟨⟨accepted, code, long⟩, hfresh⟩) hsilent
              hprepared (hstep.trans hstore)
          · refine .unstored (if_neg (fun h => hstale h.right)) hsilent ?_
            rw [hstep]
            exact hunstored
      | error code result =>
          have hstep : clientStep s (.packet d) = _ := result
          refine .unstored (if_neg ?_) (if_neg ?_) ?_
          · rintro ⟨⟨_, hdata, _⟩, _⟩
            rw [code] at hdata
            exact absurd hdata (by decide)
          · rintro ⟨_, hoack⟩
            rw [code] at hoack
            exact absurd hoack (by decide)
          · rw [hstep]
            exact tftpError_unstored hphase d.behind

theorem tftpStore_storedWith {s v : TftpClient} {block : BitVec 16}
    {payload : List Byte} (hgoing : s.netState = .continue)
    (h : Prepared s v block) :
    StoredWith s.tftpBlkSize s (tftpStore v payload) block payload := by
  have hstored := tftpStore_storedFrom v payload
  constructor
  · rw [hstored.memory, hstored.wrap]
    unfold storeBlock
    rw [h.memory, h.load, h.block, h.size]
  · rw [hstored.netState, h.size, h.netState, hgoing]
    split
    case isTrue hshort =>
        exact ⟨fun _ => hshort, fun _ => rfl⟩
    case isFalse hlong =>
        constructor
        · intro h
          cases h
        · intro h
          exact absurd h hlong

/-!
# Runs
-/

def Requested (s : TftpClient) : Prop :=
  1 <= s.tftpBlkSize.toNat ∧ s.tftpBlkSize.toNat <= s.tftpBlkSizeOption.toNat

theorem negotiatedStep_kind {s u : TftpClient} {event : ClientEvent}
    (hphase : Transferring s) (hstep : NegotiatedStep s event u) :
    Transferring u ∧ u.tftpBlkSizeOption = s.tftpBlkSizeOption ∧
      (Requested u ∨ (acknowledged s event = none ∧ u.tftpBlkSize = s.tftpBlkSize)) ∧
        (s.tftpState = .data -> u.tftpState = .data ∧ u.tftpBlkSize = s.tftpBlkSize) := by
  rcases hstep with ⟨hnegotiated, _, _, rfl⟩
  cases clientStep_kind hphase event with
  | stored v block payload found silent prepared result =>
      have hstored := tftpStore_storedFrom v payload
      have hdata : (clientStep s event).tftpState = .data := by
        rw [result, hstored.phase]
        exact prepared.phase
      have hsize : (clientStep s event).tftpBlkSize = s.tftpBlkSize := by
        rw [result, hstored.size]
        exact prepared.size
      refine ⟨Or.inr (Or.inr hdata), ?_, Or.inr ⟨silent, hsize⟩, fun _ => ⟨hdata, hsize⟩⟩
      rw [result, hstored.option]
      exact prepared.option
  | unstored found silent result =>
      exact ⟨result.transferring, result.option, Or.inr ⟨silent, result.size⟩,
        fun h => ⟨result.phase h, result.size⟩⟩
  | options d isPacket accepted code found size option phase =>
      subst isPacket
      rcases hnegotiated accepted code with ⟨hearly, hrange⟩
      refine ⟨Or.inr (Or.inl phase), option, ?_, fun h => absurd h hearly⟩
      cases hack : acknowledged s (.packet d) with
      | none =>
          rw [hack] at size
          exact Or.inr ⟨rfl, size⟩
      | some k =>
          rw [hack] at size
          left
          unfold Requested
          rw [size, option]
          exact hrange k hack

theorem negotiatedRun_size {s u : TftpClient} {events : List ClientEvent}
    (hrun : Run NegotiatedStep s events u) (hphase : Transferring s) :
    Transferring u ∧ u.tftpBlkSizeOption = s.tftpBlkSizeOption ∧
      (Requested u ∨ (Run SilentStep s events u ∧ u.tftpBlkSize = s.tftpBlkSize)) := by
  induction hrun with
  | nil s =>
      exact ⟨hphase, rfl, Or.inr ⟨.nil s, rfl⟩⟩
  | cons head tail ih =>
      rcases negotiatedStep_kind hphase head with ⟨hnext, hoption, hkind, _⟩
      rcases ih hnext with ⟨hlast, hoption', hkind'⟩
      refine ⟨hlast, hoption'.trans hoption, ?_⟩
      rcases hkind' with hrequested | ⟨hsilent', hsize'⟩
      · exact Or.inl hrequested
      · rcases hkind with hrequested | ⟨hsilent, hsize⟩
        · left
          unfold Requested
          rw [hsize', hoption']
          exact hrequested
        · exact Or.inr ⟨.cons ⟨hsilent, head.right⟩ hsilent', hsize'.trans hsize⟩

theorem negotiatedRun_data {s u : TftpClient} {events : List ClientEvent}
    (hrun : Run NegotiatedStep s events u) (hdata : s.tftpState = .data) :
    u.tftpState = .data ∧ u.tftpBlkSize = s.tftpBlkSize := by
  induction hrun with
  | nil s =>
      exact ⟨hdata, rfl⟩
  | cons head tail ih =>
      rcases negotiatedStep_kind (Or.inr (Or.inr hdata)) head with ⟨_, _, _, hkeep⟩
      rcases hkeep hdata with ⟨hnext, hsize⟩
      rcases ih hnext with ⟨hlast, hsize'⟩
      exact ⟨hlast, hsize'.trans hsize⟩

theorem clientStep_storedWith {s u : TftpClient} {event : ClientEvent}
    {block : BitVec 16} {payload : List Byte} (hphase : Transferring s)
    (hstep : ClientStep s event u) (hstore : storedBlock s event = some (block, payload)) :
    StoredWith s.tftpBlkSize s u block payload ∧ u.tftpState = .data ∧
      u.tftpBlkSize = s.tftpBlkSize := by
  rcases hstep with ⟨hgoing, _, rfl⟩
  cases clientStep_kind hphase event with
  | stored v block' payload' found silent prepared result =>
      have hpair := found.symm.trans hstore
      have hblock : block' = block := congrArg Prod.fst (Option.some.inj hpair)
      have hpayload : payload' = payload := congrArg Prod.snd (Option.some.inj hpair)
      subst hblock hpayload
      have hstored := tftpStore_storedFrom v payload'
      rw [result]
      exact ⟨tftpStore_storedWith hgoing prepared, hstored.phase.trans prepared.phase,
        hstored.size.trans prepared.size⟩
  | unstored found silent result =>
      rw [found] at hstore
      cases hstore
  | options d isPacket accepted code found size option phase =>
      rw [found] at hstore
      cases hstore

/--
In a negotiated run from `TftpStart`, all blocks are stored, and the end of the file
is found, with the block size of the first one.  It is one that was asked for, or
the default when no block size was acknowledged.
-/
theorem tftpBlkSize_in_force {client s first v : TftpClient} {env : TftpEnvironment}
    {filename banner : List Byte} {ourPort : BitVec 32} {rrqTimeouts : Int}
    {before after : List ClientEvent} {event : ClientEvent} {block : BitVec 16}
    {payload : List Byte}
    (hbefore : Run NegotiatedStep
      (tftpStart client env filename banner ourPort rrqTimeouts) before s)
    (hfirst : NegotiatedStep s event first)
    (hstore : storedBlock s event = some (block, payload))
    (hafter : Run NegotiatedStep first after v) :
    StoredWith s.tftpBlkSize s first block payload ∧
    v.tftpBlkSize = s.tftpBlkSize ∧
    (forall event u block payload, NegotiatedStep v event u ->
      storedBlock v event = some (block, payload) ->
        StoredWith s.tftpBlkSize v u block payload) ∧
    1 <= s.tftpBlkSize.toNat ∧
    (s.tftpBlkSize.toNat <= s.tftpBlkSizeOption.toNat ∨
      (s.tftpBlkSize = tftpBlockSize ∧ Run SilentStep
        (tftpStart client env filename banner ourPort rrqTimeouts) before s)) := by
  have hstart : Transferring
      (tftpStart client env filename banner ourPort rrqTimeouts) := Or.inl rfl
  rcases negotiatedRun_size hbefore hstart with ⟨hphase, _, hsize⟩
  rcases clientStep_storedWith hphase hfirst.right hstore with ⟨hwith, hdata, hkept⟩
  rcases negotiatedRun_data hafter hdata with ⟨hdata', hkept'⟩
  have hsame : v.tftpBlkSize = s.tftpBlkSize := hkept'.trans hkept
  refine ⟨hwith, hsame, ?_, ?_⟩
  · intro event' u block' payload' hnext hstore'
    rw [← hsame]
    exact (clientStep_storedWith (Or.inr (Or.inr hdata')) hnext.right hstore').left
  · rcases hsize with ⟨hpos, hle⟩ | ⟨hsilent, hdefault⟩
    · exact ⟨hpos, Or.inl hle⟩
    · have h512 : s.tftpBlkSize = tftpBlockSize := hdefault
      refine ⟨?_, Or.inr ⟨h512, hsilent⟩⟩
      rw [h512]
      decide

def idleClient : TftpClient where
  tftpServerPort := 0#32
  tftpOurPort := 0#32
  tftpTimeoutCount := 0
  tftpTimeoutCountMax := 10
  tftpTimeoutMSecs := 5000#32
  tftpBlock := 0#32
  tftpLastBlock := 0#32
  tftpBlockWrap := 0#32
  tftpBlockWrapOffset := 0#32
  tftpState := .rrq
  tftpBlkSize := 512#16
  tftpBlkSizeOption := 1468#16
  tftpFilename := []
  loadAddr := 0x1000000#32
  netBootFileXferSize := 0#32
  netState := .continue
  startedAgain := 0
  memory := fun _ => 0#8
  sent := []
  output := []

def requestClient : TftpClient :=
  tftpStart idleClient { tftpblocksize := some (ascii "8\x00"), tftptimeout := none }
    (ascii "ok.txt") [] 0x400#32 10

def serverPacket (bytes : List Byte) : ClientEvent :=
  .packet {
    pkt := packetBuffer bytes (fun _ => 0#8)
    dest := 0x400#32
    src := 0x42d#32
    len := BitVec.ofNat 32 bytes.length }

def oackEvent (digit : Byte) : ClientEvent :=
  serverPacket (shortBytes 6#16 ++ ascii "blksize" ++ [0#8, digit, 0#8])

def dataEvent (block : BitVec 16) (bytes : List Byte) : ClientEvent :=
  serverPacket (shortBytes 3#16 ++ shortBytes block ++ bytes)

theorem tftpBlkSize_in_force_eight :
    (clientStep (clientStep requestClient (oackEvent 0x38#8))
      (dataEvent 1#16 (ascii "U-Boot 2"))).tftpBlkSize = 8#16 := by
  have hoack : NegotiatedStep requestClient (oackEvent 0x38#8)
      (clientStep requestClient (oackEvent 0x38#8)) := by
    refine ⟨fun _ _ => ⟨by decide, ?_⟩, rfl, rfl, rfl⟩
    intro size hsize
    have height : acknowledged requestClient (oackEvent 0x38#8) = some 8#16 := by
      decide +kernel
    have hsame : size = 8#16 := Option.some.inj (hsize.symm.trans height)
    rw [hsame]
    decide
  have hblock : NegotiatedStep (clientStep requestClient (oackEvent 0x38#8))
      (dataEvent 1#16 (ascii "U-Boot 2"))
      (clientStep (clientStep requestClient (oackEvent 0x38#8))
        (dataEvent 1#16 (ascii "U-Boot 2"))) := by
    refine ⟨fun _ hcode => absurd hcode (by decide), by decide +kernel, by decide +kernel,
      rfl⟩
  have hstore : storedBlock (clientStep requestClient (oackEvent 0x38#8))
      (dataEvent 1#16 (ascii "U-Boot 2")) = some (1#16, ascii "U-Boot 2") := by
    decide +kernel
  have hforce := tftpBlkSize_in_force (.cons hoack (.nil _)) hblock hstore (.nil _)
  have hsize : (clientStep requestClient (oackEvent 0x38#8)).tftpBlkSize = 8#16 := by
    decide +kernel
  rw [hforce.right.left, hsize]

/--
Without a negotiation the default may be more than what was asked for, a server may
acknowledge no bytes at all, and an OACK behind the first block changes both the
block size and the phase.
-/
theorem tftpBlkSize_not_in_force :
    ¬ (forall (before : List ClientEvent) (s first : TftpClient) (event : ClientEvent)
        (block : BitVec 16) (payload : List Byte),
      Run ClientStep requestClient before s -> ClientStep s event first ->
        storedBlock s event = some (block, payload) ->
          s.tftpBlkSize.toNat <= s.tftpBlkSizeOption.toNat) ∧
    ¬ (forall (before : List ClientEvent) (s first : TftpClient) (event : ClientEvent)
        (block : BitVec 16) (payload : List Byte),
      Run ClientStep requestClient before s -> ClientStep s event first ->
        storedBlock s event = some (block, payload) -> 1 <= s.tftpBlkSize.toNat) ∧
    ¬ (forall (before after : List ClientEvent) (s first v : TftpClient)
        (event : ClientEvent) (block : BitVec 16) (payload : List Byte),
      Run ClientStep requestClient before s -> ClientStep s event first ->
        storedBlock s event = some (block, payload) -> Run ClientStep first after v ->
          v.tftpBlkSize = s.tftpBlkSize ∧ v.tftpState = first.tftpState) := by
  refine ⟨?_, ?_, ?_⟩
  · intro hclaim
    have hle := hclaim [] requestClient _ (dataEvent 1#16 (ascii "U-Boot 2")) 1#16
      (ascii "U-Boot 2") (.nil _) ⟨rfl, rfl, rfl⟩ (by decide +kernel)
    exact absurd hle (by decide)
  · intro hclaim
    have hpos := hclaim [oackEvent 0x30#8] (clientStep requestClient (oackEvent 0x30#8)) _
      (dataEvent 1#16 (ascii "U-Boot 2")) 1#16 (ascii "U-Boot 2")
      (.cons ⟨rfl, rfl, rfl⟩ (.nil _)) ⟨by decide +kernel, by decide +kernel, rfl⟩
      (by decide +kernel)
    exact absurd hpos (by decide +kernel)
  · intro hclaim
    let agreed := clientStep requestClient (oackEvent 0x38#8)
    let stored := clientStep agreed (dataEvent 1#16 (ascii "U-Boot 2"))
    have hsame := hclaim [oackEvent 0x38#8] [oackEvent 0x34#8] agreed stored
      (clientStep stored (oackEvent 0x34#8)) (dataEvent 1#16 (ascii "U-Boot 2")) 1#16
      (ascii "U-Boot 2") (.cons ⟨rfl, rfl, rfl⟩ (.nil _))
      ⟨by decide +kernel, by decide +kernel, rfl⟩ (by decide +kernel)
      (.cons ⟨by decide +kernel, by decide +kernel, rfl⟩ (.nil _))
    exact absurd hsame.left (by decide +kernel)

end Network
end Bab750
