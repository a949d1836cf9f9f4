import Bab750.Foundation.Run
import Bab750.Load.Kermit

/-!
# A Kermit transfer

`k_recv` against a sender that stops behind each packet and waits, over a line that may change
or lose characters of a packet, and may lose acknowledgements.
-/

namespace Bab750
namespace Load

open Foundation

/-!
# Packets
-/

structure Packet where
  kind : Byte
  data : List Byte
  /-- The length is told in two characters behind the type. -/
  extended : Bool
deriving DecidableEq

def sumOf (chars : List Byte) : Nat := (chars.map BitVec.toNat).sum

def Packet.header (p : Packet) (seq : Nat) : List Byte :=
  if p.extended then
    let start := [tochar 0, tochar seq, p.kind, tochar ((p.data.length + 1) / 95),
      tochar ((p.data.length + 1) % 95)]
    start ++ [blockCheck (sumOf start)]
  else [tochar (p.data.length + 3), tochar seq, p.kind]

def Packet.characters (p : Packet) (seq : Nat) : List Byte :=
  p.header seq ++ p.data ++ [blockCheck (sumOf (p.header seq ++ p.data))]

structure Packet.Formed (p : Packet) : Prop where
  kind : ¬ IsControl p.kind
  data : forall c, c ∈ p.data -> ¬ IsControl c
  size : p.data.length + 3 <= 94 ∨ (p.extended = true ∧ p.data.length + 1 < 95 * 95)

def Packet.stored (p : Packet) : List Byte := if p.kind = dataType then p.data else []

structure Session where
  file : List Byte
  /-- The packet with the parameters. -/
  send : Packet
  middle : List Packet
  last : Packet
  sendKind : send.kind = sendType
  middleKind : forall p, p ∈ middle -> p.kind ≠ sendType ∧ p.kind ≠ breakType
  lastKind : last.kind = breakType
  formed : forall p, p ∈ send :: middle ++ [last] -> p.Formed
  encodes : Encodes (parmQuote (send.data.take 19)) file (middle.flatMap Packet.stored)

namespace Session

variable (x : Session)

def packets : List Packet := x.send :: x.middle ++ [x.last]

def quote : Byte := parmQuote (x.send.data.take 19)

/-- The characters to store of the packets in front of one. -/
def before (index : Nat) : List Byte := (x.packets.take index).flatMap Packet.stored

end Session

/-!
# The system
-/

def sequence (index : Nat) : Nat := index % 64

structure Transfer where
  recv : KRecv
  /-- The packet that the sender wants to be acknowledged. -/
  index : Nat
  /-- What is on the line to `k_recv`. -/
  line : List Byte
  /-- What `k_recv` has read behind the last start character. -/
  heard : List Byte
  /-- What `k_recv` has answered to the last transmission. -/
  replies : List Reply

inductive TransferEvent where
  /-- The sender sends its packet, for the first time or again. -/
  | transmit
  /-- `k_recv` gets a character, as it was sent or another one. -/
  | pass (c : Byte)
  /-- A character is lost. -/
  | drop
  /-- The sender gets an acknowledgement. -/
  | acknowledged
deriving DecidableEq

def Reply.acknowledges (index : Nat) : Reply -> Bool
  | Reply.ack n _ => n = sequence index
  | Reply.nack _ => false

/-- An acknowledgement for the sender's packet is on its way. -/
def Transfer.Answered (t : Transfer) : Prop :=
  exists reply, reply ∈ t.replies ∧ reply.acknowledges t.index = true

instance (t : Transfer) : Decidable t.Answered :=
  inferInstanceAs (Decidable (exists reply, reply ∈ t.replies ∧ _))

/-- The sender waits for an answer before it sends anything. -/
def TransferEnabled (x : Session) (t : Transfer) : TransferEvent -> Prop
  | TransferEvent.transmit => t.line = [] ∧ t.index < x.packets.length
  | TransferEvent.pass _ => t.line ≠ []
  | TransferEvent.drop => t.line ≠ []
  | TransferEvent.acknowledged => t.line = [] ∧ t.Answered

def Session.transmission (x : Session) (index : Nat) : List Byte :=
  match x.packets[index]? with
  | some p => startChar :: p.characters (sequence index) ++ [endChar]
  | none => []

/-- `k_recv` gets a character. -/
def Transfer.hearing (t : Transfer) (c : Byte) : Transfer :=
  { t with
    recv := (hear t.recv c).1
    line := t.line.tail
    heard := if t.recv.place = Place.start then [] else t.heard ++ [c]
    replies := t.replies ++ (hear t.recv c).2.toList }

def transferNext (x : Session) (t : Transfer) : TransferEvent -> Transfer
  | TransferEvent.transmit => { t with line := x.transmission t.index, replies := [] }
  | TransferEvent.pass c => t.hearing c
  | TransferEvent.drop => { t with line := t.line.tail }
  | TransferEvent.acknowledged => { t with index := t.index + 1, replies := [] }

def Reply.isAck : Reply -> Bool
  | Reply.ack _ _ => true
  | Reply.nack _ => false

/-- `k_recv` accepts a packet with a character. -/
def accepts (k : KRecv) (c : Byte) : Bool := (hear k c).2.any Reply.isAck

/-- A packet that was changed on its way is not accepted. -/
def Visible (x : Session) (t : Transfer) : TransferEvent -> Prop
  | TransferEvent.pass c =>
      accepts t.recv c = true -> startChar :: t.heard ++ [c] = x.transmission t.index
  | _ => True

/-- `k_recv` begins no packet behind one that it has accepted, and when it begins one it gets as
far as the sequence number, which is the one that was sent. -/
def Orderly (t : Transfer) : TransferEvent -> Prop
  | TransferEvent.pass c =>
      (t.recv.place = Place.start -> c = startChar -> ¬ t.Answered) ∧
      (t.recv.place = Place.length -> ¬ IsControl c) ∧
      (t.recv.place = Place.sequence -> c = tochar (sequence t.index))
  | _ => True

def VisibleStep (x : Session) (t : Transfer) (event : TransferEvent) (u : Transfer) : Prop :=
  TransferEnabled x t event ∧ Visible x t event ∧ u = transferNext x t event

def OrderlyStep (x : Session) (t : Transfer) (event : TransferEvent) (u : Transfer) : Prop :=
  Orderly t event ∧ VisibleStep x t event u

instance (x : Session) (t : Transfer) (event : TransferEvent) :
    Decidable (TransferEnabled x t event) :=
  match event with
  | TransferEvent.transmit => inferInstanceAs (Decidable (_ ∧ _))
  | TransferEvent.pass _ => inferInstanceAs (Decidable (_ ≠ _))
  | TransferEvent.drop => inferInstanceAs (Decidable (_ ≠ _))
  | TransferEvent.acknowledged => inferInstanceAs (Decidable (_ ∧ _))

instance (x : Session) (t : Transfer) (event : TransferEvent) : Decidable (Visible x t event) :=
  match event with
  | TransferEvent.transmit => isTrue trivial
  | TransferEvent.pass _ => inferInstanceAs (Decidable (_ -> _))
  | TransferEvent.drop => isTrue trivial
  | TransferEvent.acknowledged => isTrue trivial

instance (t : Transfer) (event : TransferEvent) : Decidable (Orderly t event) :=
  match event with
  | TransferEvent.transmit => isTrue trivial
  | TransferEvent.pass _ => inferInstanceAs (Decidable (_ ∧ _ ∧ _))
  | TransferEvent.drop => isTrue trivial
  | TransferEvent.acknowledged => isTrue trivial

def transferStart (memory : Nat -> Byte) : Transfer where
  recv := kRecv memory
  index := 0
  line := []
  heard := []
  replies := []

/-- The returned count and the memory are those of the file. -/
def Received (x : Session) (count : Nat) (memory : Nat -> Byte) : Prop :=
  count = x.file.length ∧ forall (i : Nat) (hi : i < x.file.length), memory i = x.file[i]

/-!
# Facts about a session
-/

namespace Session

variable {x : Session} {index : Nat} {p : Packet}

theorem packets_length : x.packets.length = x.middle.length + 2 := by
  simp [packets]

theorem packet_cases (h : x.packets[index]? = some p) :
    (index = 0 ∧ p = x.send) ∨
    (0 < index ∧ index + 1 < x.packets.length ∧ p ∈ x.middle) ∨
    (0 < index ∧ index + 1 = x.packets.length ∧ p = x.last) := by
  cases index with
  | zero =>
      left
      constructor
      · rfl
      · exact (Option.some.inj h).symm
  | succ index =>
      right
      have hget : (x.middle ++ [x.last])[index]? = some p := h
      rw [packets_length]
      by_cases hmiddle : index < x.middle.length
      · left
        rw [List.getElem?_append_left hmiddle] at hget
        exact ⟨Nat.succ_pos _, by omega, List.mem_of_getElem? hget⟩
      · right
        rw [List.getElem?_append_right (Nat.le_of_not_lt hmiddle)] at hget
        rcases List.getElem?_eq_some_iff.mp hget with ⟨hone, hlast⟩
        have hzero : index - x.middle.length = 0 := by simpa using hone
        refine ⟨Nat.succ_pos _, by omega, ?_⟩
        rw [← hlast]
        simp [hzero]

theorem before_succ (h : x.packets[index]? = some p) :
    x.before (index + 1) = x.before index ++ p.stored := by
  unfold before
  rw [List.take_add_one, h, List.flatMap_append]
  simp

theorem send_stored : x.send.stored = [] := by
  unfold Packet.stored
  rw [x.sendKind]
  rfl

theorem before_last (h : index + 1 = x.packets.length) :
    x.before index = x.middle.flatMap Packet.stored := by
  have hindex : index = x.middle.length + 1 := by
    rw [packets_length] at h
    omega
  unfold before packets
  rw [hindex, List.cons_append, List.take_succ_cons, List.take_left, List.flatMap_cons,
    send_stored, List.nil_append]

end Session

/-!
# Every file can be sent
-/

theorem ktrans_control (c : Byte) (hc : IsControl c) :
    ¬ IsControl (c ||| 0x40#8) ∧ ktrans (c ||| 0x40#8) = c := by
  revert c
  decide

theorem encodes_exists (file : List Byte) :
    exists chars, Encodes kEscape file chars ∧ forall c, c ∈ chars -> ¬ IsControl c := by
  have hescape : ¬ IsControl kEscape := by decide
  induction file with
  | nil =>
      exact ⟨[], Encodes.nil, fun c hc => absurd hc List.not_mem_nil⟩
  | cons b file ih =>
      rcases ih with ⟨chars, hencodes, hvisible⟩
      by_cases hcontrol : IsControl b
      · rcases ktrans_control b hcontrol with ⟨hquoted, htrans⟩
        have hmore := @Encodes.quoted kEscape (b ||| 0x40#8) file chars hencodes
        rw [htrans] at hmore
        refine ⟨_, hmore, ?_⟩
        intro c hc
        rcases List.mem_cons.mp hc with hfirst | hrest
        · rw [hfirst]
          exact hescape
        · rcases List.mem_cons.mp hrest with hsecond | hlater
          · rw [hsecond]
            exact hquoted
          · exact hvisible c hlater
      · by_cases hquote : b = kEscape
        · have hsame : ktrans kEscape = kEscape := by decide
          have hmore := @Encodes.quoted kEscape kEscape file chars hencodes
          rw [hsame] at hmore
          rw [hquote]
          refine ⟨_, hmore, ?_⟩
          intro c hc
          rcases List.mem_cons.mp hc with hfirst | hrest
          · rw [hfirst]
            exact hescape
          · rcases List.mem_cons.mp hrest with hsecond | hlater
            · rw [hsecond]
              exact hescape
            · exact hvisible c hlater
        · refine ⟨_, Encodes.plain hquote hencodes, ?_⟩
          intro c hc
          rcases List.mem_cons.mp hc with hfirst | hrest
          · rw [hfirst]
            exact hcontrol
          · exact hvisible c hrest

/-- There is a session for each file, here with one character in a packet. -/
theorem session_exists (file : List Byte) : exists x : Session, x.file = file := by
  rcases encodes_exists file with ⟨chars, hencodes, hvisible⟩
  have hstored : (chars.map (fun c => Packet.mk dataType [c] false)).flatMap Packet.stored =
      chars := by
    rw [List.flatMap_map]
    exact List.flatMap_singleton' chars
  have hplain : forall p : Packet, ¬ IsControl p.kind -> p.data = [] -> p.Formed := by
    intro p hkind hdata
    refine ⟨hkind, fun c hc => ?_, Or.inl ?_⟩
    · rw [hdata] at hc
      cases hc
    · rw [hdata]
      decide
  have hformed : forall p, p ∈ Packet.mk sendType [] false ::
      chars.map (fun c => Packet.mk dataType [c] false) ++ [Packet.mk breakType [] false] ->
        p.Formed := by
    intro p hp
    rcases List.mem_append.mp hp with hfront | hlast
    · rcases List.mem_cons.mp hfront with hsend | hmiddle
      · rw [hsend]
        exact hplain _ (by decide) rfl
      · rcases List.mem_map.mp hmiddle with ⟨c, hc, hpacket⟩
        rw [← hpacket]
        have hkind : ¬ IsControl dataType := by decide
        refine ⟨hkind, fun b hb => ?_, Or.inl (Nat.le_add_left 4 90)⟩
        rw [List.mem_singleton.mp hb]
        exact hvisible c hc
    · rw [List.mem_singleton.mp hlast]
      exact hplain _ (by decide) rfl
  have hkinds : forall p, p ∈ chars.map (fun c => Packet.mk dataType [c] false) ->
      p.kind ≠ sendType ∧ p.kind ≠ breakType := by
    intro p hp
    rcases List.mem_map.mp hp with ⟨c, _, hpacket⟩
    have hdata : dataType ≠ sendType ∧ dataType ≠ breakType := by decide
    rw [← hpacket]
    exact hdata
  exact ⟨{
    file := file
    send := Packet.mk sendType [] false
    middle := chars.map (fun c => Packet.mk dataType [c] false)
    last := Packet.mk breakType [] false
    sendKind := rfl
    middleKind := hkinds
    lastKind := rfl
    formed := hformed
    encodes := by
      rw [hstored]
      exact hencodes }, rfl⟩

end Load
end Bab750
