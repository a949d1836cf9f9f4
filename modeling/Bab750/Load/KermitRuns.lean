import Bab750.Load.KermitIntegrity

/-!
# Runs of a Kermit transfer

What holds between `k_recv`, the sender and the line as long as the sequence numbers arrive.
-/

namespace Bab750
namespace Load

open Foundation

variable {x : Session} {t u : Transfer} {k : KRecv}

/-!
# The invariant
-/

/-- `k_recv` waits for a packet: one that it has not begun yet, or one that it has to take back
when it comes again. -/
structure Between (x : Session) (index : Nat) (k : KRecv) : Prop where
  inside : index < x.packets.length
  quote : 0 < index -> k.hisQuote = x.quote
  parms : k.sendParms = []
  ready : (k.lastN ≠ sequence index ∧ Stored x.quote (x.before index) k.data) ∨
    (k.lastN = sequence index ∧ Saved x.quote (x.before index) k.data)

/-- `k_recv` has accepted the packet of the sender, and waits for the next one. -/
structure Accepted (x : Session) (index : Nat) (k : KRecv) : Prop where
  inside : index + 1 < x.packets.length
  quote : k.hisQuote = x.quote
  last : k.lastN = sequence index
  stored : Stored x.quote (x.before (index + 1)) k.data

/-- The number of a packet that `k_recv` is in. -/
def Inside (x : Session) (index : Nat) (k : KRecv) : Prop :=
  k.place.isInside = true ∧ (0 < index -> k.hisQuote = x.quote) ∧
    Begun x.quote (x.before index) (sequence index) k

inductive TransferInv (x : Session) (t : Transfer) : Prop where
  | between (hplace : t.recv.place = Place.start) (hbetween : Between x t.index t.recv)
      (hanswered : t.Answered -> Accepted x t.index t.recv)
  | opened (hopened : Opened t.recv) (hbetween : Between x t.index t.recv)
      (hheard : t.heard = []) (hnone : ¬ t.Answered)
  | numbered (k : KRecv) (hopened : Opened k) (hbetween : Between x t.index k)
      (c : Byte) (hc : ¬ IsControl c) (hheard : t.heard = [c]) (hrecv : (hear k c).1 = t.recv)
      (hnone : ¬ t.Answered)
  | inside (k : KRecv) (hopened : Opened k) (hbetween : Between x t.index k)
      (hfeed : feed k t.heard = t.recv) (hinside : Inside x t.index t.recv)
      (hnone : ¬ t.Answered)
  | returned (count : Nat) (hplace : t.recv.place = Place.returned count)
      (hreceived : Received x count t.recv.data.memory)
  | interrupted (hplace : t.recv.place = Place.interrupted)

theorem transferStart_inv (memory : Nat -> Byte) : TransferInv x (transferStart memory) := by
  apply TransferInv.between
  · rfl
  · refine ⟨?_, fun h => absurd h (Nat.lt_irrefl 0), rfl, Or.inl ⟨?_, rfl, rfl, ?_⟩⟩
    · rw [Session.packets_length]
      exact Nat.succ_pos _
    · show (-1 : Int) ≠ (0 : Nat)
      decide
    · exact fun i hi => absurd hi (Nat.not_lt_zero i)
  · rintro ⟨reply, hreply, _⟩
    cases hreply

/-!
# Steps of the sender and of the line
-/

theorem not_answered_of_nil (h : t.replies = []) : ¬ t.Answered := by
  rintro ⟨reply, hreply, _⟩
  rw [h] at hreply
  cases hreply

theorem TransferInv.quiet (h : TransferInv x t) (hrecv : u.recv = t.recv)
    (hindex : u.index = t.index) (hheard : u.heard = t.heard)
    (hanswered : u.Answered -> t.Answered) : TransferInv x u := by
  cases h with
  | between hplace hbetween haccepted =>
      rw [← hrecv] at hplace hbetween haccepted
      rw [← hindex] at hbetween haccepted
      exact TransferInv.between hplace hbetween (fun h => haccepted (hanswered h))
  | opened hopened hbetween hempty hnone =>
      rw [← hrecv] at hopened hbetween
      rw [← hindex] at hbetween
      rw [← hheard] at hempty
      exact TransferInv.opened hopened hbetween hempty (fun h => hnone (hanswered h))
  | numbered k hopened hbetween c hc hone hnext hnone =>
      rw [← hrecv] at hnext
      rw [← hindex] at hbetween
      rw [← hheard] at hone
      exact TransferInv.numbered k hopened hbetween c hc hone hnext
        (fun h => hnone (hanswered h))
  | inside k hopened hbetween hfeed hinside hnone =>
      rw [← hrecv, ← hheard] at hfeed
      rw [← hindex] at hbetween
      rw [← hrecv, ← hindex] at hinside
      exact TransferInv.inside k hopened hbetween hfeed hinside
        (fun h => hnone (hanswered h))
  | returned count hplace hreceived =>
      rw [← hrecv] at hplace hreceived
      exact TransferInv.returned count hplace hreceived
  | interrupted hplace =>
      rw [← hrecv] at hplace
      exact TransferInv.interrupted hplace

theorem acknowledged_inv (h : TransferInv x t) (hanswered : t.Answered) :
    TransferInv x (transferNext x t TransferEvent.acknowledged) := by
  cases h with
  | between hplace hbetween haccepted =>
      rcases haccepted hanswered with ⟨hinside, hquote, hlast, hstored⟩
      refine TransferInv.between hplace ⟨hinside, fun _ => hquote, hbetween.parms, ?_⟩ ?_
      · left
        constructor
        · show t.recv.lastN ≠ sequence (t.index + 1)
          rw [hlast]
          exact fun h => sequence_succ_ne t.index (Int.ofNat.inj h)
        · exact hstored
      · exact fun h => absurd h (not_answered_of_nil rfl)
  | opened _ _ _ hnone =>
      exact absurd hanswered hnone
  | numbered _ _ _ _ _ _ _ hnone =>
      exact absurd hanswered hnone
  | inside _ _ _ _ _ hnone =>
      exact absurd hanswered hnone
  | returned count hplace hreceived =>
      exact TransferInv.returned count hplace hreceived
  | interrupted hplace =>
      exact TransferInv.interrupted hplace

/-!
# Steps of `k_recv`
-/

theorem hearing_answered_none {c : Byte} (hnone : ¬ t.Answered)
    (hreply : (hear t.recv c).2 = none) : ¬ (t.hearing c).Answered := by
  rintro ⟨reply, hmem, hack⟩
  apply hnone
  refine ⟨reply, ?_, hack⟩
  unfold Transfer.hearing at hmem
  rw [hreply, Option.toList_none, List.append_nil] at hmem
  exact hmem

theorem hearing_answered_nack {c : Byte} {n : Nat} (hnone : ¬ t.Answered)
    (hreply : (hear t.recv c).2 = some (Reply.nack n)) : ¬ (t.hearing c).Answered := by
  rintro ⟨reply, hmem, hack⟩
  unfold Transfer.hearing at hmem
  rw [hreply, Option.toList_some, List.mem_append, List.mem_singleton] at hmem
  cases hmem with
  | inl hbefore =>
      exact hnone ⟨reply, hbefore, hack⟩
  | inr hnack =>
      rw [hnack] at hack
      cases hack

theorem start_inv {c : Byte} (hplace : t.recv.place = Place.start)
    (hbetween : Between x t.index t.recv) (haccepted : t.Answered -> Accepted x t.index t.recv)
    (hfirst : c = startChar -> ¬ t.Answered) : TransferInv x (t.hearing c) := by
  by_cases hstart : c = startChar
  · have hhear : hear t.recv c =
        ({ t.recv with place := Place.length, sum := 0 }, none) := by
      unfold hear
      rw [hplace]
      exact if_pos hstart
    have hrecv : (t.hearing c).recv = { t.recv with place := Place.length, sum := 0 } :=
      congrArg Prod.fst hhear
    apply TransferInv.opened
    · rw [hrecv]
      exact ⟨rfl, rfl, hbetween.parms⟩
    · rw [hrecv]
      exact ⟨hbetween.inside, hbetween.quote, hbetween.parms, hbetween.ready⟩
    · exact if_pos hplace
    · exact hearing_answered_none (hfirst hstart) (congrArg Prod.snd hhear)
  · by_cases hetx : c = etxChar
    · have hhear : hear t.recv c = ({ t.recv with place := Place.interrupted }, none) := by
        unfold hear
        rw [hplace]
        dsimp only
        rw [if_neg hstart, if_pos hetx]
      apply TransferInv.interrupted
      exact congrArg (fun result => result.1.place) hhear
    · have hhear : hear t.recv c = (t.recv, none) := by
        unfold hear
        rw [hplace]
        dsimp only
        rw [if_neg hstart, if_neg hetx]
      have hrecv : (t.hearing c).recv = t.recv := congrArg Prod.fst hhear
      apply TransferInv.between
      · rw [hrecv]
        exact hplace
      · rw [hrecv]
        exact hbetween
      · intro hanswered
        rw [hrecv]
        apply haccepted
        apply Classical.byContradiction
        intro hnone
        exact hearing_answered_none hnone (congrArg Prod.snd hhear) hanswered

theorem opened_inv {c : Byte} (hopened : Opened t.recv) (hbetween : Between x t.index t.recv)
    (hheard : t.heard = []) (hnone : ¬ t.Answered) (hc : ¬ IsControl c) :
    TransferInv x (t.hearing c) := by
  have hhear := hear_length hopened.place hc
  have hplace : t.recv.place ≠ Place.start := by
    rw [hopened.place]
    decide
  refine TransferInv.numbered t.recv hopened hbetween c hc ?_ rfl
    (hearing_answered_none hnone (congrArg Prod.snd hhear))
  unfold Transfer.hearing
  dsimp only
  rw [if_neg hplace, hheard]
  rfl

theorem checkedData_saved (hbetween : Between x t.index k) :
    Stored x.quote (x.before t.index) (checkedData k (sequence t.index)) ∧
      Saved x.quote (x.before t.index) (checkedData k (sequence t.index)) := by
  unfold checkedData
  rcases hbetween.ready with ⟨hnew, hstored⟩ | ⟨hagain, hsaved⟩
  · rw [if_neg (Ne.symm hnew)]
    exact ⟨⟨hstored.escape, hstored.addr, hstored.memory⟩, hstored.kDataSave⟩
  · rw [if_pos hagain.symm]
    exact ⟨hsaved.restored, hsaved.kDataRestore⟩

theorem numbered_inv {b c : Byte} (hopened : Opened k) (hbetween : Between x t.index k)
    (hb : ¬ IsControl b) (hheard : t.heard = [b]) (hrecv : (hear k b).1 = t.recv)
    (hnone : ¬ t.Answered) (hc : c = tochar (sequence t.index)) :
    TransferInv x (t.hearing c) := by
  have hlength := congrArg Prod.fst (hear_length hopened.place hb)
  rw [hrecv] at hlength
  have hplace : t.recv.place = Place.sequence := by
    rw [hlength]
  have hvisible : ¬ IsControl c := by
    rw [hc]
    exact tochar_visible (sequence_lt _)
  have hnumber : untochar c = sequence t.index := by
    rw [hc]
    exact untochar_tochar (sequence_lt _)
  have hhear := hear_sequence hplace hvisible
  rw [checkSequence_update, hnumber] at hhear
  have hnext : (t.hearing c).recv = (hear t.recv c).1 := rfl
  refine TransferInv.inside k hopened hbetween ?_ ?_
    (hearing_answered_none hnone (congrArg Prod.snd hhear))
  · have hmore : (t.hearing c).heard = [b, c] := by
      unfold Transfer.hearing
      dsimp only
      rw [if_neg (by rw [hplace]; decide), hheard]
      rfl
    rw [hmore, hnext, ← hrecv]
    rfl
  · unfold Inside
    rw [hnext, hhear, hlength]
    exact ⟨rfl, hbetween.quote, rfl, rfl, (checkedData_saved hbetween).right⟩

/-!
# The end of a packet
-/

theorem hear_finish (hplace : k.place = Place.finish) :
    hear k endChar =
      if k.kState = sendType then handleSendPacket k
      else if k.kState = breakType then
        ({ k with place := Place.returned k.data.osDataAddr }, some (Reply.ack k.n []))
      else (k.again, some (Reply.ack k.n [])) := by
  unfold hear
  rw [hplace]
  exact if_neg (not_not.mpr rfl)

theorem received_of_stored {d : KData} (index : Nat)
    (hindex : index + 1 = x.packets.length)
    (hstored : Stored x.quote (x.before index) d) : Received x d.osDataAddr d.memory := by
  have hdecode : decode x.quote (x.before index) = (false, x.file) := by
    rw [Session.before_last hindex]
    exact decode_encodes x.encodes
  rcases hstored with ⟨_, haddr, hmemory⟩
  simp only [hdecode] at haddr hmemory
  exact ⟨haddr, hmemory⟩

theorem undamaged_stored {p : Packet} (hbetween : Between x t.index k)
    (hpacket : x.packets[t.index]? = some p)
    (hundamaged : Undamaged k p (sequence t.index) t.recv) :
    Stored x.quote (x.before (t.index + 1)) t.recv.data := by
  have hbase := (checkedData_saved hbetween).left
  rw [Session.before_succ hpacket, hundamaged.data]
  by_cases hfirst : 0 < t.index
  · rw [hbetween.quote hfirst]
    exact hbase.kDataChars p.stored
  · have hempty : p.stored = [] := by
      rcases Session.packet_cases hpacket with ⟨_, hsend⟩ | ⟨hlater, _⟩ | ⟨hlater, _⟩
      · rw [hsend]
        exact Session.send_stored
      · exact absurd hlater hfirst
      · exact absurd hlater hfirst
    rw [hempty, List.append_nil]
    exact hbase

theorem accepted_inv (hopened : Opened k) (hbetween : Between x t.index k)
    (hfeed : feed k t.heard = t.recv) (hinside : Inside x t.index t.recv)
    (hplace : t.recv.place = Place.finish)
    (hvisible : startChar :: t.heard ++ [endChar] = x.transmission t.index) :
    TransferInv x (t.hearing endChar) := by
  obtain ⟨p, hpacket⟩ : exists p, x.packets[t.index]? = some p :=
    ⟨_, List.getElem?_eq_getElem hbetween.inside⟩
  have hchars : t.heard = p.characters (sequence t.index) := by
    unfold Session.transmission at hvisible
    rw [hpacket] at hvisible
    exact List.append_cancel_right (List.cons.inj hvisible).right
  have hformed : p.Formed := x.formed p (List.mem_of_getElem? hpacket)
  have hundamaged := feed_packet hopened hformed (sequence_lt t.index)
  rw [← hchars, hfeed] at hundamaged
  have hstored := undamaged_stored hbetween hpacket hundamaged
  have hhear := hear_finish hplace
  rw [hundamaged.kState] at hhear
  have hnext : (t.hearing endChar).recv = (hear t.recv endChar).1 := rfl
  rcases hinside with ⟨_, hquote, hbegun⟩
  rcases Session.packet_cases hpacket with
    ⟨hzero, hsend⟩ | ⟨hlater, hmore, hmiddle⟩ | ⟨hlater, hend, hlast⟩
  · rw [if_pos (by rw [hsend]; exact x.sendKind)] at hhear
    have hmore : t.index + 1 < x.packets.length := by
      rw [Session.packets_length]
      omega
    have hparms : parmQuote t.recv.sendParms = x.quote := by
      rw [hundamaged.parms (by rw [hsend]; exact x.sendKind), hsend]
      rfl
    rw [hhear] at hnext
    apply TransferInv.between
    · rw [hnext]
      rfl
    · rw [hnext]
      exact ⟨hbetween.inside, fun h => absurd hzero (Nat.ne_of_gt h), rfl,
        Or.inr ⟨hbegun.last, hbegun.saved⟩⟩
    · intro _
      rw [hnext]
      exact ⟨hmore, hparms, hbegun.last, hstored⟩
  · rcases x.middleKind p hmiddle with ⟨hsend, hbreak⟩
    rw [if_neg hsend, if_neg hbreak] at hhear
    rw [hhear] at hnext
    apply TransferInv.between
    · rw [hnext]
      rfl
    · rw [hnext]
      exact ⟨hbetween.inside, hquote, rfl, Or.inr ⟨hbegun.last, hbegun.saved⟩⟩
    · intro _
      rw [hnext]
      exact ⟨hmore, hquote hlater, hbegun.last, hstored⟩
  · have hkind : p.kind = breakType := by
      rw [hlast]
      exact x.lastKind
    have hsend : p.kind ≠ sendType := by
      rw [hkind]
      decide
    have hempty : p.stored = [] := by
      unfold Packet.stored
      rw [hkind]
      rfl
    rw [if_neg hsend, if_pos hkind] at hhear
    rw [hhear] at hnext
    rw [Session.before_succ hpacket, hempty, List.append_nil] at hstored
    apply TransferInv.returned t.recv.data.osDataAddr
    · rw [hnext]
    · rw [hnext]
      exact received_of_stored t.index hend hstored

theorem inside_inv {c : Byte} (hopened : Opened k) (hbetween : Between x t.index k)
    (hfeed : feed k t.heard = t.recv) (hinside : Inside x t.index t.recv)
    (hnone : ¬ t.Answered) (hvisible : Visible x t (TransferEvent.pass c)) :
    TransferInv x (t.hearing c) := by
  rcases hinside with ⟨hplace, hquote, hbegun⟩
  have hnext : (t.hearing c).recv = (hear t.recv c).1 := rfl
  rcases begun_hear hplace hbegun c with herror | ⟨u, hhear, hgoes⟩ | ⟨hfinish, hend⟩
  · rw [herror] at hnext
    apply TransferInv.between
    · rw [hnext]
      rfl
    · rw [hnext]
      exact ⟨hbetween.inside, hquote, rfl, Or.inr ⟨hbegun.last, hbegun.saved.kDataRestore⟩⟩
    · exact fun h =>
        absurd h (hearing_answered_nack hnone (congrArg Prod.snd herror))
  · have hstart : t.recv.place ≠ Place.start := by
      intro hstart
      rw [hstart] at hplace
      cases hplace
    rw [hhear] at hnext
    refine TransferInv.inside k hopened hbetween ?_ ?_
      (hearing_answered_none hnone (congrArg Prod.snd hhear))
    · have hmore : (t.hearing c).heard = t.heard ++ [c] := if_neg hstart
      rw [hmore, feed_append, hfeed]
      rfl
    · rw [hnext]
      exact ⟨hgoes.inside, fun h => hgoes.same.trans (hquote h), hgoes.begun⟩
  · rw [hend] at hvisible ⊢
    apply accepted_inv hopened hbetween hfeed ⟨hplace, hquote, hbegun⟩ hfinish
    apply hvisible
    unfold accepts
    rw [hear_finish hfinish]
    split
    · rfl
    · split
      · rfl
      · rfl

theorem orderlyStep_inv {event : TransferEvent} (h : TransferInv x t)
    (hstep : OrderlyStep x t event u) : TransferInv x u := by
  rcases hstep with ⟨horderly, henabled, hvisible, hu⟩
  rw [hu]
  cases event with
  | transmit =>
      exact h.quiet rfl rfl rfl (fun hanswered => absurd hanswered (not_answered_of_nil rfl))
  | pass c =>
      rcases horderly with ⟨hstart, hlength, hsequence⟩
      change TransferInv x (t.hearing c)
      cases h with
      | between hplace hbetween haccepted =>
          exact start_inv hplace hbetween haccepted (hstart hplace)
      | opened hopened hbetween hheard hnone =>
          exact opened_inv hopened hbetween hheard hnone (hlength hopened.place)
      | numbered k hopened hbetween b hb hheard hrecv hnone =>
          have hplace : t.recv.place = Place.sequence := by
            rw [← hrecv, hear_length hopened.place hb]
          exact numbered_inv hopened hbetween hb hheard hrecv hnone (hsequence hplace)
      | inside k hopened hbetween hfeed hinside hnone =>
          exact inside_inv hopened hbetween hfeed hinside hnone hvisible
      | returned count hplace hreceived =>
          have hhear : (t.hearing c).recv = t.recv := by
            unfold Transfer.hearing hear
            dsimp only
            rw [hplace]
          apply TransferInv.returned count
          · rw [hhear]
            exact hplace
          · rw [hhear]
            exact hreceived
      | interrupted hplace =>
          have hhear : (t.hearing c).recv = t.recv := by
            unfold Transfer.hearing hear
            dsimp only
            rw [hplace]
          apply TransferInv.interrupted
          rw [hhear]
          exact hplace
  | drop =>
      exact h.quiet rfl rfl rfl (fun hanswered => hanswered)
  | acknowledged =>
      exact acknowledged_inv h henabled.right

/-- What `k_recv` returns behind the break packet is the length of the file, and the memory
holds its bytes. -/
theorem kRecv_received (x : Session) (memory : Nat -> Byte) {events : List TransferEvent}
    {t : Transfer} (hrun : Run (OrderlyStep x) (transferStart memory) events t) {count : Nat}
    (hreturned : t.recv.place = Place.returned count) : Received x count t.recv.data.memory := by
  have hinv : TransferInv x t :=
    Run.invariant (TransferInv x) (fun _ _ _ h hstep => orderlyStep_inv h hstep) hrun
      (transferStart_inv memory)
  cases hinv with
  | between hplace _ _ =>
      rw [hplace] at hreturned
      cases hreturned
  | opened hopened _ _ _ =>
      rw [hopened.place] at hreturned
      cases hreturned
  | numbered k hopened _ b hb _ hrecv _ =>
      rw [← hrecv, hear_length hopened.place hb] at hreturned
      cases hreturned
  | inside k _ _ _ hinside _ =>
      rcases hinside with ⟨hplace, _⟩
      rw [hreturned] at hplace
      cases hplace
  | returned other hplace hreceived =>
      rw [hplace] at hreturned
      rw [← Place.returned.inj hreturned]
      exact hreceived
  | interrupted hplace =>
      rw [hplace] at hreturned
      cases hreturned

/-- A control character in place of the length stands in front of the checkpoint: all is taken
back that has come since the last one, and this is the packet that was accepted last. -/
theorem lengthless_taken_back {chars : List Byte} {c : Byte} (hplace : k.place = Place.start)
    (hsaved : Saved x.quote chars k.data) (hc : IsControl c) :
    Stored x.quote chars (feed k [startChar, c]).data ∧
      (feed k [startChar, c]).lastN = k.lastN := by
  have hstart : (hear k startChar).1 = { k with place := Place.length, sum := 0 } := by
    unfold hear
    rw [hplace]
    rfl
  have hback : feed k [startChar, c] =
      (packetError { k with place := Place.length, sum := 0 }).1 := by
    show (hear (hear k startChar).1 c).1 = _
    rw [hstart]
    unfold hear
    dsimp only
    rw [if_pos hc]
  rw [hback]
  exact ⟨hsaved.restored, rfl⟩

/-!
# A short session
-/

def shortMiddle : List Packet :=
  [⟨0x46#8, [0x78#8], false⟩, ⟨dataType, [0x61#8], false⟩, ⟨dataType, [0x62#8], false⟩,
    ⟨0x5a#8, [], false⟩]

def shortSession : Session where
  file := [0x61#8, 0x62#8]
  send := ⟨sendType, [], false⟩
  middle := shortMiddle
  last := ⟨breakType, [], false⟩
  sendKind := rfl
  middleKind := by decide
  lastKind := rfl
  formed := by
    intro p hp
    have hall : forall p : Packet,
        p ∈ ⟨sendType, [], false⟩ :: shortMiddle ++ [⟨breakType, [], false⟩] ->
          ¬ IsControl p.kind ∧ (forall c, c ∈ p.data -> ¬ IsControl c) ∧
            p.data.length + 3 <= 94 := by decide
    rcases hall p hp with ⟨hkind, hdata, hsize⟩
    exact ⟨hkind, hdata, Or.inl hsize⟩
  encodes := Encodes.plain (by decide) (Encodes.plain (by decide) Encodes.nil)

def changes (index place : Nat) (c : Byte) : List TransferEvent :=
  TransferEvent.transmit ::
    ((shortSession.transmission index).set place c).map TransferEvent.pass

def sends (index : Nat) : List TransferEvent :=
  TransferEvent.transmit :: (shortSession.transmission index).map TransferEvent.pass

def arrives (index : Nat) : List TransferEvent := sends index ++ [TransferEvent.acknowledged]

/-- A changed character of the data, and a lost acknowledgement. -/
def noisyEvents : List TransferEvent :=
  arrives 0 ++ arrives 1 ++ arrives 2 ++ changes 3 4 0x63#8 ++ sends 3 ++ arrives 3 ++
    arrives 4 ++ sends 5

theorem kRecv_received_noisy :
    Received shortSession 2
      (noisyEvents.foldl (transferNext shortSession)
        (transferStart (fun _ => 0xff#8))).recv.data.memory := by
  have hallowed : Allowed
      (fun t event => Orderly t event ∧ TransferEnabled shortSession t event ∧
        Visible shortSession t event)
      (transferNext shortSession) (transferStart (fun _ => 0xff#8)) noisyEvents := by decide
  have hrun : Run (OrderlyStep shortSession) (transferStart (fun _ => 0xff#8)) noisyEvents
      (noisyEvents.foldl (transferNext shortSession) (transferStart (fun _ => 0xff#8))) :=
    Run.of_allowed (fun t event h => ⟨h.left, h.right.left, h.right.right, rfl⟩) hallowed
  exact kRecv_received shortSession (fun _ => 0xff#8) hrun (by decide)

/-- The sequence number of the second packet with data is changed to that of the first. -/
def misnumberedEvents : List TransferEvent :=
  arrives 0 ++ arrives 1 ++ arrives 2 ++ changes 3 2 (tochar 2) ++ arrives 3 ++ arrives 4 ++
    sends 5

/-- A packet that was acknowledged is taken back. -/
theorem kRecv_misnumbered :
    ¬ forall (x : Session) (memory : Nat -> Byte) (events : List TransferEvent) (t : Transfer)
      (count : Nat), Run (VisibleStep x) (transferStart memory) events t ->
        t.recv.place = Place.returned count -> Received x count t.recv.data.memory := by
  intro hclaim
  have hallowed : Allowed
      (fun t event => TransferEnabled shortSession t event ∧ Visible shortSession t event)
      (transferNext shortSession) (transferStart (fun _ => 0xff#8)) misnumberedEvents := by
    decide
  have hrun : Run (VisibleStep shortSession) (transferStart (fun _ => 0xff#8)) misnumberedEvents
      (misnumberedEvents.foldl (transferNext shortSession)
        (transferStart (fun _ => 0xff#8))) :=
    Run.of_allowed (fun t event h => ⟨h.left, h.right, rfl⟩) hallowed
  have hreceived := hclaim shortSession (fun _ => 0xff#8) misnumberedEvents _ 1 hrun (by decide)
  exact absurd hreceived.left (by decide)

/-- The length of the second packet with data is changed to a control character: the first one
is taken back, and one byte is all that is left of the file. -/
example : ((arrives 0 ++ arrives 1 ++ arrives 2 ++ changes 3 1 0x00#8 ++ sends 3 ++
    [TransferEvent.acknowledged] ++ arrives 4 ++ sends 5).foldl (transferNext shortSession)
      (transferStart (fun _ => 0xff#8))).recv.place = Place.returned 1 := by
  decide

end Load
end Bab750
