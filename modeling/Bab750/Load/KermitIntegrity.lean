import Bab750.Load.KermitTransfer

/-!
# What a Kermit transfer stores

A packet that arrives as it was sent is stored once, and what was stored of other packets is
taken back.
-/

namespace Bab750
namespace Load

open Foundation

/-!
# Characters
-/

theorem isControl_iff (c : Byte) : IsControl c ↔ c.toNat < 32 := by
  revert c
  decide

theorem tochar_toNat {x : Nat} (h : x < 224) : (tochar x).toNat = x + 32 := by
  unfold tochar
  rw [BitVec.toNat_ofNat]
  exact Nat.mod_eq_of_lt (by omega)

theorem untochar_tochar {x : Nat} (h : x < 224) : untochar (tochar x) = x := by
  unfold untochar
  rw [BitVec.toNat_sub, tochar_toNat h, BitVec.toNat_ofNat]
  omega

theorem tochar_visible {x : Nat} (h : x < 224) : ¬ IsControl (tochar x) := by
  rw [isControl_iff, tochar_toNat h]
  omega

theorem blockCheck_visible (sum : Nat) : ¬ IsControl (blockCheck sum) := by
  have hmask : (sum + ((sum >>> 6) &&& 0x03)) &&& 0x3f <= 0x3f := Nat.and_le_right
  exact tochar_visible (by omega)

theorem sequence_lt (index : Nat) : sequence index < 224 :=
  Nat.lt_of_lt_of_le (Nat.mod_lt _ (by decide)) (by decide)

theorem sequence_succ_ne (index : Nat) : sequence index ≠ sequence (index + 1) := by
  unfold sequence
  omega

/-!
# A packet as it was sent
-/

variable {k : KRecv} {c : Byte}

def feed (k : KRecv) (chars : List Byte) : KRecv := chars.foldl (fun k c => (hear k c).1) k

theorem feed_append (k : KRecv) (chars more : List Byte) :
    feed k (chars ++ more) = feed (feed k chars) more :=
  List.foldl_append

theorem hear_length (hplace : k.place = Place.length) (hc : ¬ IsControl c) :
    hear k c = ({ k with
      place := Place.sequence, sum := k.sum + c.toNat, length := untochar c }, none) := by
  unfold hear
  rw [hplace]
  exact if_neg hc

theorem hear_sequence (hplace : k.place = Place.sequence) (hc : ¬ IsControl c) :
    hear k c = (checkSequence
      { k with
        place := Place.type
        sum := k.sum + c.toNat
        n := untochar c
        length := k.length - 1 }, none) := by
  unfold hear
  rw [hplace]
  exact if_neg hc

theorem hear_type (hplace : k.place = Place.type) (hc : ¬ IsControl c) :
    hear k c = ({ k with
      place := if k.length - 1 = -2 then Place.lenHi else restPlace (k.length - 1)
      sum := k.sum + c.toNat
      kState := c
      length := k.length - 1 }, none) := by
  unfold hear
  rw [hplace]
  exact if_neg hc

theorem hear_lenHi (hplace : k.place = Place.lenHi) (hc : ¬ IsControl c) :
    hear k c = ({ k with
      place := Place.lenLo, sum := k.sum + c.toNat, lenHi := untochar c }, none) := by
  unfold hear
  rw [hplace]
  exact if_neg hc

theorem hear_lenLo (hplace : k.place = Place.lenLo) (hc : ¬ IsControl c) :
    hear k c = ({ k with
      place := Place.headCheck
      sum := k.sum + c.toNat
      length := k.lenHi * 95 + untochar c }, none) := by
  unfold hear
  rw [hplace]
  exact if_neg hc

theorem hear_headCheck (hplace : k.place = Place.headCheck) :
    hear k (blockCheck k.sum) = ({ k with
      place := restPlace k.length
      sum := k.sum + (blockCheck k.sum).toNat }, none) := by
  unfold hear
  rw [hplace]
  dsimp only
  rw [if_neg (blockCheck_visible k.sum), if_neg (not_not.mpr rfl)]

theorem hear_data (hplace : k.place = Place.data) (hc : ¬ IsControl c) :
    hear k c = (takeChar
      { k with
        place := restPlace (k.length - 1)
        sum := k.sum + c.toNat
        length := k.length - 1 } c, none) := by
  unfold hear
  rw [hplace]
  exact if_neg hc

theorem hear_check (hplace : k.place = Place.check) :
    hear k (blockCheck k.sum) = ({ k with place := Place.finish }, none) := by
  unfold hear
  rw [hplace]
  dsimp only
  rw [if_neg (blockCheck_visible k.sum), if_neg (not_not.mpr rfl)]

theorem takeChar_update (k : KRecv) (place : Place) (sum : Nat) (length : Int) (c : Byte) :
    takeChar { k with place := place, sum := sum, length := length } c =
      { takeChar k c with place := place, sum := sum, length := length } := by
  unfold takeChar
  dsimp only
  split
  · rfl
  · split
    · rfl
    · rfl

theorem sumOf_cons (c : Byte) (chars : List Byte) : sumOf (c :: chars) = c.toNat + sumOf chars :=
  rfl

theorem sumOf_append (chars more : List Byte) :
    sumOf (chars ++ more) = sumOf chars + sumOf more := by
  unfold sumOf
  rw [List.map_append, List.sum_append]

theorem feed_data (data : List Byte) (hplace : k.place = restPlace k.length)
    (hlength : k.length = data.length + 1) (hdata : forall c, c ∈ data -> ¬ IsControl c) :
    feed k data = { data.foldl takeChar k with
      place := Place.check, sum := k.sum + sumOf data, length := 1 } := by
  induction data generalizing k with
  | nil =>
      have hone : k.length = 1 := hlength
      have hcheck : k.place = Place.check := by
        rw [hplace, hone]
        rfl
      rcases k with ⟨place, kState, kStateSaved, sum, length, n, lastN, lenHi, parms, quote, d⟩
      cases hone
      cases hcheck
      rfl
  | cons c data ih =>
      have hlong : k.length = (data.length : Int) + 2 := by
        rw [hlength, List.length_cons]
        omega
      have hhere : k.place = Place.data := by
        rw [hplace, restPlace, if_pos (by omega)]
      have hrest : forall c, c ∈ data -> ¬ IsControl c :=
        fun c hc => hdata c (List.mem_cons_of_mem _ hc)
      have hhear := hear_data hhere (hdata c List.mem_cons_self)
      rw [takeChar_update] at hhear
      have hnext := @ih { takeChar k c with
        place := restPlace (k.length - 1)
        sum := k.sum + c.toNat
        length := k.length - 1 } rfl (by dsimp only; omega) hrest
      have hfold : forall (more : List Byte) (u : KRecv) (place : Place) (sum : Nat)
          (length : Int),
          more.foldl takeChar { u with place := place, sum := sum, length := length } =
            { more.foldl takeChar u with place := place, sum := sum, length := length } := by
        intro more
        induction more with
        | nil =>
            intro u place sum length
            rfl
        | cons b more ih =>
            intro u place sum length
            rw [List.foldl_cons, takeChar_update, ih]
            rfl
      rw [hfold] at hnext
      unfold feed at hnext ⊢
      rw [List.foldl_cons, hhear]
      dsimp only at hnext ⊢
      rw [hnext, sumOf_cons, Nat.add_assoc]
      rfl

/-- Where the data of a packet goes: the checkpoint of a packet that is sent again, or behind
what is there. -/
def checkedData (k : KRecv) (seq : Nat) : KData :=
  if (seq : Int) = k.lastN then kDataRestore k.data else kDataSave k.data

structure Headed (start : KRecv) (p : Packet) (seq : Nat) (k : KRecv) : Prop where
  place : k.place = restPlace k.length
  length : k.length = p.data.length + 1
  sum : k.sum = sumOf (p.header seq)
  kState : k.kState = p.kind
  number : k.n = seq
  last : k.lastN = seq
  quote : k.hisQuote = start.hisQuote
  parms : k.sendParms = start.sendParms
  data : k.data = checkedData start seq

/-- `k_recv` has read the start character of a packet. -/
structure Opened (k : KRecv) : Prop where
  place : k.place = Place.length
  sum : k.sum = 0
  parms : k.sendParms = []

theorem checkSequence_update (k : KRecv) :
    checkSequence k = { k with
      kState := (checkSequence k).kState
      kStateSaved := (checkSequence k).kStateSaved
      lastN := k.n
      data := checkedData k k.n } := by
  unfold checkSequence checkedData
  by_cases hsame : (k.n : Int) = k.lastN
  · rw [if_pos hsame, if_pos hsame, hsame]
  · rw [if_neg hsame, if_neg hsame]

theorem feed_start (hopened : Opened k) {length seq : Nat} {kind : Byte} (hlength : length < 224)
    (hseq : seq < 224) (hkind : ¬ IsControl kind) :
    exists u, feed k [tochar length, tochar seq, kind] = u ∧
      u.place = (if (length : Int) - 2 = -2 then Place.lenHi else restPlace (length - 2)) ∧
      u.length = (length : Int) - 2 ∧
      u.sum = sumOf [tochar length, tochar seq, kind] ∧
      u.kState = kind ∧ u.n = seq ∧ u.lastN = seq ∧ u.hisQuote = k.hisQuote ∧
      u.sendParms = k.sendParms ∧ u.data = checkedData k seq := by
  refine ⟨_, rfl, ?_⟩
  have htwo : (length : Int) - 1 - 1 = length - 2 := by omega
  unfold feed
  rw [List.foldl_cons, List.foldl_cons, List.foldl_cons, List.foldl_nil,
    hear_length hopened.place (tochar_visible hlength),
    hear_sequence rfl (tochar_visible hseq), checkSequence_update, hear_type rfl hkind,
    hopened.sum]
  dsimp only
  rw [untochar_tochar hlength, untochar_tochar hseq, htwo]
  refine ⟨rfl, rfl, ?_, rfl, rfl, rfl, rfl, rfl, rfl⟩
  simp [sumOf, Nat.add_assoc]

theorem feed_header (hopened : Opened k) {p : Packet} (hformed : p.Formed) {seq : Nat}
    (hseq : seq < 224) : Headed k p seq (feed k (p.header seq)) := by
  by_cases hextended : p.extended = true
  · have hlen : p.data.length + 1 < 95 * 95 := by
      cases hformed.size with
      | inl hshort =>
          omega
      | inr hlong =>
          exact hlong.right
    have hhi : (p.data.length + 1) / 95 < 224 := by omega
    have hlo : (p.data.length + 1) % 95 < 224 := by omega
    rcases feed_start hopened (show 0 < 224 by decide) hseq hformed.kind with
      ⟨u, hfeed, hplace, hlength, hsum, hkind, hn, hlast, hquote, hparms, hdata⟩
    have hhere : u.place = Place.lenHi := hplace
    have hsplit : [tochar 0, tochar seq, p.kind, tochar ((p.data.length + 1) / 95),
        tochar ((p.data.length + 1) % 95)] = [tochar 0, tochar seq, p.kind] ++
          [tochar ((p.data.length + 1) / 95), tochar ((p.data.length + 1) % 95)] := rfl
    have hsum5 : sumOf [tochar 0, tochar seq, p.kind, tochar ((p.data.length + 1) / 95),
        tochar ((p.data.length + 1) % 95)] =
          u.sum + (tochar ((p.data.length + 1) / 95)).toNat +
            (tochar ((p.data.length + 1) % 95)).toNat := by
      rw [hsplit, sumOf_append, hsum, Nat.add_assoc]
      rfl
    have hheader : p.header seq = [tochar 0, tochar seq, p.kind] ++
        ([tochar ((p.data.length + 1) / 95), tochar ((p.data.length + 1) % 95)] ++
          [blockCheck (u.sum + (tochar ((p.data.length + 1) / 95)).toNat +
            (tochar ((p.data.length + 1) % 95)).toNat)]) := by
      unfold Packet.header
      rw [if_pos hextended]
      dsimp only
      rw [hsum5, hsplit, List.append_assoc]
    rw [hheader, feed_append, hfeed]
    unfold feed
    rw [List.cons_append, List.cons_append, List.nil_append, List.foldl_cons, List.foldl_cons,
      List.foldl_cons, List.foldl_nil, hear_lenHi hhere (tochar_visible hhi),
      hear_lenLo rfl (tochar_visible hlo), hear_headCheck rfl]
    dsimp only
    rw [untochar_tochar hhi, untochar_tochar hlo]
    constructor
    · rfl
    · dsimp only
      omega
    · rw [hheader, sumOf_append, ← hsum]
      simp [sumOf, Nat.add_assoc]
    · exact hkind
    · exact hn
    · exact hlast
    · exact hquote
    · exact hparms
    · exact hdata
  · have hshort : p.data.length + 3 <= 94 := by
      cases hformed.size with
      | inl hshort =>
          exact hshort
      | inr hlong =>
          exact absurd hlong.left hextended
    rcases feed_start hopened (show p.data.length + 3 < 224 by omega) hseq hformed.kind with
      ⟨u, hfeed, hplace, hlength, hsum, hkind, hn, hlast, hquote, hparms, hdata⟩
    have hrest : ((p.data.length + 3 : Nat) : Int) - 2 = p.data.length + 1 := by omega
    rw [hrest] at hplace hlength
    rw [if_neg (by omega)] at hplace
    have hheader : p.header seq = [tochar (p.data.length + 3), tochar seq, p.kind] := by
      unfold Packet.header
      exact if_neg hextended
    rw [hheader, hfeed]
    constructor
    · rw [hplace, hlength]
    · exact hlength
    · rw [hheader]
      exact hsum
    · exact hkind
    · exact hn
    · exact hlast
    · exact hquote
    · exact hparms
    · exact hdata

theorem foldl_takeChar (data : List Byte) (k : KRecv) :
    data.foldl takeChar k = { k with
      data := (data.foldl takeChar k).data
      sendParms := (data.foldl takeChar k).sendParms } := by
  induction data generalizing k with
  | nil =>
      rfl
  | cons c data ih =>
      have hone : takeChar k c = { k with
          data := (takeChar k c).data, sendParms := (takeChar k c).sendParms } := by
        unfold takeChar
        split
        · rfl
        · split
          · rfl
          · rfl
      rw [List.foldl_cons, ih]
      generalize (data.foldl takeChar (takeChar k c)).data = d
      generalize (data.foldl takeChar (takeChar k c)).sendParms = parms
      rw [hone]

theorem foldl_takeChar_data {k : KRecv} (hkind : k.kState = dataType) (data : List Byte) :
    (data.foldl takeChar k).data = data.foldl (kDataChar k.hisQuote) k.data := by
  induction data generalizing k with
  | nil =>
      rfl
  | cons c data ih =>
      have hone : takeChar k c = { k with data := kDataChar k.hisQuote k.data c } := if_pos hkind
      have hnext := @ih { k with data := kDataChar k.hisQuote k.data c } hkind
      rw [List.foldl_cons, hone]
      exact hnext

theorem foldl_takeChar_other {k : KRecv} (hkind : k.kState ≠ dataType) (data : List Byte) :
    (data.foldl takeChar k).data = k.data := by
  induction data generalizing k with
  | nil =>
      rfl
  | cons c data ih =>
      have hkeeps : (takeChar k c).kState = k.kState ∧ (takeChar k c).data = k.data := by
        unfold takeChar
        rw [if_neg hkind]
        split
        · exact ⟨rfl, rfl⟩
        · exact ⟨rfl, rfl⟩
      rw [List.foldl_cons, ih (by rw [hkeeps.left]; exact hkind), hkeeps.right]

theorem foldl_takeChar_parms {k : KRecv} (hkind : k.kState = sendType)
    (hlength : k.sendParms.length <= 19) (data : List Byte) :
    (data.foldl takeChar k).sendParms = (k.sendParms ++ data).take 19 := by
  induction data generalizing k with
  | nil =>
      rw [List.append_nil, List.take_of_length_le hlength]
      rfl
  | cons c data ih =>
      have hother : ¬ k.kState = dataType := by
        rw [hkind]
        decide
      have hone : takeChar k c = { k with
          sendParms := if k.sendParms.length < 19 then k.sendParms ++ [c] else k.sendParms } := by
        unfold takeChar
        rw [if_neg hother, if_pos hkind]
      rw [List.foldl_cons, hone]
      by_cases hroom : k.sendParms.length < 19
      · have hmore : (k.sendParms ++ [c]).length <= 19 := by
          rw [List.length_append, List.length_singleton]
          omega
        have hnext := @ih { k with sendParms := k.sendParms ++ [c] } hkind hmore
        rw [List.append_assoc, List.singleton_append] at hnext
        rw [if_pos hroom]
        exact hnext
      · have hfull : 19 <= k.sendParms.length := Nat.le_of_not_lt hroom
        have hnext := ih hkind hlength
        rw [List.take_append_of_le_length hfull] at hnext
        rw [if_neg hroom, List.take_append_of_le_length hfull]
        exact hnext

/-- What a packet does that arrives as it was sent. -/
structure Undamaged (start : KRecv) (p : Packet) (seq : Nat) (k : KRecv) : Prop where
  place : k.place = Place.finish
  kState : k.kState = p.kind
  number : k.n = seq
  last : k.lastN = seq
  quote : k.hisQuote = start.hisQuote
  data : k.data = p.stored.foldl (kDataChar start.hisQuote) (checkedData start seq)
  parms : p.kind = sendType -> k.sendParms = p.data.take 19

theorem feed_packet (hopened : Opened k) {p : Packet} (hformed : p.Formed) {seq : Nat}
    (hseq : seq < 224) : Undamaged k p seq (feed k (p.characters seq)) := by
  have hheaded := feed_header hopened hformed hseq
  unfold Packet.characters
  rw [feed_append, feed_append]
  generalize feed k (p.header seq) = u at hheaded ⊢
  have hdata := feed_data p.data hheaded.place hheaded.length hformed.data
  have hkeeps := foldl_takeChar p.data u
  have hsum : sumOf (p.header seq ++ p.data) = u.sum + sumOf p.data := by
    rw [sumOf_append, hheaded.sum]
  have hcheck : feed (feed u p.data) [blockCheck (sumOf (p.header seq ++ p.data))] =
      { p.data.foldl takeChar u with
        place := Place.finish, sum := u.sum + sumOf p.data, length := 1 } := by
    rw [hdata, hsum]
    unfold feed
    rw [List.foldl_cons, List.foldl_nil]
    exact congrArg Prod.fst (@hear_check { p.data.foldl takeChar u with
      place := Place.check, sum := u.sum + sumOf p.data, length := 1 } rfl)
  rw [hcheck]
  constructor
  · rfl
  · rw [hkeeps]
    exact hheaded.kState
  · rw [hkeeps]
    exact hheaded.number
  · rw [hkeeps]
    exact hheaded.last
  · rw [hkeeps]
    exact hheaded.quote
  · dsimp only
    unfold Packet.stored
    by_cases hkind : p.kind = dataType
    · rw [if_pos hkind, foldl_takeChar_data (hheaded.kState.trans hkind), hheaded.quote,
        hheaded.data]
    · have hother : u.kState ≠ dataType := by
        rw [hheaded.kState]
        exact hkind
      rw [if_neg hkind, foldl_takeChar_other hother, hheaded.data]
      rfl
  · intro hkind
    have hempty : u.sendParms = [] := hheaded.parms.trans hopened.parms
    have hparms := foldl_takeChar_parms (hheaded.kState.trans hkind)
      (by rw [hempty]; exact Nat.zero_le _) p.data
    rw [hempty, List.nil_append] at hparms
    exact hparms

/-!
# A packet that is damaged
-/

def Place.isInside : Place -> Bool
  | Place.type => true
  | Place.lenHi => true
  | Place.lenLo => true
  | Place.headCheck => true
  | Place.data => true
  | Place.check => true
  | Place.finish => true
  | _ => false

structure Begun (quote : Byte) (chars : List Byte) (seq : Nat) (k : KRecv) : Prop where
  number : k.n = seq
  last : k.lastN = seq
  saved : Saved quote chars k.data

structure GoesOn (quote : Byte) (chars : List Byte) (seq : Nat) (k u : KRecv) : Prop where
  inside : u.place.isInside = true
  same : u.hisQuote = k.hisQuote
  begun : Begun quote chars seq u

theorem restPlace_isInside (length : Int) : (restPlace length).isInside = true := by
  unfold restPlace
  split
  · rfl
  · rfl

theorem takeChar_begun {quote : Byte} {chars : List Byte} {seq : Nat}
    (h : Begun quote chars seq k) (c : Byte) :
    (takeChar k c).hisQuote = k.hisQuote ∧ (takeChar k c).place = k.place ∧
      Begun quote chars seq (takeChar k c) := by
  unfold takeChar
  split
  · exact ⟨rfl, rfl, h.number, h.last, h.saved.kDataChar _ c⟩
  · split
    · exact ⟨rfl, rfl, h.number, h.last, h.saved⟩
    · exact ⟨rfl, rfl, h⟩

/-- Behind the sequence number `k_recv` goes on, gives the packet up, or has reached its end. -/
theorem begun_hear {quote : Byte} {chars : List Byte} {seq : Nat}
    (hinside : k.place.isInside = true) (h : Begun quote chars seq k) (c : Byte) :
    hear k c = packetError k ∨
    (exists u, hear k c = (u, none) ∧ GoesOn quote chars seq k u) ∨
    (k.place = Place.finish ∧ c = endChar) := by
  by_cases hfinish : k.place = Place.finish
  · by_cases hend : c = endChar
    · exact Or.inr (Or.inr ⟨hfinish, hend⟩)
    · left
      unfold hear
      rw [hfinish]
      exact if_pos hend
  · have hgoes : hear k c = packetError k ∨
        exists u, hear k c = (u, none) ∧ GoesOn quote chars seq k u := by
      by_cases hc : IsControl c
      · left
        unfold hear
        cases hplace : k.place with
        | type => exact if_pos hc
        | lenHi => exact if_pos hc
        | lenLo => exact if_pos hc
        | headCheck => exact if_pos hc
        | data => exact if_pos hc
        | check => exact if_pos hc
        | finish => exact absurd hplace hfinish
        | _ =>
            rw [hplace] at hinside
            cases hinside
      · cases hplace : k.place with
        | type =>
            right
            refine ⟨_, hear_type hplace hc, ?_, rfl, h.number, h.last, h.saved⟩
            dsimp only
            split
            · rfl
            · exact restPlace_isInside _
        | lenHi =>
            right
            exact ⟨_, hear_lenHi hplace hc, rfl, rfl, h.number, h.last, h.saved⟩
        | lenLo =>
            right
            exact ⟨_, hear_lenLo hplace hc, rfl, rfl, h.number, h.last, h.saved⟩
        | headCheck =>
            by_cases hcheck : c = blockCheck k.sum
            · right
              rw [hcheck]
              exact ⟨_, hear_headCheck hplace, restPlace_isInside _, rfl, h.number, h.last,
                h.saved⟩
            · left
              unfold hear
              rw [hplace]
              dsimp only
              rw [if_neg hc, if_pos hcheck]
        | data =>
            right
            have hbegun : Begun quote chars seq { k with
                place := restPlace (k.length - 1)
                sum := k.sum + c.toNat
                length := k.length - 1 } := ⟨h.number, h.last, h.saved⟩
            rcases takeChar_begun hbegun c with ⟨hquote, hkeeps, htaken⟩
            refine ⟨_, hear_data hplace hc, ?_, hquote, htaken⟩
            rw [hkeeps]
            exact restPlace_isInside _
        | check =>
            by_cases hcheck : c = blockCheck k.sum
            · right
              rw [hcheck]
              exact ⟨_, hear_check hplace, rfl, rfl, h.number, h.last, h.saved⟩
            · left
              unfold hear
              rw [hplace]
              dsimp only
              rw [if_neg hc, if_pos hcheck]
        | finish => exact absurd hplace hfinish
        | _ =>
            rw [hplace] at hinside
            cases hinside
    cases hgoes with
    | inl herror =>
        exact Or.inl herror
    | inr hnext =>
        exact Or.inr (Or.inl hnext)

end Load
end Bab750
