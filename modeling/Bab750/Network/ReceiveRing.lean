import Bab750.Foundation.Bytes
import Bab750.Foundation.Ring
import Bab750.Foundation.Run
import Bab750.Support.Strtoul

/-!
# The receive ring of the DEC21143

`dc21x4x_init`, `dc21x4x_halt`, and `dc21x4x_recv` of `drivers/net/dc2114x.c` over a
model of the adapter: it fills the descriptors it owns one after the other, and stops at
one that it does not own.  While `dc21x4x_recv` is at work, the adapter goes on, and a
packet handler can stop it or start it anew.
-/

namespace Bab750
namespace Network

open Foundation
open Ring

/-!
# Descriptors
-/

def rOwn : BitVec 32 := 0x80000000#32

def rdLs : BitVec 32 := 0x00000100#32

def rdEs : BitVec 32 := 0x00008000#32

/-- `NUM_RX_DESC`, the value of `rxRingSize`. -/
def numRxDesc : Nat := 4

/-- What the adapter stores in one descriptor: a frame, or a part of an oversized one. -/
structure Segment where
  /-- The bytes that go to the buffer of the descriptor. -/
  bytes : List Byte
  /-- The length of the frame with its checksum. -/
  length : BitVec 14
  /-- The frame ends here. -/
  last : Bool
  /-- Something is wrong with the frame. -/
  error : Bool
  /-- The other bits of the status. -/
  high : BitVec 6
  low : BitVec 8
deriving DecidableEq

def Segment.status (s : Segment) : BitVec 32 :=
  0#2 ++ s.length ++ BitVec.ofBool s.error ++ s.high ++ BitVec.ofBool s.last ++ s.low

def frameSegment (bytes : List Byte) : Segment where
  bytes := bytes
  length := BitVec.ofNat 14 bytes.length
  last := true
  error := false
  high := 1#6
  low := 0#8

theorem and_twoPow_ne_zero (x : BitVec 32) {i : Nat} (hi : i < 32) :
    x &&& BitVec.twoPow 32 i ≠ 0#32 <-> x.getLsbD i = true := by
  rw [BitVec.and_twoPow]
  constructor
  · intro h
    by_contra hbit
    rw [if_neg hbit] at h
    exact h rfl
  · intro hbit hzero
    rw [if_pos hbit] at hzero
    have hval := congrArg (fun y => y.getLsbD i) hzero
    simp only [BitVec.getLsbD_twoPow, BitVec.getLsbD_zero] at hval
    simp [hi] at hval

theorem rOwn_eq : rOwn = BitVec.twoPow 32 31 := by decide

theorem rdLs_eq : rdLs = BitVec.twoPow 32 8 := by decide

theorem rdEs_eq : rdEs = BitVec.twoPow 32 15 := by decide

theorem Segment.status_own (s : Segment) : s.status &&& rOwn = 0#32 := by
  by_contra h
  rw [rOwn_eq] at h
  have hbit := (and_twoPow_ne_zero _ (by decide)).mp h
  simp only [Segment.status, BitVec.getLsbD_append] at hbit
  simp at hbit

theorem Segment.status_ls (s : Segment) : s.status &&& rdLs ≠ 0#32 <-> s.last = true := by
  rw [rdLs_eq, and_twoPow_ne_zero _ (by decide)]
  simp only [Segment.status, BitVec.getLsbD_append]
  simp

theorem Segment.status_es (s : Segment) : s.status &&& rdEs ≠ 0#32 <-> s.error = true := by
  rw [rdEs_eq, and_twoPow_ne_zero _ (by decide)]
  simp only [Segment.status, BitVec.getLsbD_append]
  simp

theorem Segment.status_length (s : Segment) :
    (s.status >>> 16).toNat = s.length.toNat := by
  have hshift : s.status >>> 16 = s.length.setWidth 32 := by
    apply BitVec.eq_of_getLsbD_eq
    intro i hi
    simp only [Segment.status, BitVec.getLsbD_append, BitVec.getLsbD_ushiftRight,
      BitVec.getLsbD_setWidth]
    have hindex : 16 + i - 8 - 1 - 6 - 1 = i := by omega
    rw [if_neg (by omega), if_neg (by omega), if_neg (by omega), if_neg (by omega),
      hindex]
    split
    case isTrue hlength =>
        simp [hi]
    case isFalse hlength =>
        rw [BitVec.getLsbD_of_ge s.length i (by omega)]
        simp
  rw [hshift, BitVec.toNat_setWidth]
  exact Nat.mod_eq_of_lt (Nat.lt_trans s.length.isLt (by decide))

/-!
# Adapter and driver
-/

/-- The ring, its two users, and what has gone through it since the last start. -/
structure RxRing where
  /-- `rx_ring[i].status` and `NetRxPackets[i]`. -/
  cells : Nat -> BitVec 32 × List Byte
  /-- `rx_new`. -/
  rxNew : Nat
  /-- The descriptor that the adapter fills next. -/
  next : Nat
  running : Bool
  /-- What the adapter has stored. -/
  stored : List Segment
  /-- The calls of `NetReceive`: buffer and length. -/
  passed : List (List Byte × Int)
  /-- The numbers in the messages `RX error status = 0x%08X`. -/
  reported : List (BitVec 32)

/-- The adapter has something to store; it is lost when the next descriptor is not free. -/
def arrive (r : RxRing) (s : Segment) : RxRing :=
  if r.running ∧ (r.cells r.next).1 &&& rOwn ≠ 0#32 then
    { r with
      cells := Function.update r.cells r.next (s.status, s.bytes)
      next := (r.next + 1) % numRxDesc
      stored := r.stored ++ [s] }
  else r

def dc21x4xHalt (r : RxRing) : RxRing := { r with running := false }

/-- `dc21x4x_init`, as far as reception goes; `stuck` says that the reset has failed. -/
def dc21x4xInit (stuck : Bool) (r : RxRing) : RxRing :=
  if stuck then { r with running := false }
  else
    { cells := fun i => (rOwn, (r.cells i).2)
      rxNew := 0
      next := 0
      running := true
      stored := []
      passed := []
      reported := [] }

inductive Action where
  | arrive (s : Segment)
  | halt
  | init (stuck : Bool)

def act (r : RxRing) : Action -> RxRing
  | .arrive s => Network.arrive r s
  | .halt => dc21x4xHalt r
  | .init stuck => dc21x4xInit stuck r

/-- The number of retries that `netretry` asks for; there is no limit without one. -/
def retryCount : Option (List Byte) -> Option Nat
  | none => none
  | some nretry =>
      if nretry = ascii "yes" then none
      else if nretry = ascii "no" then some 0
      else if nretry = ascii "once" then some 1
      else some (Support.simpleStrtoul nretry 0).1.toNat

def netStartAgainActions (netretry : Option (List Byte)) (netTryCount : Nat) (stuck : Bool) :
    List Action :=
  if (retryCount netretry).any (fun retrycnt => decide (retrycnt <= netTryCount)) then
    [.halt]
  else [.halt, .init stuck]

/-- What happens around one pass of `dc21x4x_recv`. -/
structure Turn where
  /-- Stored by the adapter before the status is read. -/
  before : List Segment
  /-- During the call of `NetReceive`, if there is one. -/
  during : List Action

/-- `rx_ring[rx_new].status = cpu_to_le32(R_OWN)`. -/
def giveBack (r : RxRing) : RxRing :=
  { r with cells := Function.update r.cells r.rxNew (rOwn, (r.cells r.rxNew).2) }

/-- A frame has ended in the descriptor at `rx_new`: report it, or pass it up. -/
def passUp (during : List Action) (length : Int) (r : RxRing) : Int × RxRing :=
  let status := (r.cells r.rxNew).1
  if status &&& rdEs ≠ 0#32 then (length, { r with reported := r.reported ++ [status] })
  else
    ((status >>> 16).toNat, during.foldl act
      { r with
        passed := r.passed ++ [((r.cells r.rxNew).2, ((status >>> 16).toNat : Int) - 4)] })

/-- What is done with a descriptor that the adapter has given up. -/
def consume (during : List Action) (length : Int) (r : RxRing) : Int × RxRing :=
  if (r.cells r.rxNew).1 &&& rdLs ≠ 0#32 then
    ((passUp during length r).1, giveBack (passUp during length r).2)
  else (length, r)

/-- `rx_new = (rx_new + 1) % rxRingSize`. -/
def advance (r : RxRing) : RxRing := { r with rxNew := (r.rxNew + 1) % numRxDesc }

def nextTurn (turns : List Turn) : Turn := turns.headD { before := [], during := [] }

def dc21x4xRecv : Nat -> List Turn -> Int -> RxRing -> Option (Int × RxRing)
  | 0, _, _, _ => none
  | fuel + 1, turns, length, r =>
      let r := (nextTurn turns).before.foldl arrive r
      if (r.cells r.rxNew).1 &&& rOwn ≠ 0#32 then some (length, r)
      else
        let next := consume (nextTurn turns).during length r
        dc21x4xRecv fuel turns.tail next.1 (advance next.2)

/-!
# In step
-/

/-- The calls of `NetReceive` that some frames are good for. -/
def calls (segments : List Segment) : List (List Byte × Int) :=
  (segments.filter (fun s => !s.error)).map (fun s => (s.bytes, s.length.toNat - 4))

theorem calls_append (first second : List Segment) :
    calls (first ++ second) = calls first ++ calls second := by
  unfold calls
  rw [List.filter_append, List.map_append]

def Freed (cell : BitVec 32 × List Byte) : Prop := cell.1 = rOwn

def Filled (s : Segment) (cell : BitVec 32 × List Byte) : Prop :=
  cell = (s.status, s.bytes) ∧ s.last = true

def Owned (cell : BitVec 32 × List Byte) : Prop := cell.1 &&& rOwn ≠ 0#32

theorem Freed.owned {cell : BitVec 32 × List Byte} (h : Freed cell) : Owned cell := by
  unfold Owned
  rw [h]
  decide

theorem Filled.not_owned {s : Segment} {cell : BitVec 32 × List Byte}
    (h : Filled s cell) : ¬ Owned cell := by
  intro hown
  unfold Owned at hown
  rw [h.left] at hown
  exact hown s.status_own

/-- Frames wait from `rx_new` up to the adapter; some of them are still to be passed up. -/
structure Queued (r : RxRing) (waiting owed : List Segment) : Prop where
  occupied : Occupied numRxDesc Freed Filled r.cells r.rxNew waiting
  next : r.next = slot numRxDesc r.rxNew waiting.length
  passed : r.passed ++ calls owed = calls r.stored

def Segment.Single (s : Segment) : Prop := s.last = true

/-- The adapter is not started anew, and stores no part of a longer frame. -/
def Action.Gentle : Action -> Prop
  | .arrive s => s.Single
  | .halt => True
  | .init stuck => stuck = true

structure Turn.Gentle (turn : Turn) : Prop where
  before : forall s, s ∈ turn.before -> s.Single
  during : forall action, action ∈ turn.during -> action.Gentle

theorem arrive_queued {r : RxRing} {waiting owed : List Segment}
    (h : Queued r waiting owed) {s : Segment} (hs : s.Single) :
    exists more, Queued (arrive r s) (waiting ++ more) (owed ++ more) ∧
      more.length <= 1 ∧ (arrive r s).rxNew = r.rxNew := by
  unfold arrive
  split
  case isTrue hgo =>
      have hroom : waiting.length < numRxDesc := by
        have hown : Owned (r.cells (slot numRxDesc r.rxNew waiting.length)) := by
          rw [← h.next]
          exact hgo.right
        exact h.occupied.room (fun _ _ hentry => hentry.not_owned) hown
      refine ⟨[s], ?_, Nat.le_refl _, rfl⟩
      constructor
      case occupied =>
          show Occupied _ _ _ (Function.update r.cells r.next _) _ _
          rw [h.next]
          exact h.occupied.push hroom ⟨rfl, hs⟩
      case next =>
          show (r.next + 1) % numRxDesc = _
          rw [h.next, List.length_append, List.length_singleton, ← slot_slot]
          rfl
      case passed =>
          show r.passed ++ calls (owed ++ [s]) = calls (r.stored ++ [s])
          rw [calls_append, calls_append, ← List.append_assoc, h.passed]
  case isFalse hstop =>
      refine ⟨[], ?_, Nat.zero_le _, rfl⟩
      rw [List.append_nil, List.append_nil]
      exact h

theorem act_queued {r : RxRing} {waiting owed : List Segment}
    (h : Queued r waiting owed) {action : Action} (haction : action.Gentle) :
    exists more, Queued (act r action) (waiting ++ more) (owed ++ more) ∧
      more.length <= 1 ∧ (act r action).rxNew = r.rxNew := by
  cases action with
  | arrive s =>
      exact arrive_queued h haction
  | halt =>
      refine ⟨[], ?_, Nat.zero_le _, rfl⟩
      rw [List.append_nil, List.append_nil]
      exact ⟨h.occupied, h.next, h.passed⟩
  | init stuck =>
      have hstuck : stuck = true := haction
      subst hstuck
      refine ⟨[], ?_, Nat.zero_le _, rfl⟩
      rw [List.append_nil, List.append_nil]
      exact ⟨h.occupied, h.next, h.passed⟩

theorem acts_queued (actions : List Action)
    (hactions : forall action, action ∈ actions -> action.Gentle) {r : RxRing}
    {waiting owed : List Segment} (h : Queued r waiting owed) :
    exists more, Queued (actions.foldl act r) (waiting ++ more) (owed ++ more) ∧
      more.length <= actions.length ∧ (actions.foldl act r).rxNew = r.rxNew := by
  induction actions generalizing r waiting owed with
  | nil =>
      refine ⟨[], ?_, Nat.le_refl _, rfl⟩
      rw [List.append_nil, List.append_nil]
      exact h
  | cons action actions ih =>
      rcases act_queued h (hactions action List.mem_cons_self) with
        ⟨first, hfirst, hone, hsame⟩
      rcases ih (fun other hother => hactions other (List.mem_cons_of_mem _ hother)) hfirst
        with ⟨rest, hrest, hlength, hlast⟩
      refine ⟨first ++ rest, ?_, ?_, hlast.trans hsame⟩
      · rw [← List.append_assoc, ← List.append_assoc]
        exact hrest
      · rw [List.length_append, List.length_cons]
        omega

theorem arrivals_queued (segments : List Segment)
    (hsegments : forall s, s ∈ segments -> s.Single) {r : RxRing}
    {waiting owed : List Segment} (h : Queued r waiting owed) :
    exists more, Queued (segments.foldl arrive r) (waiting ++ more) (owed ++ more) ∧
      more.length <= segments.length := by
  have hfold : segments.foldl arrive r = (segments.map Action.arrive).foldl act r := by
    rw [List.foldl_map]
    rfl
  have hgentle : forall action, action ∈ segments.map Action.arrive -> action.Gentle := by
    intro action haction
    rcases List.mem_map.mp haction with ⟨s, hs, rfl⟩
    exact hsegments s hs
  rcases acts_queued _ hgentle h with ⟨more, hmore, hlength, _⟩
  rw [List.length_map] at hlength
  rw [hfold]
  exact ⟨more, hmore, hlength⟩

/-- The first frame that waits is reported or passed up, and its descriptor given back. -/
theorem consume_queued {r : RxRing} {s : Segment} {waiting : List Segment}
    (h : Queued r (s :: waiting) (s :: waiting)) {during : List Action}
    (hduring : forall action, action ∈ during -> action.Gentle) (length : Int) :
    exists more,
      Queued (advance (consume during length r).2) (waiting ++ more) (waiting ++ more) ∧
        more.length <= during.length := by
  -- The head of the queue stays in its descriptor until it is given back.
  have hpop : forall (q : RxRing) (more : List Segment),
      Queued q (s :: waiting ++ more) (waiting ++ more) ->
        Queued (advance (giveBack q)) (waiting ++ more) (waiting ++ more) := by
    intro q more hq
    refine ⟨hq.occupied.pop rfl, ?_, hq.passed⟩
    show q.next = slot numRxDesc (slot numRxDesc q.rxNew 1) _
    rw [slot_slot, hq.next, List.cons_append, List.length_cons, Nat.add_comm 1]
  have hfirst := h.occupied.filled 0 (Nat.zero_lt_succ _)
  rw [slot_zero h.occupied.start_lt] at hfirst
  have hcell : r.cells r.rxNew = (s.status, s.bytes) := hfirst.left
  have hcalls : calls (s :: waiting) = calls [s] ++ calls waiting := calls_append [s] waiting
  have hlast : (r.cells r.rxNew).1 &&& rdLs ≠ 0#32 := by
    rw [hcell]
    exact s.status_ls.mpr hfirst.right
  unfold consume passUp
  rw [if_pos hlast, hcell]
  dsimp only
  split
  case isTrue herror =>
      have hnone : calls [s] = [] := by
        unfold calls
        rw [List.filter_cons_of_neg (by simp [s.status_es.mp herror])]
        rfl
      refine ⟨[], hpop _ [] ?_, Nat.zero_le _⟩
      rw [List.append_nil, List.append_nil]
      refine ⟨h.occupied, h.next, ?_⟩
      show r.passed ++ calls waiting = _
      rw [← h.passed, hcalls, hnone, List.nil_append]
  case isFalse hgood =>
      have hone : calls [s] = [(s.bytes, (s.length.toNat : Int) - 4)] := by
        have herror : s.error = false := by
          rw [Bool.eq_false_iff]
          intro herror
          exact hgood (s.status_es.mpr herror)
        unfold calls
        rw [List.filter_cons_of_pos (by simp [herror])]
        rfl
      rw [s.status_length]
      have hstart : Queued { r with passed := r.passed ++
          [(s.bytes, (s.length.toNat : Int) - 4)] } (s :: waiting) waiting := by
        refine ⟨h.occupied, h.next, ?_⟩
        show r.passed ++ _ ++ calls waiting = _
        rw [← hone, List.append_assoc, ← hcalls]
        exact h.passed
      rcases acts_queued during hduring hstart with ⟨more, hmore, hlength, _⟩
      exact ⟨more, hpop _ more hmore, hlength⟩

def cost (turns : List Turn) : Nat :=
  (turns.map (fun turn => turn.before.length + turn.during.length)).sum

theorem cost_tail (turns : List Turn) :
    cost turns = (nextTurn turns).before.length + (nextTurn turns).during.length +
      cost turns.tail := by
  cases turns with
  | nil =>
      rfl
  | cons turn turns =>
      exact List.sum_cons

theorem nextTurn_gentle {turns : List Turn}
    (hturns : forall turn, turn ∈ turns -> turn.Gentle) : (nextTurn turns).Gentle := by
  cases turns with
  | nil =>
      constructor
      · intro s hs
        cases hs
      · intro action haction
        cases haction
  | cons turn turns =>
      exact hturns turn List.mem_cons_self

/-- One pass: the ring is empty and the loop ends, or the first frame is dealt with. -/
theorem recv_pass {turns : List Turn}
    (hturns : forall turn, turn ∈ turns -> turn.Gentle) (length : Int) {r : RxRing}
    {waiting : List Segment} (h : Queued r waiting waiting) :
    (exists t, Queued t [] [] ∧
      forall n, dc21x4xRecv (n + 1) turns length r = some (length, t)) ∨
    (exists newLength t rest, Queued t rest rest ∧
      rest.length + cost turns.tail < waiting.length + cost turns ∧
      forall n, dc21x4xRecv (n + 1) turns length r =
        dc21x4xRecv n turns.tail newLength t) := by
  have hcost := cost_tail turns
  have hturn := nextTurn_gentle hturns
  rcases arrivals_queued _ hturn.before h with ⟨more, hq, hmore⟩
  have hrecv : forall n, dc21x4xRecv (n + 1) turns length r =
      let q := (nextTurn turns).before.foldl arrive r
      if (q.cells q.rxNew).1 &&& rOwn ≠ 0#32 then some (length, q)
      else dc21x4xRecv n turns.tail (consume (nextTurn turns).during length q).1
        (advance (consume (nextTurn turns).during length q).2) :=
    fun _ => rfl
  generalize (nextTurn turns).before.foldl arrive r = q at hq hrecv
  cases hwaiting : waiting ++ more with
  | nil =>
      rw [hwaiting] at hq
      refine Or.inl ⟨q, hq, fun n => ?_⟩
      rw [hrecv]
      exact if_pos (hq.occupied.all_free hq.occupied.start_lt).owned
  | cons s rest =>
      rw [hwaiting] at hq
      rcases consume_queued hq hturn.during length with ⟨later, hnext, hlater⟩
      have hfirst := hq.occupied.filled 0 (Nat.zero_lt_succ _)
      rw [slot_zero hq.occupied.start_lt] at hfirst
      refine Or.inr ⟨(consume (nextTurn turns).during length q).1, _, rest ++ later, hnext,
        ?_, fun n => ?_⟩
      · have hlength := congrArg List.length hwaiting
        rw [List.length_append, List.length_cons] at hlength
        rw [List.length_append]
        omega
      · rw [hrecv]
        exact if_neg hfirst.not_owned

theorem recv_queued (n : Nat) (turns : List Turn)
    (hturns : forall turn, turn ∈ turns -> turn.Gentle) (length : Int) {r : RxRing}
    {waiting : List Segment} (h : Queued r waiting waiting)
    (hn : waiting.length + cost turns <= n) :
    exists last t, dc21x4xRecv (n + 1) turns length r = some (last, t) ∧
      Queued t [] [] := by
  induction n generalizing turns length r waiting with
  | zero =>
      rcases recv_pass hturns length h with
        ⟨t, ht, hdone⟩ | ⟨newLength, t, rest, _, hless, _⟩
      · exact ⟨length, t, hdone 0, ht⟩
      · omega
  | succ n ih =>
      rcases recv_pass hturns length h with
        ⟨t, ht, hdone⟩ | ⟨newLength, t, rest, ht, hless, hnext⟩
      · exact ⟨length, t, hdone (n + 1), ht⟩
      · rw [hnext]
        exact ih turns.tail (fun turn hturn => hturns turn (List.mem_of_mem_tail hturn))
          newLength ht (by omega)

/-!
# Runs
-/

inductive RingEvent where
  | arrive (s : Segment)
  | recv (turns : List Turn)
  | halt
  | init (stuck : Bool)

/-- A step of adapter and driver; `dc21x4x_recv` is one step, with all that happens in it. -/
inductive RingStep : RxRing -> RingEvent -> RxRing -> Prop where
  | arrive (r : RxRing) (s : Segment) : RingStep r (.arrive s) (arrive r s)
  | recv {r t : RxRing} {turns : List Turn} {fuel : Nat} {length : Int}
      (h : dc21x4xRecv fuel turns 0 r = some (length, t)) : RingStep r (.recv turns) t
  | halt (r : RxRing) : RingStep r .halt (dc21x4xHalt r)
  | init (r : RxRing) (stuck : Bool) : RingStep r (.init stuck) (dc21x4xInit stuck r)

/-- Between two calls of `dc21x4x_recv` the adapter can be started anew. -/
def RingEvent.Gentle : RingEvent -> Prop
  | .arrive s => s.Single
  | .recv turns => forall turn, turn ∈ turns -> turn.Gentle
  | .halt => True
  | .init _ => True

def GentleStep (r : RxRing) (event : RingEvent) (t : RxRing) : Prop :=
  event.Gentle ∧ RingStep r event t

/--
What `dc21x4x_recv` should leave behind: every frame without an error has been passed up
once and in order, every descriptor belongs to the adapter, and `rx_new` is the one that
the adapter fills next.
-/
structure Settled (t : RxRing) : Prop where
  passed : t.passed = calls t.stored
  freed : forall i, i < numRxDesc -> (t.cells i).1 = rOwn
  inStep : t.rxNew = t.next

theorem Queued.settled {t : RxRing} (h : Queued t [] []) : Settled t where
  passed := (List.append_nil _).symm.trans h.passed
  freed := fun _ hi => h.occupied.all_free hi
  inStep := by
    rw [h.next]
    exact (slot_zero h.occupied.start_lt).symm

theorem init_queued (r : RxRing) : Queued (dc21x4xInit false r) [] [] where
  occupied := occupied_empty (show 0 < numRxDesc by decide) (fun _ _ => rfl)
  next := rfl
  passed := rfl

theorem dc21x4xRecv_mono {fuel : Nat} {turns : List Turn} {length : Int} {r : RxRing}
    {result : Int × RxRing} (h : dc21x4xRecv fuel turns length r = some result) :
    dc21x4xRecv (fuel + 1) turns length r = some result := by
  induction fuel generalizing turns length r with
  | zero =>
      cases h
  | succ fuel ih =>
      unfold dc21x4xRecv at h ⊢
      dsimp only at h ⊢
      split at h
      case isTrue hown =>
          rw [if_pos hown]
          exact h
      case isFalse hown =>
          rw [if_neg hown]
          exact ih h

theorem dc21x4xRecv_unique {n m : Nat} {turns : List Turn} {length : Int} {r : RxRing}
    {first second : Int × RxRing} (hfirst : dc21x4xRecv n turns length r = some first)
    (hsecond : dc21x4xRecv m turns length r = some second) : first = second := by
  have hmore : forall k, dc21x4xRecv (n + k) turns length r = some first ∧
      dc21x4xRecv (m + k) turns length r = some second := by
    intro k
    induction k with
    | zero =>
        exact ⟨hfirst, hsecond⟩
    | succ k ih =>
        exact ⟨dc21x4xRecv_mono ih.left, dc21x4xRecv_mono ih.right⟩
  have hn := (hmore m).left
  have hm := (hmore n).right
  rw [Nat.add_comm, hm] at hn
  exact (Option.some.inj hn).symm

theorem gentleStep_queued {r t : RxRing} {event : RingEvent}
    (h : exists waiting, Queued r waiting waiting) (hstep : GentleStep r event t) :
    exists waiting, Queued t waiting waiting := by
  rcases h with ⟨waiting, hwaiting⟩
  rcases hstep with ⟨hgentle, hstep⟩
  cases hstep with
  | arrive s =>
      rcases arrive_queued hwaiting hgentle with ⟨more, hmore, _⟩
      exact ⟨_, hmore⟩
  | recv hrecv =>
      rcases recv_queued _ _ hgentle 0 hwaiting (Nat.le_refl _) with
        ⟨last, t, hlast, hsettled⟩
      rcases Prod.mk.inj (dc21x4xRecv_unique hrecv hlast) with ⟨_, rfl⟩
      exact ⟨[], hsettled⟩
  | halt =>
      exact ⟨waiting, hwaiting.occupied, hwaiting.next, hwaiting.passed⟩
  | init stuck =>
      cases stuck with
      | true =>
          exact ⟨waiting, hwaiting.occupied, hwaiting.next, hwaiting.passed⟩
      | false =>
          exact ⟨[], init_queued r⟩

/--
As long as frames fit into one descriptor and no packet handler starts the adapter anew,
`dc21x4x_recv` returns in every state that a run reaches, and leaves a settled ring.
-/
theorem ring_in_step {first r : RxRing} {events : List RingEvent}
    (hrun : Run GentleStep (dc21x4xInit false first) events r) {turns : List Turn}
    (hturns : forall turn, turn ∈ turns -> turn.Gentle) :
    exists fuel length t, dc21x4xRecv fuel turns 0 r = some (length, t) ∧ Settled t := by
  have hinv := hrun.invariant (fun r => exists waiting, Queued r waiting waiting)
    (fun _ _ _ hr hstep => gentleStep_queued hr hstep) ⟨[], init_queued first⟩
  rcases hinv with ⟨waiting, hwaiting⟩
  rcases recv_queued _ _ hturns 0 hwaiting (Nat.le_refl _) with ⟨last, t, hlast, hqueued⟩
  exact ⟨_, last, t, hlast, hqueued.settled⟩

def coldRing : RxRing where
  cells := fun _ => (0#32, [])
  rxNew := 0
  next := 0
  running := false
  stored := []
  passed := []
  reported := []

def shortFrame : Segment := frameSegment (List.replicate 64 0x55#8)

theorem ring_in_step_halted :
    exists fuel length t, dc21x4xRecv fuel
      [{ before := [shortFrame], during := netStartAgainActions (some (ascii "no")) 1 false }] 0
        (arrive (dc21x4xInit false coldRing) shortFrame) = some (length, t) ∧
          Settled t := by
  refine @ring_in_step coldRing _ [.arrive shortFrame]
    (.cons ⟨rfl, .arrive _ _⟩ (.nil _)) _ ?_
  intro turn hturn
  rw [List.mem_singleton.mp hturn]
  constructor
  · intro s hs
    rw [List.mem_singleton.mp hs]
    rfl
  · intro action haction
    have hhalt : netStartAgainActions (some (ascii "no")) 1 false = [.halt] := rfl
    rw [hhalt] at haction
    rw [List.mem_singleton.mp haction]
    trivial

def oversizedFrame : List Segment :=
  [{ bytes := List.replicate 1536 0x55#8, length := 0#14, last := false, error := false,
      high := 1#6, low := 0#8 },
    { bytes := List.replicate 64 0x55#8, length := 1600#14, last := true, error := false,
      high := 0#6, low := 0x80#8 }]

/--
A handler that starts again leaves `rx_new` one descriptor in front of the adapter; and
the first descriptor of an oversized frame is not given back.
-/
theorem ring_out_of_step :
    ¬ (exists fuel length t, dc21x4xRecv fuel
      [{ before := [shortFrame], during := netStartAgainActions none 1 false }] 0
        (dc21x4xInit false coldRing) = some (length, t) ∧ Settled t) ∧
    ¬ (exists fuel length t, dc21x4xRecv fuel
      [{ before := oversizedFrame, during := [] }] 0
        (dc21x4xInit false coldRing) = some (length, t) ∧ Settled t) := by
  constructor
  · rintro ⟨fuel, length, t, hrecv, hsettled⟩
    have hrun : (dc21x4xRecv 2
        [{ before := [shortFrame], during := netStartAgainActions none 1 false }] 0
          (dc21x4xInit false coldRing)).map (fun x => (x.2.rxNew, x.2.next)) =
            some (1, 0) := by
      rfl
    rcases Option.map_eq_some_iff.mp hrun with ⟨⟨last, u⟩, hu, hplaces⟩
    rcases Prod.mk.inj (dc21x4xRecv_unique hrecv hu) with ⟨_, rfl⟩
    have hsame := hsettled.inStep
    rw [(Prod.mk.inj hplaces).left, (Prod.mk.inj hplaces).right] at hsame
    exact absurd hsame (by decide)
  · rintro ⟨fuel, length, t, hrecv, hsettled⟩
    have hrun : (dc21x4xRecv 3 [{ before := oversizedFrame, during := [] }] 0
        (dc21x4xInit false coldRing)).map (fun x => (x.2.cells 0).1) =
          some (0x00000200#32) := by
      rfl
    rcases Option.map_eq_some_iff.mp hrun with ⟨⟨last, u⟩, hu, hcell⟩
    rcases Prod.mk.inj (dc21x4xRecv_unique hrecv hu) with ⟨_, rfl⟩
    have hfree := hsettled.freed 0 (by decide)
    rw [hcell] at hfree
    exact absurd hfree (by decide)

end Network
end Bab750
