import Bab750.Environment.Copies

/-!
# Network parameters

`NetInitLoop`, the start of `NetLoop`, and the replies of BOOTP and RARP, as far as they
touch the addresses of the board, its gateway, its subnet, and its server.  The values are
read off the environment when it has changed since they were read last.  The operations
change the environment through `_do_setenv` only (`bootfile`, `filesize`, `fileaddr`,
`ethact`, and the variables of `netboot_update_env`), so that these calls are steps of
their own.
-/

namespace Bab750
namespace Network

open Foundation
open Environment

inductive Protocol where
  | tftp
  | nfs
  | bootp
  | rarp
deriving DecidableEq

/-- `NetOurIP`, `NetOurGatewayIP`, `NetOurSubnetMask`, and `NetServerIP`. -/
inductive Param where
  | ourIP
  | gatewayIP
  | subnetMask
  | serverIP
deriving DecidableEq

def Param.variable : Param -> List Byte
  | .ourIP => ascii "ipaddr"
  | .gatewayIP => ascii "gatewayip"
  | .subnetMask => ascii "netmask"
  | .serverIP => ascii "serverip"

structure NetSystem where
  board : BoardState
  values : Param -> BitVec 32
  /-- `env_changed_id` of `NetInitLoop`. -/
  envChangedId : Int
  /-- The protocol that `NetLoop` is at work for. -/
  loop : Option Protocol
  /-- Stored by a BOOTP reply since the environment was last changed or read. -/
  stored : Param -> Bool
  /-- Changed against the environment by a start of BOOTP or RARP or by a RARP reply. -/
  left : Param -> Bool

def NetSystem.address (n : NetSystem) (p : Param) : BitVec 32 :=
  getenvIPaddr n.board p.variable

/-- `NetInitLoop`: `NetOurIP` comes from the copy in `bi_ip_addr`. -/
def netInitLoop (n : NetSystem) : NetSystem :=
  if n.envChangedId ≠ n.board.envId then
    { n with
      values := fun p => if p = .ourIP then n.board.ipAddr else n.address p
      envChangedId := n.board.envId
      stored := fun _ => false
      left := fun _ => false }
  else n

/-- `net_check_prereq`; `etherSet` says that the board has an Ethernet address. -/
def netCheckPrereq (protocol : Protocol) (etherSet : Bool) (n : NetSystem) : Nat :=
  match protocol with
  | .tftp | .nfs =>
      if n.values .serverIP = 0#32 then 1
      else if n.values .ourIP = 0#32 then 1
      else if etherSet then 0
      else 2
  | .bootp | .rarp => if etherSet then 0 else 2

def NetSystem.put (n : NetSystem) (p : Param) (value : BitVec 32) : NetSystem :=
  { n with
    values := Function.update n.values p value
    stored := Function.update n.stored p false
    left := Function.update n.left p (value != n.address p) }

def NetSystem.store (n : NetSystem) (p : Param) (value : BitVec 32) : NetSystem :=
  { n with
    values := Function.update n.values p value
    stored := Function.update n.stored p true
    left := Function.update n.left p false }

/-- `NetLoop` from `restart` up to the reception of packets. -/
def enterLoop (protocol : Protocol) (etherSet : Bool) (n : NetSystem) : NetSystem :=
  let n := { netInitLoop n with loop := some protocol }
  match protocol with
  | .tftp | .nfs => n
  | .bootp | .rarp =>
      if netCheckPrereq protocol etherSet n = 0 then n.put .ourIP 0#32 else n

/-- `BootpCopyNetParams` in front of its `setenv`. -/
def bootpCopyNetParams (yiaddr siaddr : BitVec 32) (n : NetSystem) : NetSystem :=
  let n := n.store .ourIP yiaddr
  if siaddr ≠ 0#32 then n.store .serverIP siaddr else n

def bootpVendorField (p : Param) (value : BitVec 32) (n : NetSystem) : NetSystem :=
  if n.values p = 0#32 then n.store p value else n

/-- A RARP reply in `NetReceive`. -/
def rarpReply (ip server : BitVec 32) (n : NetSystem) : NetSystem :=
  let n := n.put .ourIP ip
  if n.values .serverIP = 0#32 then n.put .serverIP server else n

inductive NetEvent where
  | setenv (args : SetenvArgs)
  /-- `NetLoop` is called. -/
  | start (protocol : Protocol) (etherSet : Bool)
  /-- `NETLOOP_RESTART`. -/
  | restart (etherSet : Bool)
  | bootpCopy (yiaddr siaddr : BitVec 32)
  | bootpVendor (p : Param) (value : BitVec 32)
  | rarp (ip server : BitVec 32)
  /-- `NetLoop` returns: success, failure, or Ctrl+C. -/
  | finish

/-- A call of `_do_setenv`: one that counts `env_id` up is a change of the environment. -/
def afterSetenv (n : NetSystem) (args : SetenvArgs) (board : BoardState) : NetSystem :=
  if equalsSign ∈ args.name.bytes then { n with board := board }
  else { n with board := board, stored := fun _ => false, left := fun _ => false }

inductive NetStep : NetSystem -> NetEvent -> NetSystem -> Prop where
  | setenv {n : NetSystem} {args : SetenvArgs} {r : Int} {board : BoardState}
      (call : doSetenv n.board args = some (r, board)) :
      NetStep n (.setenv args) (afterSetenv n args board)
  | start {n : NetSystem} (protocol : Protocol) (etherSet : Bool) (idle : n.loop = none) :
      NetStep n (.start protocol etherSet) (enterLoop protocol etherSet n)
  | restart {n : NetSystem} {protocol : Protocol} (etherSet : Bool)
      (busy : n.loop = some protocol) :
      NetStep n (.restart etherSet) (enterLoop protocol etherSet n)
  | bootpCopy {n : NetSystem} (yiaddr siaddr : BitVec 32) (busy : n.loop = some .bootp) :
      NetStep n (.bootpCopy yiaddr siaddr) (bootpCopyNetParams yiaddr siaddr n)
  | bootpVendor {n : NetSystem} {p : Param} (value : BitVec 32)
      (busy : n.loop = some .bootp) (field : p = .subnetMask ∨ p = .gatewayIP) :
      NetStep n (.bootpVendor p value) (bootpVendorField p value n)
  -- `NetReceive` takes the reply whatever the loop is at work for
  | rarp {n : NetSystem} {protocol : Protocol} (ip server : BitVec 32)
      (busy : n.loop = some protocol) :
      NetStep n (.rarp ip server) (rarpReply ip server n)
  | finish {n : NetSystem} {protocol : Protocol} (busy : n.loop = some protocol) :
      NetStep n .finish { n with loop := none }

/-- The state behind `board_init_r`. -/
structure Booted (n : NetSystem) : Prop where
  image : exists vars, WellFormed n.board.data vars
  copy : n.board.ipAddr = n.address .ourIP
  unread : n.envChangedId < n.board.envId
  idle : n.loop = none

/-!
# Fresh parameters
-/

/-- Every parameter is the one of the environment, or was stored by a BOOTP reply. -/
def Fresh (n : NetSystem) : Prop :=
  forall p, n.values p = n.address p ∨ n.stored p = true

/-- An operation for TFTP or NFS starts with the values behind `NetInitLoop`. -/
def NetEvent.Transfers (n : NetSystem) : NetEvent -> Prop
  | .start protocol _ => protocol = .tftp ∨ protocol = .nfs
  | .restart _ => n.loop = some .tftp ∨ n.loop = some .nfs
  | _ => False

/--
The call does not leave the copy of the address behind, and a transfer does not start with
what BOOTP or RARP has left in place of the address of the environment.
-/
def Orderly (n : NetSystem) (event : NetEvent) : Prop :=
  (forall args, event = .setenv args -> ¬ LosesAddress n.board args) ∧
    (event.Transfers n -> n.envChangedId ≠ n.board.envId ∨
      forall p, n.left p = false)

def OrderlyStep (n : NetSystem) (event : NetEvent) (m : NetSystem) : Prop :=
  Orderly n event ∧ NetStep n event m

structure Current (n : NetSystem) : Prop where
  image : exists vars, WellFormed n.board.data vars
  copy : n.board.ipAddr = n.address .ourIP
  order : n.envChangedId <= n.board.envId
  values : n.envChangedId = n.board.envId ->
    forall p, n.values p = n.address p ∨ n.stored p = true ∨ n.left p = true

theorem Booted.current {n : NetSystem} (h : Booted n) : Current n where
  image := h.image
  copy := h.copy
  order := Int.le_of_lt h.unread
  values := fun heq => absurd heq (Int.ne_of_lt h.unread)

theorem Current.put {n : NetSystem} (h : Current n) (p : Param) (value : BitVec 32) :
    Current (n.put p value) := by
  refine ⟨h.image, h.copy, h.order, fun heq q => ?_⟩
  show Function.update n.values p value q = n.address q ∨
    Function.update n.stored p false q = true ∨
      Function.update n.left p (value != n.address p) q = true
  by_cases hq : q = p
  · subst hq
    rw [Function.update_self, Function.update_self, Function.update_self]
    by_cases hsame : value = n.address q
    · exact Or.inl hsame
    · exact Or.inr (Or.inr (bne_iff_ne.mpr hsame))
  · rw [Function.update_of_ne hq, Function.update_of_ne hq, Function.update_of_ne hq]
    exact h.values heq q

theorem Current.store {n : NetSystem} (h : Current n) (p : Param) (value : BitVec 32) :
    Current (n.store p value) := by
  refine ⟨h.image, h.copy, h.order, fun heq q => ?_⟩
  show Function.update n.values p value q = n.address q ∨
    Function.update n.stored p true q = true ∨ Function.update n.left p false q = true
  by_cases hq : q = p
  · subst hq
    rw [Function.update_self, Function.update_self]
    exact Or.inr (Or.inl rfl)
  · rw [Function.update_of_ne hq, Function.update_of_ne hq, Function.update_of_ne hq]
    exact h.values heq q

theorem Current.withLoop {n : NetSystem} (h : Current n) (loop : Option Protocol) :
    Current { n with loop := loop } :=
  ⟨h.image, h.copy, h.order, h.values⟩

theorem netInitLoop_changed {n : NetSystem} (h : Current n)
    (hchanged : n.envChangedId ≠ n.board.envId) :
    Current (netInitLoop n) ∧
      forall p, (netInitLoop n).values p = (netInitLoop n).address p := by
  have hvalues : forall p, (netInitLoop n).values p = (netInitLoop n).address p := by
    intro p
    unfold netInitLoop
    rw [if_pos hchanged]
    show (if p = .ourIP then n.board.ipAddr else n.address p) = n.address p
    split
    case isTrue hp =>
        rw [hp]
        exact h.copy
    case isFalse hp =>
        rfl
  refine ⟨?_, hvalues⟩
  have hrest : (netInitLoop n).board = n.board ∧
      (netInitLoop n).envChangedId = n.board.envId := by
    unfold netInitLoop
    rw [if_pos hchanged]
    exact ⟨rfl, rfl⟩
  constructor
  case image =>
      rw [hrest.left]
      exact h.image
  case copy =>
      unfold NetSystem.address
      rw [hrest.left]
      exact h.copy
  case order =>
      rw [hrest.left, hrest.right]
  case values => exact fun _ p => Or.inl (hvalues p)

theorem netInitLoop_unchanged {n : NetSystem} (hsame : n.envChangedId = n.board.envId) :
    netInitLoop n = n :=
  if_neg (fun hchanged => hchanged hsame)

theorem Current.netInitLoop {n : NetSystem} (h : Current n) :
    Current (Network.netInitLoop n) := by
  by_cases hsame : n.envChangedId = n.board.envId
  · rw [netInitLoop_unchanged hsame]
    exact h
  · exact (netInitLoop_changed h hsame).left

theorem Current.enterLoop {n : NetSystem} (h : Current n) (protocol : Protocol)
    (etherSet : Bool) : Current (Network.enterLoop protocol etherSet n) := by
  have hloop := h.netInitLoop.withLoop (some protocol)
  unfold Network.enterLoop
  cases protocol with
  | tftp =>
      exact hloop
  | nfs =>
      exact hloop
  | bootp =>
      dsimp only
      split
      · exact hloop.put .ourIP 0#32
      · exact hloop
  | rarp =>
      dsimp only
      split
      · exact hloop.put .ourIP 0#32
      · exact hloop

theorem Current.afterSetenv {n : NetSystem} (h : Current n) {args : SetenvArgs} {r : Int}
    {board : BoardState} (hcall : doSetenv n.board args = some (r, board))
    (hkeeps : ¬ LosesAddress n.board args) :
    Current (Network.afterSetenv n args board) := by
  rcases h.image with ⟨vars, hvars⟩
  rcases doSetenv_ipAddr hvars h.copy hcall hkeeps with ⟨hcopy, himage⟩
  have hid := (doSetenv_copy hcall).left
  have horder := h.order
  unfold Network.afterSetenv
  split
  case isTrue hequals =>
      rw [if_pos hequals] at hid
      have hdata : board.data = n.board.data := by
        cases doSetenv_outcome hcall with
        | rejected check same =>
            exact same.data
        | deleted check rest novalue result crc =>
            exact absurd hequals check.left
        | overflowed check rest value position overflow message same =>
            exact absurd hequals check.left
        | defined check rest value position fits write result crc =>
            exact absurd hequals check.left
      refine ⟨himage, hcopy, hid ▸ horder, ?_⟩
      intro heq p
      show n.values p = getenvIPaddr board p.variable ∨ _
      rw [getenvIPaddr_sameData hdata]
      exact h.values (heq.trans hid) p
  case isFalse hequals =>
      rw [if_neg hequals] at hid
      refine ⟨himage, hcopy, ?_, ?_⟩
      · show n.envChangedId <= board.envId
        omega
      · intro heq
        have heq' : n.envChangedId = board.envId := heq
        omega

theorem orderlyStep_current {n m : NetSystem} {event : NetEvent} (h : Current n)
    (hstep : OrderlyStep n event m) : Current m := by
  rcases hstep with ⟨horderly, hstep⟩
  cases hstep with
  | setenv call =>
      exact h.afterSetenv call (horderly.left _ rfl)
  | start protocol etherSet idle =>
      exact h.enterLoop protocol etherSet
  | restart etherSet busy =>
      exact h.enterLoop _ etherSet
  | bootpCopy yiaddr siaddr busy =>
      unfold bootpCopyNetParams
      dsimp only
      split
      · exact (h.store _ _).store _ _
      · exact h.store _ _
  | bootpVendor value busy field =>
      unfold bootpVendorField
      split
      · exact h.store _ _
      · exact h
  | rarp ip server busy =>
      unfold rarpReply
      dsimp only
      split
      · exact (h.put _ _).put _ _
      · exact h.put _ _
  | finish busy =>
      exact h.withLoop none

/--
In every run whose steps are orderly, a transfer that starts finds the addresses of the
environment, except for what a BOOTP reply has stored.
-/
theorem parameters_fresh {first n m : NetSystem} {events : List NetEvent} {event : NetEvent}
    (hfirst : Booted first) (hrun : Run OrderlyStep first events n)
    (hstep : OrderlyStep n event m) (htransfer : event.Transfers n) : Fresh m := by
  have h := hrun.invariant Current (fun _ _ _ hn hstep => orderlyStep_current hn hstep)
    hfirst.current
  have hinit : Fresh (netInitLoop n) := by
    by_cases hsame : n.envChangedId = n.board.envId
    · rw [netInitLoop_unchanged hsame]
      intro p
      rcases hstep.left.right htransfer with hchanged | hleft
      · exact absurd hsame hchanged
      · rcases h.values hsame p with hvalue | hstored | hbad
        · exact Or.inl hvalue
        · exact Or.inr hstored
        · rw [hleft p] at hbad
          cases hbad
    · exact fun p => Or.inl ((netInitLoop_changed h hsame).right p)
  cases hstep.right with
  | start protocol etherSet idle =>
      rcases htransfer with rfl | rfl
      · exact hinit
      · exact hinit
  | restart etherSet busy =>
      rcases htransfer with hloop | hloop
      · rw [busy] at hloop
        cases hloop
        exact hinit
      · rw [busy] at hloop
        cases hloop
        exact hinit
  | _ =>
      exact absurd htransfer id

/-- The variable `ipaddr=10.0.0.1`. -/
def ipaddrVariable : Variable where
  name := ascii "ipaddr"
  value := ascii "10.0.0.1"
  nameNoNul := by decide
  nameNoEquals := by decide
  valueNoNul := by decide

def netBoard : BoardState :=
  { sampleBoard with
    envId := 1
    ipAddr := 0x0a000001#32
    data := ascii "ipaddr=10.0.0.1" ++ List.replicate 1005 0#8 }

theorem netBoard_wellFormed : WellFormed netBoard.data [ipaddrVariable] where
  distinct := by decide
  size := by decide +kernel
  layout := ⟨List.replicate 1003 0#8, by decide +kernel⟩

def netSystem : NetSystem where
  board := netBoard
  values := fun _ => 0#32
  envChangedId := 0
  loop := none
  stored := fun _ => false
  left := fun _ => false

theorem netSystem_booted : Booted netSystem where
  image := ⟨_, netBoard_wellFormed⟩
  copy := by decide +kernel
  unread := by decide
  idle := rfl

/-- The arguments of `setenv ipaddr 10.0.0.9`. -/
def newAddressCall : SetenvArgs where
  name := ⟨ascii "ipaddr", by decide⟩
  values := [⟨ascii "10.0.0.9", by decide⟩]
  addressable := by decide

theorem newAddressCall_keeps : ¬ LosesAddress netBoard newAddressCall := by
  rintro ⟨_, ⟨_, hgone | hover⟩ | ⟨value, rest, hvalues, hwords⟩⟩
  · exact absurd hgone (by decide)
  · rw [overwriteOverflows_iff netBoard_wellFormed] at hover
    exact absurd hover.right.right.right (by decide +kernel)
  · have hvalue : value = ascii "10.0.0.9" := (List.cons.inj hvalues).left.symm
    rw [hvalue] at hwords
    exact hwords (by decide +kernel)

/-- A BOOTP operation behind a change of the environment: its reply replaces what its start has
left. -/
theorem bootpCopy_left {n : NetSystem} (hchanged : n.envChangedId ≠ n.board.envId)
    (yiaddr siaddr : BitVec 32) (p : Param) :
    (bootpCopyNetParams yiaddr siaddr (enterLoop .bootp true n)).left p = false := by
  have hread : (netInitLoop n).left = fun _ => false := by
    unfold netInitLoop
    rw [if_pos hchanged]
  have hstart : (enterLoop .bootp true n).left =
      Function.update (fun _ => false) .ourIP (0#32 != (netInitLoop n).address .ourIP) := by
    show ((netInitLoop n).put .ourIP 0#32).left = _
    rw [NetSystem.put, hread]
  have hreply : ((enterLoop .bootp true n).store .ourIP yiaddr).left = fun _ => false := by
    rw [NetSystem.store, hstart, Function.update_idem]
    exact Function.update_eq_self _ _
  unfold bootpCopyNetParams
  dsimp only
  split
  · show Function.update ((enterLoop .bootp true n).store .ourIP yiaddr).left .serverIP false p =
      false
    rw [hreply, Function.update_apply, ite_self]
  · rw [hreply]

/-- `setenv ipaddr`, BOOTP with a reply, TFTP: the address is the one of the reply. -/
theorem parameters_fresh_changed :
    exists n m, Run OrderlyStep netSystem
        [.setenv newAddressCall, .start .bootp true, .bootpCopy 0x0a000017#32 0x0a000001#32,
          .finish] n ∧
      OrderlyStep n (.start .tftp true) m ∧ Fresh m ∧ m.values .ourIP = 0x0a000017#32 := by
  have hreturn : (doSetenv netBoard newAddressCall).map (fun x => x.2.envId) =
      some 2 := by
    decide +kernel
  rcases Option.map_eq_some_iff.mp hreturn with ⟨⟨r, board⟩, hcall, hid⟩
  have hset : OrderlyStep netSystem (.setenv newAddressCall)
      (afterSetenv netSystem newAddressCall board) := by
    refine ⟨⟨?_, fun h => absurd h id⟩, .setenv hcall⟩
    rintro args hargs
    cases hargs
    exact newAddressCall_keeps
  have hquiet : forall (n : NetSystem) (event : NetEvent),
      (forall args, event ≠ .setenv args) -> ¬ event.Transfers n -> Orderly n event :=
    fun n event hcalls htransfer =>
      ⟨fun args hargs => absurd hargs (hcalls args), fun h => absurd h htransfer⟩
  have hchanged : (afterSetenv netSystem newAddressCall board).envChangedId ≠
      (afterSetenv netSystem newAddressCall board).board.envId := by
    show (0 : Int) ≠ board.envId
    rw [hid]
    decide
  have hleft := bootpCopy_left hchanged 0x0a000017#32 0x0a000001#32
  generalize hbusy : enterLoop .bootp true (afterSetenv netSystem newAddressCall board) = busy
    at hleft
  have hbootp : OrderlyStep (afterSetenv netSystem newAddressCall board) (.start .bootp true)
      busy := by
    rw [← hbusy]
    refine ⟨hquiet _ _ (fun _ h => by cases h) ?_, .start .bootp true rfl⟩
    rintro (h | h)
    · cases h
    · cases h
  have hloop : busy.loop = some .bootp := by
    rw [← hbusy]
    rfl
  have hreply : OrderlyStep busy (.bootpCopy 0x0a000017#32 0x0a000001#32)
      (bootpCopyNetParams 0x0a000017#32 0x0a000001#32 busy) :=
    ⟨hquiet _ _ (fun _ h => by cases h) id, .bootpCopy _ _ hloop⟩
  generalize hcopied : bootpCopyNetParams 0x0a000017#32 0x0a000001#32 busy = copied
    at hleft hreply
  have hcopiedLoop : copied.loop = some .bootp := by
    rw [← hcopied]
    exact hloop
  have hfinish : OrderlyStep copied .finish { copied with loop := none } :=
    ⟨hquiet _ _ (fun _ h => by cases h) id, .finish hcopiedLoop⟩
  have hrun := Run.cons hset (.cons hbootp (.cons hreply (.cons hfinish (.nil _))))
  have hstart : OrderlyStep { copied with loop := none } (.start .tftp true) _ :=
    ⟨⟨fun args hargs => (by cases hargs), fun _ => Or.inr hleft⟩, .start .tftp true rfl⟩
  refine ⟨_, _, hrun, hstart, parameters_fresh netSystem_booted hrun hstart (Or.inl rfl), ?_⟩
  have hsame : copied.envChangedId = copied.board.envId := by
    rw [← hcopied, ← hbusy]
    show (netInitLoop _).envChangedId = (netInitLoop _).board.envId
    rw [netInitLoop, if_pos hchanged]
  have hread : netInitLoop { copied with loop := none } = { copied with loop := none } :=
    netInitLoop_unchanged hsame
  show (netInitLoop { copied with loop := none }).values .ourIP = _
  rw [hread, ← hcopied]
  rfl

/-- The arguments of `setenv ipaddr`. -/
def deleteAddressCall : SetenvArgs where
  name := ⟨ascii "ipaddr", by decide⟩
  values := []
  addressable := by decide

/-- The address is deleted, and TFTP starts with the old one. -/
theorem parameters_not_fresh :
    ¬ forall (first n m : NetSystem) (events : List NetEvent) (event : NetEvent),
      Booted first -> Run NetStep first events n -> NetStep n event m ->
        event.Transfers n -> Fresh m := by
  intro hfresh
  have hreturn : (doSetenv netBoard deleteAddressCall).map
      (fun x => (x.2.envId, x.2.ipAddr, getenvIPaddr x.2 (ascii "ipaddr"))) =
        some (2, 0x0a000001#32, 0#32) := by
    decide +kernel
  rcases Option.map_eq_some_iff.mp hreturn with ⟨⟨r, board⟩, hcall, hboard⟩
  rcases Prod.mk.inj hboard with ⟨hid, hrest⟩
  rcases Prod.mk.inj hrest with ⟨hcopy, haddress⟩
  have hstale := hfresh netSystem (afterSetenv netSystem deleteAddressCall board)
    (enterLoop .tftp true (afterSetenv netSystem deleteAddressCall board))
    [.setenv deleteAddressCall] (.start .tftp true) netSystem_booted
    (.cons (.setenv hcall) (.nil _)) (.start .tftp true rfl) (Or.inl rfl) .ourIP
  have hread : netInitLoop (afterSetenv netSystem deleteAddressCall board) =
      { netSystem with
        board := board
        values := fun p => if p = .ourIP then board.ipAddr
          else getenvIPaddr board p.variable
        envChangedId := board.envId } := by
    refine if_pos ?_
    show (0 : Int) ≠ board.envId
    rw [hid]
    decide
  unfold enterLoop at hstale
  dsimp only at hstale
  rw [hread] at hstale
  rcases hstale with hvalue | hstored
  · have hsame : board.ipAddr = getenvIPaddr board (ascii "ipaddr") := hvalue
    rw [hcopy, haddress] at hsame
    exact absurd hsame (by decide)
  · cases hstored

end Network
end Bab750
