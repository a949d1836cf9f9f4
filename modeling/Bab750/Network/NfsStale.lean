import Bab750.Network.NfsRuns

/-!
# Replies to earlier requests

Each request of the NFS client takes a new transaction number, also the copy that a timeout
sends.  A reply with another number than the last one fails the check of its state, and what
the handler does behind a failed check depends on the state.
-/

namespace Bab750
namespace Network
namespace Nfs

open Foundation

variable {s : NfsClient} {packet stack : Buffer} {dest : BitVec 32} {len : Nat}

/-!
# Transaction numbers
-/

/-- The transaction number that the handler compares; only a read is not looked at through
the copy of the datagram. -/
def transactionId (s : NfsClient) (packet : Buffer) (len : Nat) (stack : Buffer) : BitVec 32 :=
  if s.nfsState = .readReq then rpcWord packet 0 else rpcWord (rpcPkt packet len stack) 0

inductive Arrival where
  | datagram (packet : Buffer) (dest : BitVec 32) (len : Nat) (stack : Buffer)
  | timeout

def arrive (s : NfsClient) : Arrival -> NfsClient
  | .datagram packet dest len stack => nfsHandler s packet dest len stack
  | .timeout => nfsTimeout s

def Current (s : NfsClient) : Prop :=
  exists request, s.sent.getLast? = some request ∧ request.words[0]? = some s.rpcId

theorem current_rpcReq (s : NfsClient) (prog proc : BitVec 32) (data : List (BitVec 32)) :
    Current (rpcReq s prog proc data) :=
  ⟨_, List.getLast?_concat, rfl⟩

theorem Current.nfsSend (h : Current s) : Current (nfsSend s) := by
  rcases nfsSend_cases s with hnone | ⟨prog, proc, data, hreq⟩
  · rw [hnone]
    exact h
  · rw [hreq]
    exact current_rpcReq s prog proc data

theorem Current.keeps {t : NfsClient} (h : Current s) (hid : t.rpcId = s.rpcId)
    (hsent : t.sent = s.sent) : Current t := by
  unfold Current
  rw [hsent, hid]
  exact h

theorem Current.goTo {t : NfsClient} (h : Current s) (hid : t.rpcId = s.rpcId)
    (hsent : t.sent = s.sent) (phase : NfsPhase) : Current (t.goTo phase) :=
  Current.nfsSend (h.keeps hid hsent)

theorem nfsReadlinkReply_cases (s : NfsClient) (pkt : Buffer) :
    nfsReadlinkReply s pkt = (-1, s) ∨
      exists path, nfsReadlinkReply s pkt = (0, { s with nfsPath := path }) := by
  unfold nfsReadlinkReply
  split
  · exact Or.inl rfl
  · split
    · exact Or.inl rfl
    · dsimp only
      split
      · exact Or.inr ⟨_, rfl⟩
      · exact Or.inr ⟨_, rfl⟩

theorem nfsReadReply_requests (s : NfsClient) (pkt : Buffer) :
    (nfsReadReply s pkt).2.rpcId = s.rpcId ∧ (nfsReadReply s pkt).2.sent = s.sent := by
  unfold nfsReadReply
  split
  · exact ⟨rfl, rfl⟩
  · split
    · split
      · exact ⟨rfl, rfl⟩
      · split
        · exact ⟨rfl, rfl⟩
        · exact ⟨rfl, rfl⟩
    · obtain ⟨output, hmarks⟩ := nfsMarks_update s
      rw [hmarks]
      exact ⟨rfl, rfl⟩

theorem current_readDone {t : NfsClient} (h : Current t) (rlen : Int) :
    Current (nfsReadDone rlen t) := by
  unfold nfsReadDone
  split
  · exact Current.nfsSend (h.keeps rfl rfl)
  · split
    · exact h.goTo (by rfl) (by rfl) .readlinkReq
    · split
      · exact h.goTo (by rfl) (by rfl) .umountReq
      · exact h.goTo (by rfl) (by rfl) .umountReq

theorem current_handler (h : Current s) : Current (nfsHandler s packet dest len stack) := by
  have hnonzero : (-1 : Int) ≠ 0 := by decide
  unfold nfsHandler
  split
  · exact h
  dsimp only
  split
  · obtain ⟨mountPort, nfsPort, hreply⟩ :=
      rpcLookupReply_keeps s progMount (rpcPkt packet len stack)
    rw [hreply]
    exact h.goTo (by rfl) (by rfl) .prclookupProgNfsReq
  · obtain ⟨mountPort, nfsPort, hreply⟩ :=
      rpcLookupReply_keeps s progNfs (rpcPkt packet len stack)
    rw [hreply]
    exact h.goTo (by rfl) (by rfl) .mountReq
  · rcases nfsMountReply_cases s (rpcPkt packet len stack) with hreply | hreply
    · rw [hreply, if_pos hnonzero]
      exact h.goTo (by rfl) (by rfl) .umountReq
    · rw [hreply, if_neg (not_not.mpr rfl)]
      exact h.goTo (by rfl) (by rfl) .lookupReq
  · rcases nfsUmountallReply_cases s (rpcPkt packet len stack) with hreply | hreply
    · rw [hreply, if_pos hnonzero]
      exact h.keeps rfl rfl
    · rw [hreply, if_neg (not_not.mpr rfl)]
      exact h.keeps rfl rfl
  · rcases nfsLookupReply_cases s (rpcPkt packet len stack) with hreply | ⟨_, _, _, hreply⟩
    · rw [hreply, if_pos hnonzero]
      exact h.goTo (by rfl) (by rfl) .umountReq
    · rw [hreply, if_neg (not_not.mpr rfl)]
      exact h.goTo (by rfl) (by rfl) .readReq
  · rcases nfsReadlinkReply_cases s (rpcPkt packet len stack) with hreply | ⟨path, hreply⟩
    · rw [hreply, if_pos hnonzero]
      exact h.goTo (by rfl) (by rfl) .umountReq
    · rw [hreply, if_neg (not_not.mpr rfl)]
      exact h.goTo (by rfl) (by rfl) .mountReq
  · obtain ⟨hid, hsent⟩ := nfsReadReply_requests s packet
    exact current_readDone (h.keeps hid hsent) _

theorem current_timeout (h : Current s) : Current (nfsTimeout s) := by
  unfold nfsTimeout
  dsimp only
  split
  · exact h.keeps rfl rfl
  · exact Current.nfsSend (h.keeps rfl rfl)

theorem arrivals_current (s : NfsClient) (path filename banner : List Byte)
    (arrivals : List Arrival) :
    Current (arrivals.foldl arrive (nfsStart s path filename banner)) := by
  have hstart : Current (nfsStart s path filename banner) := current_rpcReq _ _ _ _
  revert hstart
  generalize nfsStart s path filename banner = t
  induction arrivals generalizing t with
  | nil =>
      exact id
  | cons arrival arrivals ih =>
      intro h
      apply ih
      cases arrival with
      | datagram packet dest len stack =>
          exact current_handler h
      | timeout =>
          exact current_timeout h

/-!
# What a late reply does
-/

def lateNext (s : NfsClient) : NfsClient :=
  match s.nfsState with
  | .prclookupProgMountReq => s.goTo .prclookupProgNfsReq
  | .prclookupProgNfsReq => s.goTo .mountReq
  | .mountReq => (s.puts "*** ERROR: Cannot mount\n").goTo .umountReq
  | .umountReq => { s.puts "*** ERROR: Cannot umount\n" with netState := .fail }
  | .lookupReq => (s.puts "*** ERROR: File lookup fail\n").goTo .umountReq
  | .readlinkReq => (s.puts "*** ERROR: Symlink fail\n").goTo .umountReq
  | .readReq => s.goTo .umountReq

theorem nfsHandler_late (hport : dest = s.nfsOurPort)
    (hid : transactionId s packet len stack ≠ s.rpcId) :
    nfsHandler s packet dest len stack = lateNext s := by
  unfold nfsHandler lateNext
  rw [if_neg (not_not.mpr hport)]
  unfold transactionId at hid
  cases hstate : s.nfsState with
  | readReq =>
      rw [if_pos hstate] at hid
      dsimp only
      rw [nfsReadReply_late hid]
      rfl
  | prclookupProgMountReq =>
      rw [if_neg (by rw [hstate]; decide)] at hid
      dsimp only
      unfold rpcLookupReply
      rw [if_pos hid]
  | prclookupProgNfsReq =>
      rw [if_neg (by rw [hstate]; decide)] at hid
      dsimp only
      unfold rpcLookupReply
      rw [if_pos hid]
  | mountReq =>
      rw [if_neg (by rw [hstate]; decide)] at hid
      dsimp only
      unfold nfsMountReply
      rw [if_pos hid]
      rfl
  | umountReq =>
      rw [if_neg (by rw [hstate]; decide)] at hid
      dsimp only
      unfold nfsUmountallReply
      rw [if_pos hid]
      rfl
  | lookupReq =>
      rw [if_neg (by rw [hstate]; decide)] at hid
      dsimp only
      unfold nfsLookupReply
      rw [if_pos hid]
      rfl
  | readlinkReq =>
      rw [if_neg (by rw [hstate]; decide)] at hid
      dsimp only
      unfold nfsReadlinkReply
      rw [if_pos hid]
      rfl

/-- The state of a client that a late reply has to leave as it is. -/
structure Unchanged (s t : NfsClient) : Prop where
  nfsState : t.nfsState = s.nfsState
  nfsOffset : t.nfsOffset = s.nfsOffset
  nfsSrvMountPort : t.nfsSrvMountPort = s.nfsSrvMountPort
  nfsSrvNfsPort : t.nfsSrvNfsPort = s.nfsSrvNfsPort
  dirfh : t.dirfh = s.dirfh
  filefh : t.filefh = s.filefh
  memory : t.memory = s.memory
  netState : t.netState = s.netState

def latePhase : NfsPhase -> NfsPhase
  | .prclookupProgMountReq => .prclookupProgNfsReq
  | .prclookupProgNfsReq => .mountReq
  | _ => .umountReq

theorem latePhase_eq_iff (phase : NfsPhase) : latePhase phase = phase <-> phase = .umountReq := by
  cases phase <;> decide

/-- A late reply changes the phase and the state of the network loop at most, apart from
what is printed and sent. -/
theorem lateNext_update (s : NfsClient) :
    exists rpcId sent output, lateNext s =
      { s with
        rpcId := rpcId
        sent := sent
        output := output
        nfsState := latePhase s.nfsState
        netState := if s.nfsState = .umountReq then .fail else s.netState } := by
  by_cases hstate : s.nfsState = .umountReq
  · have hnext : lateNext s =
        { s.puts "*** ERROR: Cannot umount\n" with netState := .fail } := by
      unfold lateNext
      rw [hstate]
    refine ⟨s.rpcId, s.sent, (s.puts "*** ERROR: Cannot umount\n").output, ?_⟩
    rw [hnext, (latePhase_eq_iff s.nfsState).2 hstate, if_pos hstate]
    rfl
  · rw [if_neg hstate]
    unfold lateNext latePhase NfsClient.goTo
    cases hphase : s.nfsState with
    | umountReq =>
        exact absurd hphase hstate
    | _ =>
        exact ⟨_, _, _, nfsSend_update _⟩

/-- A late reply leaves the client as it is exactly when it is for another port, or when
unmounting has failed already. -/
theorem nfs_stale_reply_iff (hid : transactionId s packet len stack ≠ s.rpcId) :
    Unchanged s (nfsHandler s packet dest len stack) <->
      dest ≠ s.nfsOurPort ∨ s.nfsState = .umountReq ∧ s.netState = .fail := by
  by_cases hport : dest = s.nfsOurPort
  · obtain ⟨rpcId, sent, output, hlate⟩ := lateNext_update s
    rw [nfsHandler_late hport hid, hlate]
    constructor
    · intro h
      have hstate : s.nfsState = .umountReq := (latePhase_eq_iff s.nfsState).1 h.nfsState
      refine Or.inr ⟨hstate, ?_⟩
      have hloop := h.netState
      dsimp only at hloop
      rw [if_pos hstate] at hloop
      exact hloop.symm
    · intro h
      rcases h with hother | ⟨hstate, hloop⟩
      · exact absurd hport hother
      · refine ⟨(latePhase_eq_iff s.nfsState).2 hstate, rfl, rfl, rfl, rfl, rfl, rfl, ?_⟩
        dsimp only
        rw [if_pos hstate, hloop]
  · unfold nfsHandler
    rw [if_pos hport]
    exact ⟨fun _ => Or.inl hport, fun _ => ⟨rfl, rfl, rfl, rfl, rfl, rfl, rfl, rfl⟩⟩

/-- A reply to another port. -/
theorem nfs_stale_reply_other_port :
    Unchanged firstClient
      (nfsHandler firstClient (fun _ => 1#8) 7#32 100 (fun _ => 0#8)) :=
  (nfs_stale_reply_iff (by decide)).2 (Or.inl (by decide))

def mountTwice : List Event :=
  (shortExchanges.take 2).map Exchange.event ++ [.timeout]

def lateMount : Exchange :=
  ⟨3#32, 635#32, progMount, mountAddentry, rpcAddCredentials ++ stringWords (ascii "/d"),
    0#32 :: List.replicate 8 5#32, []⟩

set_option maxRecDepth 4000 in
/-- The answer to the first mount request arrives behind the second one. -/
theorem nfs_late_mount_unmounts :
    exists s,
      Run (Step shortFile) (nfsStart firstClient (ascii "/d") (ascii "f") []) mountTwice s ∧
      Enabled shortFile s lateMount.event ∧ s.nfsState = .mountReq ∧
      transactionId s (packetBuffer lateMount.reply.payload (fun _ => 0#8))
        lateMount.reply.payload.length (fun _ => 0#8) ≠ s.rpcId ∧
      (next s lateMount.event).nfsState = .umountReq := by
  have hexchanges := @exchanges_run shortFile (nfsStart firstClient (ascii "/d") (ascii "f") [])
    (shortExchanges.take 2) (fun e he => shortExchanges_answers e (List.mem_of_mem_take he))
    (by decide)
  have hrun : Run (Step shortFile) (nfsStart firstClient (ascii "/d") (ascii "f") [])
      mountTwice _ :=
    hexchanges.snoc ⟨show Enabled _ _ .timeout from trivial, by decide, rfl⟩
  have hanswers : Answers shortFile lateMount.request lateMount.reply :=
    answers_other (by decide)
  exact ⟨_, hrun, ⟨by decide, hanswers⟩, by decide, by decide, by decide⟩

end Nfs
end Network
end Bab750
