import Bab750.Network.NfsTransfer

/-!
# What a download over NFS stores

The number of the last request keeps late replies out, so that each read that is stored is one
of the offset that was reached.
-/

namespace Bab750
namespace Network
namespace Nfs

open Foundation

variable {x : Served} {start s : NfsClient} {first : BitVec 32}

/-!
# Stages
-/

def phaseRank : NfsPhase -> Nat
  | .prclookupProgMountReq => 1
  | .prclookupProgNfsReq => 2
  | .mountReq => 3
  | .lookupReq => 4
  | _ => 5

/-- The first bytes of the file are in memory, and counted. -/
structure Stored (x : Served) (start : NfsClient) (offset : Nat) (s : NfsClient) : Prop where
  load : s.loadAddr = start.loadAddr
  memory : s.memory = copyMemory start.memory start.loadAddr (x.file.take offset)
  xferSize : s.netBootFileXferSize = BitVec.ofNat 32 offset

/-- How far a download is; `slack` requests are still to be sent. -/
inductive Stage (slack : Nat) (x : Served) (start s : NfsClient) : Prop where
  | opening (hrank : phaseRank s.nfsState <= 4)
      (hcount : s.sent.length + slack <=
        start.sent.length + phaseRank s.nfsState + s.nfsTimeoutCount)
      (hstored : Stored x start 0 s) (hdownload : s.nfsDownloadState = .fail)
      (hloop : s.netState = .continue)
  | reading (offset : Nat) (hstate : s.nfsState = .readReq) (hoffset : s.nfsOffset = offset)
      (hinside : offset <= x.file.length)
      (hcount : s.sent.length + slack <= start.sent.length + 5 + offset + s.nfsTimeoutCount)
      (hstored : Stored x start offset s) (hdownload : s.nfsDownloadState = .fail)
      (hloop : s.netState = .continue) (hhandle : s.filefh = x.handle)
  | failed (hstate : s.nfsState = .umountReq) (hdownload : s.nfsDownloadState = .fail)
      (hloop : s.netState ≠ .success)
  | done (hstate : s.nfsState = .umountReq) (hdownload : s.nfsDownloadState = .success)
      (hstored : Stored x start x.file.length s)

structure Inv (first : BitVec 32) (x : Served) (start s : NfsClient) : Prop where
  numbered : Numbered first s
  patient : s.startedAgain = 0 -> s.nfsTimeoutCount <= nfsRetryCount
  stage : Stage 0 x start s
  asked : Asked s

/-- A stage lasts while requests are sent and tries are counted. -/
theorem Stage.recount {slack slack' count : Nat} {sent : List RpcPacket}
    (h : Stage slack x start s)
    (hcount : sent.length + slack' + s.nfsTimeoutCount <= s.sent.length + slack + count)
    (id : BitVec 32) (output : List Byte) (again : Nat) :
    Stage slack' x start
      { s with
        rpcId := id
        nfsTimeoutCount := count
        sent := sent
        output := output
        startedAgain := again } := by
  cases h with
  | opening hrank hbound hstored hdownload hloop =>
      refine Stage.opening hrank ?_ ⟨hstored.load, hstored.memory, hstored.xferSize⟩ hdownload
        hloop
      dsimp only
      omega
  | reading offset hstate hoffset hinside hbound hstored hdownload hloop hhandle =>
      refine Stage.reading offset hstate hoffset hinside ?_
        ⟨hstored.load, hstored.memory, hstored.xferSize⟩ hdownload hloop hhandle
      dsimp only
      omega
  | failed hstate hdownload hloop =>
      exact Stage.failed hstate hdownload hloop
  | done hstate hdownload hstored =>
      exact Stage.done hstate hdownload ⟨hstored.load, hstored.memory, hstored.xferSize⟩

theorem nfsSend_stage (h : Stage 1 x start s) : Stage 0 x start (nfsSend s) := by
  have hlength := nfsSend_length s
  rw [nfsSend_update]
  exact h.recount (by omega) _ _ _

theorem nfsSend_inv (hnumbered : Numbered first s)
    (hpatient : s.startedAgain = 0 -> s.nfsTimeoutCount <= nfsRetryCount)
    (hstage : Stage 1 x start s) : Inv first x start (nfsSend s) := by
  refine ⟨hnumbered.nfsSend, ?_, nfsSend_stage hstage, nfsSend_asked s⟩
  rw [nfsSend_update]
  exact hpatient

theorem rpcLookupReply_keeps (s : NfsClient) (prog : BitVec 32) (pkt : Buffer) :
    exists mountPort nfsPort, (rpcLookupReply s prog pkt).2 =
      { s with nfsSrvMountPort := mountPort, nfsSrvNfsPort := nfsPort } := by
  unfold rpcLookupReply
  split
  · exact ⟨_, _, rfl⟩
  · split
    · exact ⟨_, _, rfl⟩
    · split
      · exact ⟨_, _, rfl⟩
      · split
        · exact ⟨_, _, rfl⟩
        · exact ⟨_, _, rfl⟩

theorem nfsMountReply_cases (s : NfsClient) (pkt : Buffer) :
    nfsMountReply s pkt = (-1, s) ∨
      nfsMountReply s pkt = (0, { s with fsMounted := true, dirfh := rpcHandle pkt }) := by
  unfold nfsMountReply
  split
  · exact Or.inl rfl
  · split
    · exact Or.inl rfl
    · exact Or.inr rfl

theorem nfsUmountallReply_cases (s : NfsClient) (pkt : Buffer) :
    nfsUmountallReply s pkt = (-1, s) ∨
      nfsUmountallReply s pkt =
        (0, { s with fsMounted := false, dirfh := List.replicate 8 0#32 }) := by
  unfold nfsUmountallReply
  split
  · exact Or.inl rfl
  · split
    · exact Or.inl rfl
    · exact Or.inr rfl

theorem nfsLookupReply_cases (s : NfsClient) (pkt : Buffer) :
    nfsLookupReply s pkt = (-1, s) ∨
      (rpcWord pkt 0 = s.rpcId ∧ ¬ rpcRefused pkt ∧ rpcWord pkt 6 = 0#32 ∧
        nfsLookupReply s pkt = (0, { s with filefh := rpcHandle pkt })) := by
  unfold nfsLookupReply
  split
  · exact Or.inl rfl
  · rename_i hid
    split
    · exact Or.inl rfl
    · rename_i haccepted
      exact Or.inr ⟨not_not.mp hid, fun h => haccepted (Or.inl h),
        Classical.byContradiction (fun h => haccepted (Or.inr h)), rfl⟩

theorem nfsReadReply_late {packet : Buffer} (hid : rpcWord packet 0 ≠ s.rpcId) :
    nfsReadReply s packet = (-1, s) := if_pos hid

theorem nfsMarks_update (s : NfsClient) :
    exists output, nfsMarks s = { s with output := output } := by
  unfold nfsMarks NfsClient.puts
  dsimp only
  split
  · split
    · exact ⟨_, rfl⟩
    · exact ⟨_, rfl⟩
  · split
    · exact ⟨_, rfl⟩
    · exact ⟨_, rfl⟩

/-- What the numbers of the requests and the timeouts depend on. -/
structure Keeps (s u : NfsClient) : Prop where
  id : u.rpcId = s.rpcId
  sent : u.sent = s.sent
  timeouts : u.nfsTimeoutCount = s.nfsTimeoutCount

theorem Keeps.numbered {u : NfsClient} (hkeeps : Keeps s u) (h : Numbered first s) :
    Numbered first u := by
  constructor
  · rw [hkeeps.id, hkeeps.sent]
    exact h.current
  · rw [hkeeps.sent]
    exact h.ids

theorem Inv.send {u : NfsClient} (h : Inv first x start s) (hagain : s.startedAgain = 0)
    (hkeeps : Keeps s u) (hstage : Stage 1 x start u) : Inv first x start (nfsSend u) := by
  apply nfsSend_inv (hkeeps.numbered h.numbered) _ hstage
  intro _
  rw [hkeeps.timeouts]
  exact h.patient hagain

def shortFile : Served where
  file := [0x61#8, 0x62#8, 0x63#8]
  handle := List.replicate 8 7#32
  small := by decide
  size := rfl

def firstClient : NfsClient where
  fsMounted := false
  rpcId := 0#32
  nfsOffset := -1
  nfsLen := 0
  dirfh := []
  filefh := []
  nfsDownloadState := .fail
  nfsSrvMountPort := 0#32
  nfsSrvNfsPort := 0#32
  nfsOurPort := 0#32
  nfsTimeoutCount := 0
  nfsState := .prclookupProgMountReq
  nfsFilename := []
  nfsPath := []
  loadAddr := 0x100000#32
  netBootFileXferSize := 0#32
  netState := .continue
  startedAgain := 0
  memory := fun _ => 0xff#8
  sent := []
  output := []

/-- A request that is answered with words behind the header of the reply, and bytes behind
them. -/
structure Exchange where
  id : BitVec 32
  dest : BitVec 32
  prog : BitVec 32
  proc : BitVec 32
  asked : List (BitVec 32)
  told : List (BitVec 32)
  data : List Byte

def Exchange.request (e : Exchange) : RpcPacket :=
  ⟨e.dest, 1000#32, [e.id, 0#32, 2#32, e.prog, 2#32, e.proc] ++ e.asked⟩

def Exchange.reply (e : Exchange) : Reply :=
  ⟨[e.id, 1#32, 0#32, 0#32, 0#32, 0#32] ++ e.told, e.data⟩

def Exchange.event (e : Exchange) : Event :=
  .deliver e.request e.reply 1000#32 (fun _ => 0#8) (fun _ => 0#8)

def shortExchanges : List Exchange :=
  [⟨1#32, 111#32, progPortmap, portmapGetport,
      [0#32, 0#32, 0#32, 0#32, progMount, 1#32, 17#32, 0#32], [635#32], []⟩,
    ⟨2#32, 111#32, progPortmap, portmapGetport,
      [0#32, 0#32, 0#32, 0#32, progNfs, 2#32, 17#32, 0#32], [2049#32], []⟩,
    ⟨3#32, 635#32, progMount, mountAddentry, rpcAddCredentials ++ stringWords (ascii "/d"),
      0#32 :: List.replicate 8 5#32, []⟩,
    ⟨4#32, 2049#32, progNfs, nfsLookup,
      rpcAddCredentials ++ List.replicate 8 5#32 ++ stringWords (ascii "f"),
      0#32 :: List.replicate 8 7#32 ++ List.replicate 17 0#32, []⟩,
    ⟨5#32, 2049#32, progNfs, nfsRead,
      rpcAddCredentials ++ List.replicate 8 7#32 ++ [0#32, 1024#32, 0#32],
      0#32 :: List.replicate 17 0#32 ++ [3#32], [0x61#8, 0x62#8, 0x63#8]⟩,
    ⟨6#32, 2049#32, progNfs, nfsRead,
      rpcAddCredentials ++ List.replicate 8 7#32 ++ [3#32, 1024#32, 0#32],
      0#32 :: List.replicate 17 0#32 ++ [0#32], []⟩,
    ⟨7#32, 635#32, progMount, mountUmountall, rpcAddCredentials, [], []⟩]

theorem answers_other {x : Served} {e : Exchange} (hprog : e.prog ≠ progNfs) :
    Answers x e.request e.reply :=
  ⟨rfl, fun h => absurd (Option.some.inj h.left) hprog,
    fun _ _ h => absurd (Option.some.inj h.left) hprog⟩

theorem answers_read {x : Served} {e : Exchange} {offset : BitVec 32} (hproc : e.proc = nfsRead)
    (hasked : e.asked = rpcAddCredentials ++ x.handle ++ [offset, 1024#32, 0#32])
    (hreads : Reads x.file offset.toNat e.reply) : Answers x e.request e.reply := by
  refine ⟨rfl, fun h => ?_, fun other count _ hdata => ?_⟩
  · have hlookup := Option.some.inj h.right
    rw [hproc] at hlookup
    exact absurd hlookup (by decide)
  · change e.asked = rpcAddCredentials ++ x.handle ++ [other, count, 0#32] at hdata
    rw [hasked] at hdata
    have hsame := List.append_cancel_left hdata
    rw [← (List.cons.inj hsame).left]
    exact hreads

theorem shortExchanges_answers (e : Exchange) (he : e ∈ shortExchanges) :
    Answers shortFile e.request e.reply := by
  unfold shortExchanges at he
  simp only [List.mem_cons, List.not_mem_nil, or_false] at he
  rcases he with he | he | he | he | he | he | he
  · rw [he]
    exact answers_other (by decide)
  · rw [he]
    exact answers_other (by decide)
  · rw [he]
    exact answers_other (by decide)
  · rw [he]
    refine ⟨rfl, fun _ => Finds.found 4#32 1#32 0#32 (List.replicate 17 0#32) rfl, ?_⟩
    intro _ _ h
    exact absurd (Option.some.inj h.right) (by decide)
  · rw [he]
    exact answers_read rfl rfl (Reads.bytes 5#32 1#32 0#32 (List.replicate 17 0#32) 3 [] rfl rfl
      rfl (fun _ => Nat.le_refl 3) (fun h => absurd h (by decide)))
  · rw [he]
    exact answers_read rfl rfl (Reads.bytes 6#32 1#32 0#32 (List.replicate 17 0#32) 0 [] rfl rfl
      rfl (fun h => absurd h (Nat.lt_irrefl 0)) (fun _ => Nat.le_refl 3))
  · rw [he]
    exact answers_other (by decide)

theorem exchanges_run {x : Served} {s : NfsClient} {exchanges : List Exchange}
    (hanswers : forall e, e ∈ exchanges -> Answers x e.request e.reply)
    (hallowed : Allowed (fun s e => e.request ∈ s.sent ∧ s.startedAgain = 0)
      (fun s e => next s e.event) s exchanges) :
    Run (Step x) s (exchanges.map Exchange.event)
      (exchanges.foldl (fun s e => next s e.event) s) := by
  induction exchanges generalizing s with
  | nil =>
      exact .nil s
  | cons e exchanges ih =>
      rcases hallowed with ⟨⟨hrequest, hagain⟩, hrest⟩
      have hthis := hanswers e List.mem_cons_self
      exact .cons ⟨⟨hrequest, hthis⟩, hagain, rfl⟩
        (ih (fun e he => hanswers e (List.mem_cons_of_mem _ he)) hrest)

end Nfs
end Network
end Bab750
